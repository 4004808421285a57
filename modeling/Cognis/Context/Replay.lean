import Cognis.Context.Selection

namespace Cognis.Context

open List

variable {ds : Decisions}

variable {α β : Type} {key : String} {call : ToolCall} {p : String × Decision}

/-- What the model sees of two messages is the same. -/
def SameView (a b : Message) : Prop :=
  a.role = b.role ∧ a.content = b.content ∧ a.toolCalls = b.toolCalls

instance (a b : Message) : Decidable (SameView a b) := inferInstanceAs (Decidable (_ ∧ _))

/-- A key that a decision can be filed under. -/
def named (key : Option String) : Bool := key.any (· ≠ "")

section

variable (k : Codec) (before after : List Message) (key : Option String)

/-- The last arguments that the passes left under the key are not those they found there. -/
def clearedUnder : Bool :=
  named key && key.any fun key =>
    (lastArguments (callArguments k before) key).isSome &&
      (lastArguments (callArguments k after) key).any fun args =>
        some args ≠ lastArguments (callArguments k before) key

/-- A compacted delegation result has the key. -/
def replayUnder : Bool :=
  named key && after.any fun n =>
    n.projectedCompacted && n.delegationResultReplay && n.recoveryCallId = key

/-- The rendering of a compacted tool result that has the key, if the replay knows it. -/
def compactedVersion (key : String) (n : Message) : Option Nat :=
  if n.projectedCompacted = true ∧ n.delegationResultReplay = false ∧ n.role = .tool ∧
      n.toolCallId = some key ∧ (n.compactResultRenderingVersion.getD 1 = 1 ∨
        n.compactResultRenderingVersion.getD 1 = compactResultRenderingPolicyVersion) then
    some (n.compactResultRenderingVersion.getD 1)
  else none

def resultUnder : Option Nat :=
  if named key then key.bind fun key => after.findSome? (compactedVersion key) else none

/-- A compacted attachment context has the key. -/
def attachmentUnder : Bool :=
  named key && after.any fun n =>
    n.projectedCompacted && !n.delegationResultReplay && n.role ≠ .tool &&
      n.toolAttachmentContext && n.attachmentKey = key

/-- What is left of a message without calls if it goes the way of the compacted one that
has its key. -/
def sharedRendering (m : Message) : Option Message :=
  if m.delegationResultReplay then
    if replayUnder after m.recoveryCallId then some (forceDelegationReplay k m) else none
  else if m.role = .tool then
    if m.projectedCompacted then none
    else (resultUnder after m.toolCallId).map (compactToolResult k m)
  else if m.toolAttachmentContext && !m.projectedCompacted && attachmentUnder after m.attachmentKey
  then some (compactToolAttachment m)
  else none

def sharedClearing (call : ToolCall) : Option ToolCall :=
  if clearedUnder k before after call.key then some (clearCall k argClearThreshold call) else none

end

/-- What a pass left as it was shares no key with a change that would show in it, and what
it changed has the change under its key. -/
def KeyedApart (same : α → α → Prop) (shared : Option α) (old new : α) : Prop :=
  (same old new → ∀ x ∈ shared, same x old) ∧ (¬ same old new → ∃ x ∈ shared, same x new)

instance {same : α → α → Prop} [DecidableRel same] {shared : Option α} {old new : α} :
    Decidable (KeyedApart same shared old new) := inferInstanceAs (Decidable (_ ∧ _))

theorem keyedApart_iff {same : α → α → Prop} (heq : Equivalence same) {shared : Option α}
    {old new : α} : KeyedApart same shared old new ↔ same (shared.getD old) new := by
  unfold KeyedApart
  cases shared with
  | none =>
    simp only [Option.not_mem_none, false_implies, implies_true, true_and, Option.getD_none,
      false_and, exists_false]
    exact not_not
  | some x =>
    simp only [Option.mem_some_iff, forall_eq', exists_eq_left', Option.getD_some]
    constructor
    · rintro ⟨hkept, hchanged⟩
      by_cases hsame : same old new
      · exact heq.trans (hkept hsame) hsame
      · exact hchanged hsame
    · intro hx
      exact ⟨fun hsame => heq.trans hx (heq.symm hsame), fun _ => hx⟩

theorem sameView_equivalence : Equivalence SameView where
  refl _ := ⟨rfl, rfl, rfl⟩
  symm h := ⟨h.1.symm, h.2.1.symm, h.2.2.symm⟩
  trans h h' := ⟨h.1.trans h'.1, h.2.1.trans h'.2.1, h.2.2.trans h'.2.2⟩

/-- The calls that the replay looks at. -/
def Message.replayedCalls (m : Message) : Option (List ToolCall) :=
  if m.delegationResultReplay = true ∨ m.role = .tool then none else m.toolCalls

def MessageKeyed (k : Codec) (before after : List Message) (old new : Message) : Prop :=
  match old.replayedCalls with
  | some calls => new.role = old.role ∧ new.content = old.content ∧ ∃ calls' ∈ new.toolCalls,
      Forall₂ (fun c c' => KeyedApart Eq (sharedClearing k before after c) c c') calls calls'
  | none => KeyedApart SameView (sharedRendering k after old) old new

instance (k : Codec) (before after : List Message) : DecidableRel (MessageKeyed k before after) :=
  fun old new =>
    match h : old.replayedCalls with
    | some calls => decidable_of_iff (new.role = old.role ∧ new.content = old.content ∧
        ∃ calls' ∈ new.toolCalls,
          Forall₂ (fun c c' => KeyedApart Eq (sharedClearing k before after c) c c') calls calls')
        (by rw [MessageKeyed, h])
    | none => decidable_of_iff (KeyedApart SameView (sharedRendering k after old) old new)
        (by rw [MessageKeyed, h])

/-- Every group keeps a call with arguments that can be recorded. -/
def GroupsRecorded (k : Codec) (before after : List Message) : Prop :=
  ∀ g ∈ collectToolGroups before,
    ∃ id ∈ g.callIds, (lastArguments (callArguments k after) id).isSome = true

instance (k : Codec) (before after : List Message) : Decidable (GroupsRecorded k before after) :=
  inferInstanceAs (Decidable (∀ g ∈ collectToolGroups before,
    ∃ id ∈ g.callIds, (lastArguments (callArguments k after) id).isSome = true))

/-- Whatever the passes changed is told by its key from what they left as it was. -/
structure Replayable (k : Codec) (before after : List Message) : Prop where
  groups : GroupsRecorded k before after
  messages : Forall₂ (MessageKeyed k before after) before after

section

/-- A fold whose steps lead from the start to the value that a decision asks for, if any, and
that stays there. -/
theorem foldl_findSome {f : β → α → β} {g : α → Option β} {u : β} {l : List α}
    (hstart : ∀ d ∈ l, f u d = (g d).getD u)
    (hstay : ∀ d ∈ l, ∀ v, g d = some v → ∀ d' ∈ l, f v d' = v) :
    l.foldl f u = (l.findSome? g).getD u := by
  have hkept : ∀ (v : β) (l : List α), (∀ d ∈ l, f v d = v) → l.foldl f v = v := by
    intro v l hl
    induction l with
    | nil => rfl
    | cons d l ih =>
      rw [foldl_cons, hl d mem_cons_self]
      exact ih fun d' hd' => hl d' (mem_cons_of_mem _ hd')
  induction l with
  | nil => rfl
  | cons d l ih =>
    rw [foldl_cons, findSome?_cons, hstart d mem_cons_self]
    cases hd : g d with
    | none =>
      exact ih (fun d' hd' => hstart d' (mem_cons_of_mem _ hd')) fun e he v hv d' hd' =>
        hstay e (mem_cons_of_mem _ he) v hv d' (mem_cons_of_mem _ hd')
    | some v =>
      exact hkept v l fun d' hd' => hstay d mem_cons_self v hd d' (mem_cons_of_mem _ hd')

theorem findSome?_ite {p : α → Prop} [DecidablePred p] (v : β) (l : List α) :
    (l.findSome? fun d => if p d then some v else none) =
      if ∃ d ∈ l, p d then some v else none := by
  induction l with
  | nil => simp
  | cons d l ih =>
    rw [findSome?_cons, ih]
    by_cases hd : p d
    · simp [hd]
    · simp [hd]

theorem mem_foldl_iff (file : Decisions → α → Decisions) (files : α → Prop)
    (hfile : ∀ ds a, p ∈ file ds a ↔ p ∈ ds ∨ files a) (l : List α)
    (ds : Decisions) : p ∈ l.foldl file ds ↔ p ∈ ds ∨ ∃ a ∈ l, files a := by
  induction l generalizing ds with
  | nil => simp
  | cons a l ih =>
    rw [foldl_cons, ih, hfile, or_assoc]
    simp only [mem_cons, exists_eq_or_imp]

theorem mem_addDecision {key : Option String} {operation : Operation}
    {version : Nat} : p ∈ addDecision ds key operation version ↔
      p ∈ ds ∨ named key = true ∧ key = some p.1 ∧ p.2 = ⟨operation, version⟩ := by
  obtain ⟨pkey, decision⟩ := p
  unfold addDecision named
  cases key with
  | none => simp
  | some key =>
    dsimp only
    split
    · rename_i hskip
      constructor
      · exact .inl
      · rintro (hmem | ⟨hne, heq, rfl⟩)
        · exact hmem
        · cases heq
          exact hskip.resolve_left (of_decide_eq_true hne)
    · rename_i hadd
      rw [not_or] at hadd
      simp [hadd.1, eq_comm]

/-- The decision that a compacted message is filed with. -/
def Compaction (m : Message) (p : String × Decision) : Prop :=
  m.projectedCompacted = true ∧
    if m.delegationResultReplay = true then named m.recoveryCallId = true ∧
      m.recoveryCallId = some p.1 ∧
        p.2 = ⟨.compactDelegationResult, projectionRenderingPolicyVersion⟩
    else if m.role = .tool then named m.toolCallId = true ∧ m.toolCallId = some p.1 ∧
      p.2 = ⟨.compactResult, m.compactResultRenderingVersion.getD 1⟩
    else m.toolAttachmentContext = true ∧ named m.attachmentKey = true ∧
      m.attachmentKey = some p.1 ∧ p.2 = ⟨.compactAttachment, projectionRenderingPolicyVersion⟩

variable {m : Message}

theorem Compaction.named (h : Compaction m p) : named (some p.1) = true := by
  obtain ⟨-, hfiled⟩ := h
  split_ifs at hfiled
  · exact hfiled.2.1 ▸ hfiled.1
  · exact hfiled.2.1 ▸ hfiled.1
  · exact hfiled.2.2.1 ▸ hfiled.2.1

theorem Compaction.operation (h : Compaction m p) :
    p.2.operation ∈ [.compactDelegationResult, .compactResult, .compactAttachment] := by
  obtain ⟨key, decision⟩ := p
  obtain ⟨-, hfiled⟩ := h
  split_ifs at hfiled
  · obtain ⟨-, -, rfl⟩ := hfiled
    simp
  · obtain ⟨-, -, rfl⟩ := hfiled
    simp
  · obtain ⟨-, -, -, rfl⟩ := hfiled
    simp

theorem mem_recordCompacted :
    p ∈ recordCompacted ds m ↔ p ∈ ds ∨ Compaction m p := by
  unfold recordCompacted Compaction
  cases hmarked : m.projectedCompacted with
  | false => simp
  | true =>
    rw [if_neg Bool.noConfusion]
    split_ifs with hreplay hrole hcontext
    · simp [mem_addDecision]
    · simp [mem_addDecision]
    · simp [mem_addDecision, hcontext]
    · simp [hcontext]

end

section

variable {k : Codec} {before after : List Message} {threshold : Int}

theorem lastArguments_isSome {calls : List (String × String)} :
    (lastArguments calls key).isSome = true ↔ ∃ call ∈ calls, call.1 = key := by
  unfold lastArguments
  rw [lookup_isSome_iff]
  simp only [mem_reverse, beq_iff_eq, eq_comm (a := key)]

theorem mem_recordClearedArguments :
    p ∈ recordClearedArguments (callArguments k before) (callArguments k after) threshold [] ↔
      clearedUnder k before after (some p.1) = true ∧
        p.2 = ⟨.clearArguments threshold, projectionRenderingPolicyVersion⟩ := by
  let files (call : String × String) : Prop := call.1 = p.1 ∧ named (some p.1) = true ∧
    (lastArguments (callArguments k after) p.1).any (fun args =>
      some args ≠ lastArguments (callArguments k before) p.1) = true ∧
    p.2 = ⟨.clearArguments threshold, projectionRenderingPolicyVersion⟩
  refine (mem_foldl_iff _ files ?_ (callArguments k before) []).trans ?_
  · intro ds call
    obtain ⟨key, args⟩ := call
    split
    · rename_i args' hargs
      split
      · rename_i hchanged
        rw [mem_addDecision]
        apply or_congr_right
        constructor
        · rintro ⟨hnamed, heq, hp⟩
          obtain rfl := Option.some.inj heq
          exact ⟨rfl, hnamed, by rw [hargs]; exact decide_eq_true hchanged, hp⟩
        · rintro ⟨rfl, hnamed, -, hp⟩
          exact ⟨hnamed, rfl, hp⟩
      · rename_i hsame
        refine ⟨.inl, ?_⟩
        rintro (hmem | ⟨rfl, -, hchanged, -⟩)
        · exact hmem
        · rw [hargs] at hchanged
          exact absurd (of_decide_eq_true hchanged) hsame
    · rename_i hnone
      refine ⟨.inl, ?_⟩
      rintro (hmem | ⟨rfl, -, hchanged, -⟩)
      · exact hmem
      · rw [hnone] at hchanged
        cases hchanged
  · simp only [clearedUnder, Option.any_some, Bool.and_eq_true, lastArguments_isSome]
    constructor
    · rintro (hmem | ⟨call, hcall, heq, hnamed, hchanged, hp⟩)
      · cases hmem
      · exact ⟨⟨hnamed, ⟨call, hcall, heq⟩, hchanged⟩, hp⟩
    · rintro ⟨⟨hnamed, ⟨call, hcall, heq⟩, hchanged⟩, hp⟩
      exact .inr ⟨call, hcall, heq, hnamed, hchanged, hp⟩

/-- What the recorder files when no group is left out. -/
def messageDecisions (k : Codec) (before after : List Message) : Decisions :=
  after.foldl recordCompacted
    (recordClearedArguments (callArguments k before) (callArguments k after) argClearThreshold [])

theorem mem_messageDecisions : p ∈ messageDecisions k before after ↔
    (clearedUnder k before after (some p.1) = true ∧
      p.2 = ⟨.clearArguments argClearThreshold, projectionRenderingPolicyVersion⟩) ∨
    ∃ m ∈ after, Compaction m p := by
  rw [messageDecisions, mem_foldl_iff recordCompacted (Compaction · p)
    (fun _ _ => mem_recordCompacted), mem_recordClearedArguments]

variable {d : Decision}

theorem mem_getD_get {key : Option String} :
    d ∈ (key.map ds.get).getD [] ↔ ∃ key', key = some key' ∧ (key', d) ∈ ds := by
  cases key with
  | none => simp
  | some key => simp [Decisions.get]

theorem recorded_replay {key : Option String} :
    (∃ d ∈ (key.map (messageDecisions k before after).get).getD [],
      d = ⟨.compactDelegationResult, projectionRenderingPolicyVersion⟩) ↔
      replayUnder after key = true := by
  simp only [exists_eq_right, mem_getD_get, mem_messageDecisions, replayUnder, Bool.and_eq_true,
    any_eq_true, decide_eq_true_eq]
  constructor
  · rintro ⟨key', rfl, ⟨-, hop⟩ | ⟨m, hm, hmarked, hfiled⟩⟩
    · cases hop
    · split_ifs at hfiled with hreplay hrole
      · obtain ⟨hnamed, hkey, -⟩ := hfiled
        exact ⟨hkey ▸ hnamed, m, hm, ⟨hmarked, hreplay⟩, hkey⟩
      · cases hfiled.2.2
      · cases hfiled.2.2.2
  · rintro ⟨hnamed, m, hm, ⟨hmarked, hreplay⟩, hkey⟩
    obtain ⟨key', rfl, -⟩ := (Option.any_eq_true _ _).mp hnamed
    refine ⟨key', rfl, .inr ⟨m, hm, hmarked, ?_⟩⟩
    rw [if_pos hreplay]
    exact ⟨hkey ▸ hnamed, hkey, rfl⟩

theorem recorded_attachment {key : Option String} :
    (∃ d ∈ (key.map (messageDecisions k before after).get).getD [],
      d = ⟨.compactAttachment, projectionRenderingPolicyVersion⟩) ↔
      attachmentUnder after key = true := by
  simp only [exists_eq_right, mem_getD_get, mem_messageDecisions, attachmentUnder, Bool.and_eq_true,
    any_eq_true, decide_eq_true_eq, Bool.not_eq_true']
  constructor
  · rintro ⟨key', rfl, ⟨-, hop⟩ | ⟨m, hm, hmarked, hfiled⟩⟩
    · cases hop
    · split_ifs at hfiled with hreplay hrole
      · cases hfiled.2.2
      · cases hfiled.2.2
      · obtain ⟨hcontext, hnamed, hkey, -⟩ := hfiled
        rw [Bool.not_eq_true] at hreplay
        exact ⟨hkey ▸ hnamed, m, hm, ⟨⟨⟨hmarked, hreplay⟩, hrole⟩, hcontext⟩, hkey⟩
  · rintro ⟨hnamed, m, hm, ⟨⟨⟨hmarked, hreplay⟩, hrole⟩, hcontext⟩, hkey⟩
    obtain ⟨key', rfl, -⟩ := (Option.any_eq_true _ _).mp hnamed
    refine ⟨key', rfl, .inr ⟨m, hm, hmarked, ?_⟩⟩
    rw [hreplay, if_neg Bool.false_ne_true, if_neg hrole]
    exact ⟨hcontext, hkey ▸ hnamed, hkey, rfl⟩

theorem recorded_clearing {key : Option String} :
    (∃ d ∈ (key.map (messageDecisions k before after).get).getD [],
      d = ⟨.clearArguments argClearThreshold, projectionRenderingPolicyVersion⟩) ↔
      clearedUnder k before after key = true := by
  simp only [exists_eq_right, mem_getD_get, mem_messageDecisions]
  constructor
  · rintro ⟨key', rfl, ⟨hcleared, -⟩ | ⟨m, -, hfiled⟩⟩
    · exact hcleared
    · have hop := Compaction.operation hfiled
      simp at hop
  · intro hcleared
    cases key with
    | none => cases hcleared
    | some key => exact ⟨key, rfl, .inl ⟨hcleared, trivial⟩⟩

/-- The version of a decision that replays a tool result. -/
def replayedVersion (d : Decision) : Option Nat :=
  if d.operation = .compactResult ∧ (d.renderingPolicyVersion = 1 ∨
      d.renderingPolicyVersion = compactResultRenderingPolicyVersion) then
    some d.renderingPolicyVersion
  else none

theorem mem_get : d ∈ ds.get key ↔ (key, d) ∈ ds := by
  simp [Decisions.get]

theorem findSome?_addDecision {key' : Option String} {operation : Operation}
    {version : Nat} : ((addDecision ds key' operation version).get key).findSome? replayedVersion =
      ((ds.get key).findSome? replayedVersion).or
        (if named key' = true ∧ key' = some key then replayedVersion ⟨operation, version⟩
          else none) := by
  unfold addDecision
  cases key' with
  | none => simp [named]
  | some key' =>
    dsimp only
    split
    · rename_i hskip
      split
      · rename_i hown
        obtain ⟨hnamed, heq⟩ := hown
        obtain rfl := Option.some.inj heq
        have hfiled := mem_get.mpr (hskip.resolve_left (of_decide_eq_true hnamed))
        cases hfound : (ds.get key').findSome? replayedVersion with
        | none => rw [findSome?_eq_none_iff.mp hfound _ hfiled, Option.or_none]
        | some v => rfl
      · rw [Option.or_none]
    · rename_i hadd
      rw [not_or] at hadd
      have hnamed : named (some key') = true := decide_eq_true hadd.1
      rw [Decisions.get, filter_append, map_append, findSome?_append]
      congr 1
      by_cases heq : key' = key
      · subst heq
        simp [hnamed]
      · simp [heq]

theorem findSome?_recordCompacted {n : Message} (hnamed : named (some key) = true) :
    ((recordCompacted ds n).get key).findSome? replayedVersion =
      ((ds.get key).findSome? replayedVersion).or (compactedVersion key n) := by
  unfold recordCompacted compactedVersion
  cases hmarked : n.projectedCompacted with
  | false => simp
  | true =>
    rw [if_neg Bool.noConfusion]
    split_ifs with hreplay hversion hrole hversion hcontext hversion hversion
    · exact absurd hreplay (Bool.not_eq_true _ ▸ hversion.2.1)
    · simp [findSome?_addDecision, replayedVersion]
    · obtain ⟨-, -, -, hkey, hversion⟩ := hversion
      rw [findSome?_addDecision, hkey, if_pos ⟨hnamed, rfl⟩, replayedVersion,
        if_pos ⟨rfl, hversion⟩]
    · rw [findSome?_addDecision]
      congr 1
      split_ifs with hkey
      · rw [replayedVersion, if_neg]
        rintro ⟨-, hknown⟩
        exact hversion ⟨rfl, Bool.eq_false_of_not_eq_true hreplay, hrole, hkey.2, hknown⟩
      · rfl
    · exact absurd hversion.2.2.1 hrole
    · simp [findSome?_addDecision, replayedVersion]
    · exact absurd hversion.2.2.1 hrole
    · rw [Option.or_none]

theorem findSome?_foldl_recordCompacted (hnamed : named (some key) = true)
    (ms : List Message) : ((ms.foldl recordCompacted ds).get key).findSome? replayedVersion =
      ((ds.get key).findSome? replayedVersion).or (ms.findSome? (compactedVersion key)) := by
  induction ms generalizing ds with
  | nil => simp
  | cons n ms ih =>
    rw [foldl_cons, ih, findSome?_recordCompacted hnamed, Option.or_assoc, findSome?_cons]
    cases compactedVersion key n <;> rfl

theorem recorded_result {key : Option String} :
    ((key.map (messageDecisions k before after).get).getD []).findSome? replayedVersion =
      resultUnder after key := by
  cases key with
  | none => rfl
  | some key =>
    by_cases hnamed : named (some key) = true
    · have hcleared : ((recordClearedArguments (callArguments k before) (callArguments k after)
          argClearThreshold []).get key).findSome? replayedVersion = none := by
        rw [findSome?_eq_none_iff]
        intro d hd
        obtain ⟨-, hop⟩ := mem_recordClearedArguments.mp (mem_get.mp hd)
        cases hop
        rfl
      rw [Option.map_some, Option.getD_some, messageDecisions,
        findSome?_foldl_recordCompacted hnamed, hcleared, resultUnder, if_pos hnamed]
      rfl
    · rw [resultUnder, if_neg hnamed, findSome?_eq_none_iff]
      intro d hd
      obtain ⟨hcleared, -⟩ | ⟨m, -, hfiled⟩ := mem_messageDecisions.mp (mem_get.mp hd)
      · exact absurd (Bool.and_eq_true_iff.mp hcleared).1 hnamed
      · exact absurd hfiled.named hnamed

variable (m : Message)

theorem applyToReplay_eq : applyToReplay k (messageDecisions k before after) m =
    if replayUnder after m.recoveryCallId then forceDelegationReplay k m else m := by
  unfold applyToReplay
  rw [foldl_findSome (g := fun d =>
    if d = ⟨.compactDelegationResult, projectionRenderingPolicyVersion⟩ then
      some (forceDelegationReplay k m) else none), findSome?_ite]
  · simp only [recorded_replay]
    split_ifs <;> rfl
  · intro d _
    split_ifs <;> rfl
  · intro d _ v hv d' _
    split_ifs at hv
    cases hv
    rw [ite_self]

theorem applyToResult_eq : applyToResult k (messageDecisions k before after) m =
    if m.projectedCompacted then m
    else ((resultUnder after m.toolCallId).map (compactToolResult k m)).getD m := by
  unfold applyToResult
  by_cases hmarked : m.projectedCompacted = true
  · rw [if_pos hmarked, foldl_findSome (g := fun _ => none)]
    · rw [findSome?_eq_none_iff.mpr fun _ _ => rfl, Option.getD_none]
    · intro d _
      rw [if_neg (fun h => by rw [hmarked] at h; exact Bool.noConfusion h.2.2), Option.getD_none]
    · intro d _ v hv
      cases hv
  · rw [if_neg hmarked, ← @recorded_result k before, map_findSome?,
      foldl_findSome]
    · intro d _
      simp only [Function.comp_apply, replayedVersion, hmarked, and_true]
      split_ifs <;> rfl
    · intro d _ v hv d' _
      obtain ⟨version, -, rfl⟩ := Option.map_eq_some_iff.mp hv
      rw [if_neg]
      rintro ⟨-, -, hfalse⟩
      cases hfalse

theorem applyToAttachment_eq :
    applyToAttachment (messageDecisions k before after) m =
      if !m.projectedCompacted && attachmentUnder after m.attachmentKey then compactToolAttachment m
      else m := by
  unfold applyToAttachment
  rw [foldl_findSome (g := fun d =>
    if d = ⟨.compactAttachment, projectionRenderingPolicyVersion⟩ ∧ m.projectedCompacted = false
    then some (compactToolAttachment m) else none), findSome?_ite]
  · have hfiled : (∃ d ∈ (m.attachmentKey.map (messageDecisions k before after).get).getD [],
        d = ⟨.compactAttachment, projectionRenderingPolicyVersion⟩ ∧
          m.projectedCompacted = false) ↔
        (!m.projectedCompacted && attachmentUnder after m.attachmentKey) = true := by
      rw [Bool.and_eq_true, Bool.not_eq_true', ← @recorded_attachment k before]
      constructor
      · rintro ⟨d, hd, hop, hmarked⟩
        exact ⟨hmarked, d, hd, hop⟩
      · rintro ⟨hmarked, d, hd, hop⟩
        exact ⟨d, hd, hop, hmarked⟩
    simp only [hfiled]
    split_ifs <;> rfl
  · intro d _
    split_ifs <;> rfl
  · intro d _ v hv d' _
    split_ifs at hv
    cases hv
    rw [ite_self]

theorem eq_of_clearing {key : Option String} {t : Int}
    (hd : d ∈ (key.map (messageDecisions k before after).get).getD [])
    (hop : d.operation = .clearArguments t) :
    d = ⟨.clearArguments argClearThreshold, projectionRenderingPolicyVersion⟩ := by
  obtain ⟨key', -, hmem⟩ := mem_getD_get.mp hd
  obtain ⟨-, rfl⟩ | ⟨m, -, hfiled⟩ := mem_messageDecisions.mp hmem
  · rfl
  · have hkind := hfiled.operation
    simp [hop] at hkind

theorem applyToCall_eq (call : ToolCall) : applyToCall k (messageDecisions k before after) call =
    (sharedClearing k before after call).getD call := by
  unfold applyToCall sharedClearing
  rw [foldl_findSome (g := fun d =>
    if d = ⟨.clearArguments argClearThreshold, projectionRenderingPolicyVersion⟩ then
      some (clearCall k argClearThreshold call) else none), findSome?_ite]
  · simp only [recorded_clearing]
  · intro d hd
    cases hop : d.operation with
    | clearArguments t =>
      cases eq_of_clearing hd hop
      cases hop
      dsimp only
      rw [if_pos ⟨rfl, by decide⟩, if_pos rfl, Option.getD_some]
      split_ifs with hchanged
      · rfl
      · exact (not_not.mp hchanged).symm
    | _ =>
      rw [if_neg]
      · rfl
      · rintro rfl
        cases hop
  · intro d _ v hv d' hd'
    split_ifs at hv
    cases hv
    cases hop : d'.operation with
    | clearArguments t =>
      cases eq_of_clearing hd' hop
      cases hop
      dsimp only
      rw [ite_self, ite_self]
    | _ => rfl

theorem applyToMessage_eq : applyToMessage k (messageDecisions k before after) m =
    match m.replayedCalls with
    | some calls => { m with
        toolCalls := some (calls.map fun call => (sharedClearing k before after call).getD call) }
    | none => (sharedRendering k after m).getD m := by
  unfold applyToMessage Message.replayedCalls sharedRendering
  by_cases hreplay : m.delegationResultReplay = true
  · rw [if_pos hreplay, if_pos (.inl hreplay), if_pos hreplay, applyToReplay_eq]
    split_ifs <;> rfl
  · rw [if_neg hreplay, if_neg hreplay]
    by_cases hrole : m.role = .tool
    · rw [if_pos hrole, if_pos (.inr hrole), if_pos hrole, applyToResult_eq]
      split_ifs <;> rfl
    · rw [if_neg hrole, if_neg hrole, if_neg (not_or.mpr ⟨hreplay, hrole⟩)]
      cases m.toolCalls with
      | some =>
        dsimp only
        congr 2
        exact map_congr_left fun call _ => applyToCall_eq call
      | none =>
        rw [applyToAttachment_eq, Bool.and_assoc]
        cases m.toolAttachmentContext with
        | false => rfl
        | true =>
          rw [if_pos rfl, Bool.true_and]
          split_ifs <;> rfl

end

section

variable {k : Codec} {ds : Decisions} {ms : List Message}

theorem applyToMessage_nil (m : Message) : applyToMessage k [] m = m := by
  have hget : ∀ key : Option String, (key.map (Decisions.get [])).getD [] = [] := by
    intro key
    cases key <;> rfl
  have hcalls : applyToCall k [] = id := by
    funext call
    rw [applyToCall, hget]
    rfl
  unfold applyToMessage
  split
  · rw [applyToReplay, hget]
    rfl
  · split
    · rw [applyToResult, hget]
      rfl
    · split
      · rename_i calls hsome
        rw [hcalls, map_id, ← hsome]
      · split
        · rw [applyToAttachment, hget]
          rfl
        · rfl

theorem applyProjectionDecisions_eq_map
    (h : ∀ p ∈ ds, p.2.operation ≠ .omitToolGroup ∧ ∀ seq, p.2.operation ≠ .omitEvent seq) :
    applyProjectionDecisions k ds ms = ms.map (applyToMessage k ds) := by
  have hcalls : omittedCalls ds = [] := by
    rw [omittedCalls, filter_eq_nil_iff.mpr]
    · rfl
    · intro p hp heq
      apply (h p hp).1
      rw [of_decide_eq_true heq]
  have hindices : omittedIndices ds ms = [] := by
    rw [omittedIndices, hcalls, filter_eq_nil_iff.mpr]
    · rfl
    · intro g _
      simp
  have hseqs : omittedEventSeqs ds = [] := by
    rw [omittedEventSeqs, filterMap_eq_nil_iff]
    intro p hp
    cases hop : p.2.operation with
    | omitEvent seq => exact absurd hop ((h p hp).2 seq)
    | _ => rfl
  unfold applyProjectionDecisions
  split
  · rename_i hnil
    rw [hnil, show applyToMessage k [] = id from funext applyToMessage_nil, map_id]
  · rw [hindices, hseqs]
    have hkept : ms.zipIdx.filter (fun p =>
        !([] : List Nat).contains p.2 && !(decide (p.1.projectionEventSeqs ≠ []) &&
          p.1.projectionEventSeqs.all ([] : List Int).contains)) = ms.zipIdx := by
      rw [filter_eq_self]
      intro p _
      cases hseq : p.1.projectionEventSeqs <;> simp
    rw [hkept]
    have hfst := zipIdx_map_fst 0 ms
    conv_rhs => rw [← hfst, map_map]
    rfl

end

section

variable {k : Codec} {before after ms : List Message} {g : ToolGroup}

theorem omitted_iff :
    g.callIds.all (fun id => (lastArguments (callArguments k after) id).isNone) = true ↔
      ¬ ∃ id ∈ g.callIds, (lastArguments (callArguments k after) id).isSome = true := by
  simp

theorem decisions_eq (hgroups : GroupsRecorded k before after)
    (hkept : after.map (·.projectionEventSeqs) = before.map (·.projectionEventSeqs)) :
    projectionDecisionsFromDiff k before after false argClearThreshold =
      messageDecisions k before after := by
  have homit : ∀ g ∈ collectToolGroups before, ¬ g.callIds.all (fun id =>
      (lastArguments (callArguments k after) id).isNone) = true := by
    intro g hg hall
    exact omitted_iff.mp hall (hgroups g hg)
  have hrecorded : recordOmittedGroups before (callArguments k after) [] = [] := by
    rw [recordOmittedGroups]
    generalize collectToolGroups before = gs at homit
    induction gs with
    | nil => rfl
    | cons g gs ih =>
      rw [foldl_cons, if_neg (homit g mem_cons_self)]
      exact ih fun g' hg' => homit g' (mem_cons_of_mem _ hg')
  have hindices : omittedGroupIndices before (callArguments k after) = [] := by
    rw [omittedGroupIndices, filter_eq_nil_iff.mpr homit]
    rfl
  have hseqs : eventSeqs after = eventSeqs before := by
    rw [eventSeqs, eventSeqs, flatMap_def, flatMap_def, hkept]
  have hevents : ∀ ds, recordOmittedEvents before after [] ds = ds := by
    intro ds
    have hall : (before.zipIdx.filter (!([] : List Nat).contains ·.2)).map Prod.fst = before := by
      simp
    have hgone : (eventSeqs before).filter (!(eventSeqs after).contains ·) = [] := by
      rw [hseqs, filter_eq_nil_iff]
      intro seq hseq
      simpa using hseq
    rw [recordOmittedEvents, hall, hgone]
    rfl
  rw [projectionDecisionsFromDiff, if_neg Bool.false_ne_true]
  dsimp only
  rw [hindices, hrecorded, hevents]
  rfl

theorem apply_messageDecisions :
    applyProjectionDecisions k (messageDecisions k before after) before =
      before.map (applyToMessage k (messageDecisions k before after)) := by
  apply applyProjectionDecisions_eq_map
  intro p hp
  obtain ⟨-, hop⟩ | ⟨m, -, hfiled⟩ := mem_messageDecisions.mp hp
  · rw [hop]
    exact ⟨Operation.noConfusion, fun _ => Operation.noConfusion⟩
  · have hkind := hfiled.operation
    constructor
    · intro hop
      simp [hop] at hkind
    · intro seq hop
      simp [hop] at hkind

theorem mem_foldl_of_mem {file : Decisions → α → Decisions} (hfile : ∀ ds a, p ∈ ds → p ∈ file ds a)
    (l : List α) (h : p ∈ ds) :
    p ∈ l.foldl file ds := by
  induction l generalizing ds with
  | nil => exact h
  | cons a l ih => exact ih (hfile ds a h)

theorem recorded_omission (hg : g ∈ collectToolGroups before) (hall : g.callIds.all
      (fun id => (lastArguments (callArguments k after) id).isNone) = true)
    (hkey : (g.callIds.insertionSort (· ≤ ·)).head? = some key) (hnamed : named (some key) = true) :
    (key, ⟨.omitToolGroup, projectionRenderingPolicyVersion⟩) ∈
      projectionDecisionsFromDiff k before after false argClearThreshold := by
  let p : String × Decision := (key, ⟨.omitToolGroup, projectionRenderingPolicyVersion⟩)
  let files (g : ToolGroup) : Prop :=
    g.callIds.all (fun id => (lastArguments (callArguments k after) id).isNone) = true ∧
      named (g.callIds.insertionSort (· ≤ ·)).head? = true ∧
      (g.callIds.insertionSort (· ≤ ·)).head? = some p.1 ∧
      p.2 = ⟨.omitToolGroup, projectionRenderingPolicyVersion⟩
  have hgroups : p ∈ recordOmittedGroups before (callArguments k after) [] := by
    refine (mem_foldl_iff _ files ?_ (collectToolGroups before) []).mpr
      (.inr ⟨g, hg, hall, hkey ▸ hnamed, hkey, rfl⟩)
    intro ds g
    split_ifs with homit
    · rw [mem_addDecision]
      exact or_congr_right (and_iff_right homit).symm
    · exact ⟨.inl, fun h => h.resolve_right fun hfiles => homit hfiles.1⟩
  refine mem_foldl_of_mem (fun ds seq h => mem_addDecision.mpr (.inl h)) _
    (mem_foldl_of_mem (fun ds m h => mem_recordCompacted.mpr (.inl h)) _
      (mem_foldl_of_mem (fun ds call h => ?_) _ hgroups))
  split
  · split_ifs
    · exact mem_addDecision.mpr (.inl h)
    · exact h
  · exact h

theorem length_apply_lt (hg : g ∈ collectToolGroups ms) (hkey : key ∈ g.callIds)
    (hfiled : (key, ⟨.omitToolGroup, projectionRenderingPolicyVersion⟩) ∈ ds) :
    (applyProjectionDecisions k ds ms).length < ms.length := by
  obtain ⟨i, m, hm, hgroup⟩ := mem_collectToolGroups.mp hg
  obtain ⟨-, -, -, hindices⟩ := groupAt_eq_some hgroup
  have hcall : (omittedCalls ds).contains key = true :=
    contains_iff_mem.mpr (mem_map.mpr ⟨_, mem_filter.mpr ⟨hfiled, decide_eq_true rfl⟩, rfl⟩)
  have homitted : (omittedIndices ds ms).contains i = true := by
    rw [contains_iff_mem, omittedIndices, mem_flatMap]
    refine ⟨g, mem_filter.mpr ⟨hg, any_eq_true.mpr ⟨key, hkey, hcall⟩⟩, ?_⟩
    rw [hindices]
    exact mem_cons_self
  unfold applyProjectionDecisions
  rw [if_neg (ne_nil_of_mem hfiled)]
  rw [length_map]
  conv_rhs => rw [← length_zipIdx (l := ms) (i := 0)]
  rw [length_filter_lt_length_iff_exists]
  refine ⟨(m, i), mem_zipIdx_iff_getElem?.mpr hm, ?_⟩
  rw [homitted]
  exact Bool.false_ne_true

/-- A replay that keeps every message has left out no group. -/
theorem groupsRecorded_of_length (h : (applyProjectionDecisions k
    (projectionDecisionsFromDiff k before after false argClearThreshold) before).length =
      before.length) : GroupsRecorded k before after := by
  intro g hg
  by_contra hnone
  obtain ⟨i, m, -, hgroup⟩ := mem_collectToolGroups.mp hg
  obtain ⟨-, ⟨calls, -, hids, hne⟩, -, -⟩ := groupAt_eq_some hgroup
  obtain ⟨key, hkey⟩ : ∃ key, (g.callIds.insertionSort (· ≤ ·)).head? = some key := by
    cases hsorted : g.callIds.insertionSort (· ≤ ·) with
    | nil => exact absurd (hsorted ▸ perm_insertionSort _ g.callIds).nil_eq.symm hne
    | cons key => exact ⟨key, rfl⟩
  have hmem : key ∈ g.callIds := (mem_insertionSort _).mp (mem_of_mem_head? hkey)
  have hnamed : named (some key) = true := by
    rw [hids] at hmem
    exact decide_eq_true (mem_callIdsOf.mp hmem).1
  exact (length_apply_lt hg hmem (recorded_omission hg (omitted_iff.mpr hnone) hkey hnamed)).ne h

theorem messageKeyed_iff {b a : Message} : MessageKeyed k before after b a ↔
    SameView (applyToMessage k (messageDecisions k before after) b) a := by
  rw [applyToMessage_eq, MessageKeyed]
  cases b.replayedCalls with
  | none => exact keyedApart_iff sameView_equivalence
  | some calls =>
    have hcalls : ∀ calls', Forall₂ (fun c c' =>
        KeyedApart Eq (sharedClearing k before after c) c c') calls calls' ↔
        calls.map (fun c => (sharedClearing k before after c).getD c) = calls' := by
      intro calls'
      simp only [keyedApart_iff eq_equivalence]
      rw [← forall₂_map_left_iff (R := Eq), forall₂_eq_eq_eq]
    simp only [hcalls, exists_eq_right', SameView, Option.mem_def]
    constructor
    · rintro ⟨hrole, hcontent, hsome⟩
      exact ⟨hrole.symm, hcontent.symm, hsome.symm⟩
    · rintro ⟨hrole, hcontent, hsome⟩
      exact ⟨hrole.symm, hcontent.symm, hsome.symm⟩

/-- The decisions of two transcripts turn one into what the model saw of the other exactly if
they are told apart by their keys. -/
theorem replay_iff
    (hkept : after.map (·.projectionEventSeqs) = before.map (·.projectionEventSeqs)) :
    Forall₂ SameView (applyProjectionDecisions k
        (projectionDecisionsFromDiff k before after false argClearThreshold) before) after ↔
      Replayable k before after := by
  have hlength : after.length = before.length := by
    rw [← length_map (·.projectionEventSeqs), hkept, length_map]
  constructor
  · intro h
    have hgroups := groupsRecorded_of_length (h.length_eq.trans hlength)
    refine ⟨hgroups, ?_⟩
    rw [decisions_eq hgroups hkept, apply_messageDecisions, forall₂_map_left_iff] at h
    exact h.imp fun _ _ => messageKeyed_iff.mpr
  · rintro ⟨hgroups, hmessages⟩
    rw [decisions_eq hgroups hkept, apply_messageDecisions, forall₂_map_left_iff]
    exact hmessages.imp fun _ _ => messageKeyed_iff.mp

end

section

variable {k : Codec} {count : String → Nat} {ms : List Message}

theorem compactPrunable_unchanged (k : Codec) (count : String → Nat) (limit : Nat)
    (ms : List Message) (h : (compactPrunableDelegationReplays k count limit ms).2 = false) :
    (compactPrunableDelegationReplays k count limit ms).1 = ms := by
  unfold compactPrunableDelegationReplays at h ⊢
  split
  · rfl
  · rename_i hlimit
    rw [if_neg hlimit, any_eq_false] at h
    conv_rhs => rw [← map_id ms]
    apply map_congr_left
    intro m hm
    rw [compactDelegationReplay, if_neg (h m hm)]
    rfl

theorem projectMessages_reused {r : ProjectionRequest} {st : ProjectionTurnState}
    (h : (projectMessages k count r st ms).1.reused) :
    (projectMessages k count r st ms).1.messages = ms := by
  have hunchanged :=
    compactPrunable_unchanged k count r.policy.maxHistoricalToolResultTokens ms
  unfold projectMessages at h ⊢
  generalize compactPrunableDelegationReplays k count r.policy.maxHistoricalToolResultTokens ms =
    pair at *
  obtain ⟨ms', changed⟩ := pair
  dsimp only at hunchanged h ⊢
  split
  · rename_i hempty
    rw [if_pos hempty] at h
    exact hunchanged (by simpa using h)
  · rename_i hgroups
    rw [if_neg hgroups] at h
    split
    · rename_i hempty
      rw [if_pos hempty] at h
      exact hunchanged (by simpa using h)
    · rename_i hcompacted
      rw [if_neg hcompacted] at h
      cases h

theorem pruneProjectedMessages_reused {r : PruneRequest}
    (h : (pruneProjectedMessages k count r ms).2) :
    (pruneProjectedMessages k count r ms).1 = ms := by
  unfold pruneProjectedMessages at h ⊢
  split
  · rfl
  · rename_i hsavings
    rw [if_neg hsavings] at h
    simp only [decide_eq_true_eq] at h
    obtain ⟨hresults, hothers⟩ := h
    apply ext_getElem?
    intro i
    rw [getElem?_mapIdx]
    cases hm : ms[i]? with
    | none => rfl
    | some m =>
      have hkept := all_eq_true.mp hothers (m, i) (mem_zipIdx_iff_getElem?.mpr hm)
      rw [Bool.not_eq_true', Bool.and_eq_false_imp] at hkept
      have hcalls : ¬ (pruneRange r ms i &&
          prunesCalls k r (pruneableCallIds k count r ms) m) = true := by
        rw [Bool.and_eq_true]
        rintro ⟨hrange, hprunes⟩
        have hboth := hkept hrange
        rw [hprunes, Bool.true_or] at hboth
        cases hboth
      have hattachment : ¬ (pruneRange r ms i &&
          prunesAttachment (pruneableCallIds k count r ms) m) = true := by
        rw [Bool.and_eq_true]
        rintro ⟨hrange, hprunes⟩
        have hboth := hkept hrange
        rw [hprunes, Bool.or_true] at hboth
        cases hboth
      rw [Option.map_some, pruneMessage, hresults, if_neg hattachment,
        if_neg (by simp), if_neg hcalls]

theorem map_mapIdx_of_kept {f : α → β} {step : Nat → α → α} (hkept : ∀ i a, f (step i a) = f a)
    (l : List α) : (l.mapIdx step).map f = l.map f := by
  apply ext_getElem?
  intro i
  rw [getElem?_map, getElem?_mapIdx, getElem?_map, Option.map_map]
  congr 1
  funext a
  exact hkept i a

theorem projectMessages_eventSeqs (k : Codec) (count : String → Nat) (r : ProjectionRequest)
    (st : ProjectionTurnState) (ms : List Message) :
    (projectMessages k count r st ms).1.messages.map (·.projectionEventSeqs) =
      ms.map (·.projectionEventSeqs) := by
  rw [projectMessages_messages, map_mapIdx_of_kept, delegated, compactPrunable_eq_map, map_map]
  · apply map_congr_left
    intro m _
    simp only [Function.comp_apply, compactDelegationReplay]
    split_ifs <;> rfl
  · intro i m
    unfold projectMessage
    dsimp only
    split_ifs <;> rfl

theorem pruneProjectedMessages_eventSeqs (k : Codec) (count : String → Nat) (r : PruneRequest)
    (ms : List Message) : (pruneProjectedMessages k count r ms).1.map (·.projectionEventSeqs) =
      ms.map (·.projectionEventSeqs) := by
  unfold pruneProjectedMessages
  split
  · rfl
  · apply map_mapIdx_of_kept
    intro i m
    unfold pruneMessage
    dsimp only
    split_ifs <;> rfl

end

theorem replay_iff_of_reused {k : Codec} {before after : List Message} {reused : Bool}
    (hreused : reused → after = before)
    (hkept : after.map (·.projectionEventSeqs) = before.map (·.projectionEventSeqs)) :
    Forall₂ SameView (applyProjectionDecisions k
        (projectionDecisionsFromDiff k before after reused argClearThreshold) before) after ↔
      reused = true ∨ Replayable k before after := by
  cases reused with
  | false =>
    rw [replay_iff hkept]
    exact (or_iff_right Bool.noConfusion).symm
  | true =>
    refine iff_of_true ?_ (.inl rfl)
    rw [hreused rfl]
    exact forall₂_same.mpr fun m _ => sameView_equivalence.refl m

def largeReplay (recoveryCallId : Option String) : Message where
  role := .system
  content := .str "report"
  delegationResultReplay := true
  recoveryCallId := recoveryCallId
  tokenEstimate := some 1000

/-- A projection that compacts whatever is larger than this many tokens. -/
def strictRequest (limit : Nat) : ProjectionRequest where
  policy := ⟨.normal, 0, 0, limit, argClearThreshold⟩

end Cognis.Context
