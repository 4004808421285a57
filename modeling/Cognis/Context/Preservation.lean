import Cognis.Library.Runs
import Cognis.Context.Projection

namespace Cognis.Context

open Bool List Runs

variable {i : Nat} {m : Message} {f : Message → Message}

/-- One projection of a turn: what the transcript has grown by, the counter and the
request of the call, and the recovery results recorded so far. -/
structure TurnCall where
  appended : List Message
  count : String → Nat
  request : ProjectionRequest
  recoveryResultCallIds : List String := []

/-- The transcript of a turn and what its projection remembers. -/
structure Turn where
  transcript : List Message
  sets : ProjectionTurnState

variable (k : Codec) (t : Turn) (c : TurnCall)

def Turn.found : Turn where
  transcript := t.transcript ++ c.appended
  sets := { t.sets with recoveryResultCallIds := c.recoveryResultCallIds }

def Turn.projection : ProjectionResult × ProjectionTurnState :=
  projectMessages k c.count c.request (t.found c).sets (t.found c).transcript

def Turn.output : List Message :=
  (t.projection k c).1.messages

def Turn.step : Turn where
  transcript := (t.found c).transcript
  sets := (t.projection k c).2

def ReturnedVerbatim (output transcript : List Message) (g : ToolGroup) : Prop :=
  ∀ i ∈ g.messageIndices, ∀ m ∈ transcript[i]?, m.role = .tool → output[i]? = some m

instance (output transcript : List Message) (g : ToolGroup) :
    Decidable (ReturnedVerbatim output transcript g) :=
  inferInstanceAs (Decidable (∀ i ∈ g.messageIndices, ∀ m ∈ transcript[i]?, _))

/-- A completed group that a call neither has committed or demoted nor may compact
is returned without being remembered. -/
def remembers (g : ToolGroup) : Bool :=
  !g.completed || g.protectedGroup || t.sets.committedPreservations.contains (g.anchor k) ||
    t.sets.demotedAnchors.contains (g.anchor k) ||
    g.assistantIndex < latestRealUserIndex (t.found c).transcript ||
    c.request.policy.pressureMode ≠ .normal

def ToolGroup.Apart (g h : ToolGroup) : Prop :=
  g.anchor k ≠ h.anchor k ∧ ∀ id ∈ g.callIds, id ∉ h.callIds

instance (k : Codec) (g h : ToolGroup) : Decidable (g.Apart k h) :=
  inferInstanceAs (Decidable (_ ∧ _))

def remembersAll : Bool :=
  (collectToolGroups (t.found c).transcript).all (remembers k t c) &&
    (collectToolGroups (t.found c).transcript).Pairwise (ToolGroup.Apart k) &&
    (t.found c).transcript.all fun m =>
      m.role ≠ .tool || (!m.toolAttachmentContext && !m.delegationResultReplay)

section

variable {ms : List Message} {g h : ToolGroup}

theorem groupAt_eq_some {rest : List Message} (hg : groupAt i m rest = some g) :
    m.role = .assistant ∧ (∃ calls, m.toolCalls = some calls ∧ g.callIds = callIdsOf calls ∧
      g.callIds ≠ []) ∧ g.assistantIndex = i ∧
      g.messageIndices = i :: (followGroup g.callIds (i + 1) rest).1 := by
  unfold groupAt at hg
  split at hg
  · rename_i hrole
    split at hg
    · cases hg
    · rename_i calls hcalls
      dsimp only at hg
      split at hg
      · cases hg
      · rename_i hids
        cases hg
        exact ⟨hrole, ⟨calls, hcalls, rfl, hids⟩, rfl, rfl⟩
  · cases hg

theorem mem_collectToolGroupsFrom {n : Nat} : g ∈ collectToolGroupsFrom n ms ↔
      ∃ i m, ms[i]? = some m ∧ groupAt (n + i) m (ms.drop (i + 1)) = some g := by
  induction ms generalizing n with
  | nil => simp [collectToolGroupsFrom]
  | cons m rest ih =>
    rw [collectToolGroupsFrom, mem_append, Option.mem_toList, ih]
    constructor
    · rintro (hhead | ⟨i, m', hm', hgroup⟩)
      · exact ⟨0, m, rfl, hhead⟩
      · refine ⟨i + 1, m', hm', ?_⟩
        rw [← Nat.add_assoc, Nat.add_right_comm]
        exact hgroup
    · rintro ⟨i, m', hm', hgroup⟩
      cases i with
      | zero =>
        cases hm'
        exact .inl hgroup
      | succ i =>
        refine .inr ⟨i, m', hm', ?_⟩
        rw [Nat.add_assoc, Nat.add_comm 1 i]
        exact hgroup

theorem mem_collectToolGroups : g ∈ collectToolGroups ms ↔
      ∃ i m, ms[i]? = some m ∧ groupAt i m (ms.drop (i + 1)) = some g := by
  rw [collectToolGroups, mem_collectToolGroupsFrom]
  simp only [Nat.zero_add]

section

variable (hg : g ∈ collectToolGroups ms)
include hg

theorem assistant_of_mem :
    ∃ m, ms[g.assistantIndex]? = some m ∧ m.role = .assistant := by
  obtain ⟨i, m, hm, hgroup⟩ := mem_collectToolGroups.mp hg
  obtain ⟨hrole, -, hindex, -⟩ := groupAt_eq_some hgroup
  exact ⟨m, by rw [hindex, hm], hrole⟩

theorem eq_of_assistantIndex (hh : h ∈ collectToolGroups ms)
    (hindex : g.assistantIndex = h.assistantIndex) : g = h := by
  obtain ⟨i, m, hm, hgroup⟩ := mem_collectToolGroups.mp hg
  obtain ⟨j, m', hm', hgroup'⟩ := mem_collectToolGroups.mp hh
  have hi := (groupAt_eq_some hgroup).2.2.1
  have hj := (groupAt_eq_some hgroup').2.2.1
  have hij : i = j := by rw [← hi, ← hj, hindex]
  subst hij
  rw [hm] at hm'
  cases hm'
  exact Option.some.inj (hgroup.symm.trans hgroup')

theorem group_persists (extra : List Message) :
    ∃ h ∈ collectToolGroups (ms ++ extra),
      h.assistantIndex = g.assistantIndex ∧ h.callIds = g.callIds := by
  obtain ⟨i, m, hm, hgroup⟩ := mem_collectToolGroups.mp hg
  obtain ⟨hrole, ⟨calls, hcalls, hids, hne⟩, hindex, -⟩ := groupAt_eq_some hgroup
  have hm' : (ms ++ extra)[i]? = some m := by
    obtain ⟨hi, -⟩ := List.getElem?_eq_some_iff.mp hm
    rw [getElem?_append_left hi, hm]
  have hgroup' : ∃ h, groupAt i m ((ms ++ extra).drop (i + 1)) = some h := by
    rw [hids] at hne
    simp [groupAt, hrole, hcalls, hne]
  obtain ⟨h, hh⟩ := hgroup'
  obtain ⟨-, ⟨calls', hcalls', hids', -⟩, hindex', -⟩ := groupAt_eq_some hh
  rw [hcalls] at hcalls'
  cases hcalls'
  exact ⟨h, mem_collectToolGroups.mpr ⟨i, m, hm', hh⟩, by rw [hindex', hindex], by rw [hids', hids]⟩

end

theorem le_of_mem_followGroup {ids : List String} {n : Nat}
    (hi : i ∈ (followGroup ids n ms).1) : n ≤ i := by
  induction ms generalizing n with
  | nil => cases hi
  | cons head rest ih =>
    have hnext : i ∈ n :: (followGroup ids (n + 1) rest).1 → n ≤ i := by
      intro hmem
      rcases mem_cons.mp hmem with rfl | hrest
      · exact le_refl _
      · exact Nat.le_of_succ_le (ih hrest)
    rw [followGroup] at hi
    split at hi
    · exact hnext hi
    · split at hi
      · exact hnext hi
      · cases hi

theorem mem_followGroup {ids : List String} {n : Nat}
    (hi : i ∈ (followGroup ids n ms).1) (hm : ms[i - n]? = some m) :
    m.isResultOf ids ∨ m.isAttachmentOf ids := by
  induction ms generalizing n with
  | nil => cases hi
  | cons head rest ih =>
    have hnext : (head.isResultOf ids ∨ head.isAttachmentOf ids) →
        i ∈ n :: (followGroup ids (n + 1) rest).1 →
        m.isResultOf ids ∨ m.isAttachmentOf ids := by
      intro hkind hmem
      rcases mem_cons.mp hmem with rfl | hrest
      · rw [Nat.sub_self] at hm
        cases hm
        exact hkind
      · have hle := le_of_mem_followGroup hrest
        have hsplit : i - n = i - (n + 1) + 1 := by omega
        rw [hsplit, getElem?_cons_succ] at hm
        exact ih hrest hm
    rw [followGroup] at hi
    split at hi
    · rename_i hresult
      exact hnext (.inl hresult) hi
    · split at hi
      · rename_i hattachment
        exact hnext (.inr hattachment) hi
      · cases hi

/-- A tool message of a group is a result of its calls, where results are no
attachments. -/
theorem isResultOf_of_mem (hg : g ∈ collectToolGroups ms)
    (hi : i ∈ g.messageIndices) (hm : ms[i]? = some m) (hrole : m.role = .tool)
    (hplain : m.toolAttachmentContext = false) : m.isResultOf g.callIds := by
  obtain ⟨j, a, ha, hgroup⟩ := mem_collectToolGroups.mp hg
  obtain ⟨hassistant, -, -, hindices⟩ := groupAt_eq_some hgroup
  rw [hindices] at hi
  rcases mem_cons.mp hi with rfl | hfollow
  · rw [ha] at hm
    cases hm
    rw [hassistant] at hrole
    cases hrole
  · have hle := le_of_mem_followGroup hfollow
    have hm' : (ms.drop (j + 1))[i - (j + 1)]? = some m := by
      rw [getElem?_drop, ← hm]
      congr 1
      omega
    rcases mem_followGroup hfollow hm' with hresult | hattachment
    · exact hresult
    · rw [Message.isAttachmentOf, hplain, Bool.false_and] at hattachment
      cases hattachment

end

section

variable {k : Codec} {count : String → Nat} {limit : Nat} {ms : List Message}

/-- The compaction of delegation results keeps what makes a group. -/
structure SameShape (m m' : Message) : Prop where
  role : m'.role = m.role
  toolCalls : m'.toolCalls = m.toolCalls
  toolCallId : m'.toolCallId = m.toolCallId
  attachmentCallId : m'.attachmentCallId = m.attachmentCallId
  toolAttachmentContext : m'.toolAttachmentContext = m.toolAttachmentContext
  protectedToolOutput : m'.protectedToolOutput = m.protectedToolOutput
  turnBoundary : m'.turnBoundary = m.turnBoundary

theorem compactDelegationReplay_sameShape (m : Message) :
    SameShape m (compactDelegationReplay k count limit m) := by
  unfold compactDelegationReplay
  split <;> exact ⟨rfl, rfl, rfl, rfl, rfl, rfl, rfl⟩

section

variable (hf : ∀ m, SameShape m (f m))
include hf

theorem followGroup_map (ids : List String) (n : Nat) :
    followGroup ids n (ms.map f) = followGroup ids n ms := by
  induction ms generalizing n with
  | nil => rfl
  | cons m rest ih =>
    have hresult : (f m).isResultOf ids = m.isResultOf ids := by
      rw [Message.isResultOf, (hf m).role, (hf m).toolCallId, Message.isResultOf]
    have hattachment : (f m).isAttachmentOf ids = m.isAttachmentOf ids := by
      rw [Message.isAttachmentOf, (hf m).toolAttachmentContext, (hf m).attachmentCallId,
        (hf m).toolCallId, Message.isAttachmentOf]
    rw [map_cons, followGroup, followGroup, hresult, hattachment, ih, (hf m).toolCallId,
      (hf m).protectedToolOutput]

theorem collectToolGroupsFrom_map (n : Nat) :
    collectToolGroupsFrom n (ms.map f) = collectToolGroupsFrom n ms := by
  induction ms generalizing n with
  | nil => rfl
  | cons m rest ih =>
    rw [map_cons, collectToolGroupsFrom, collectToolGroupsFrom, ih, groupAt, groupAt,
      (hf m).role, (hf m).toolCalls]
    simp only [followGroup_map hf]

theorem latestRealUserIndex_map :
    latestRealUserIndex (ms.map f) = latestRealUserIndex ms := by
  have hboundary : (Message.isRealTurnBoundary ∘ f) = Message.isRealTurnBoundary := by
    funext m
    simp only [Function.comp, Message.isRealTurnBoundary, (hf m).turnBoundary, (hf m).role,
      (hf m).toolAttachmentContext]
  rw [latestRealUserIndex, ← map_reverse, findIdx?_map, hboundary, length_map, latestRealUserIndex]

end

theorem compactPrunable_eq_map : (compactPrunableDelegationReplays k count limit ms).1 =
      ms.map fun m => if limit = 0 then m else compactDelegationReplay k count limit m := by
  unfold compactPrunableDelegationReplays
  split
  · simp
  · rfl

end

def delegated (k : Codec) (count : String → Nat) (r : ProjectionRequest) (ms : List Message) :
    List Message :=
  (compactPrunableDelegationReplays k count r.policy.maxHistoricalToolResultTokens ms).1

section

variable {k : Codec} {count : String → Nat} {r : ProjectionRequest} {st : ProjectionTurnState}
  {ms : List Message} {g h : ToolGroup}

theorem delegated_eq_map (k : Codec) (count : String → Nat) (r : ProjectionRequest)
    (ms : List Message) :
    ∃ f : Message → Message, (∀ m, SameShape m (f m)) ∧
      (∀ m, m.delegationResultReplay = false → f m = m) ∧ delegated k count r ms = ms.map f := by
  refine ⟨_, ?_, ?_, compactPrunable_eq_map⟩
  · intro m
    split
    · exact ⟨rfl, rfl, rfl, rfl, rfl, rfl, rfl⟩
    · exact compactDelegationReplay_sameShape m
  · intro m hm
    split
    · rfl
    · rw [compactDelegationReplay, hm, Bool.false_and]
      rfl

theorem collectToolGroups_delegated :
    collectToolGroups (delegated k count r ms) = collectToolGroups ms := by
  obtain ⟨f, hf, -, heq⟩ := delegated_eq_map k count r ms
  rw [heq, collectToolGroups, collectToolGroupsFrom_map hf, collectToolGroups]

theorem latestRealUserIndex_delegated :
    latestRealUserIndex (delegated k count r ms) = latestRealUserIndex ms := by
  obtain ⟨f, hf, -, heq⟩ := delegated_eq_map k count r ms
  rw [heq, latestRealUserIndex_map hf]

theorem getElem?_delegated (hm : ms[i]? = some m)
    (hplain : m.delegationResultReplay = false) : (delegated k count r ms)[i]? = some m := by
  obtain ⟨f, -, hsame, heq⟩ := delegated_eq_map k count r ms
  rw [heq, getElem?_map, hm, Option.map_some, hsame m hplain]

theorem projectMessage_nil (i : Nat) (m : Message) : projectMessage k r [] i m = m := by
  have hresult : m.isResultOf [] = false := by
    simp [Message.isResultOf, Option.any_eq_false]
  have hattachment : m.isAttachmentOf [] = false := by
    cases hid : m.attachmentCallId <;> cases hid' : m.toolCallId <;>
      simp [Message.isAttachmentOf, hid, hid']
  simp [projectMessage, hresult, hattachment]

theorem projectMessages_messages : (projectMessages k count r st ms).1.messages =
      (delegated k count r ms).mapIdx
        (projectMessage k r (compactedGroups k count r st (delegated k count r ms))) := by
  have hnil : ∀ l : List Message, l.mapIdx (projectMessage k r []) = l := by
    intro l
    apply ext_getElem?
    intro i
    rw [getElem?_mapIdx]
    cases l[i]? with
    | none => rfl
    | some m => rw [Option.map_some, projectMessage_nil]
  unfold projectMessages delegated
  generalize compactPrunableDelegationReplays k count r.policy.maxHistoricalToolResultTokens ms =
    pair
  obtain ⟨ms', changed⟩ := pair
  dsimp only
  split
  · rename_i hempty
    rw [List.isEmpty_iff] at hempty
    have hcompacted : compactedGroups k count r st ms' = [] := by
      rw [compactedGroups, hempty]
      rfl
    rw [hcompacted, hnil]
  · split
    · rename_i hempty
      rw [List.isEmpty_iff.mp hempty, hnil]
    · rfl

theorem projectMessages_sets (hg : g ∈ collectToolGroups ms) :
    (projectMessages k count r st ms).2 = turnStateAfter k count r st (delegated k count r ms) := by
  have hsome : (collectToolGroups (delegated k count r ms)).isEmpty = false := by
    rw [collectToolGroups_delegated, ← not_eq_true, List.isEmpty_iff]
    exact ne_nil_of_mem hg
  unfold projectMessages delegated at *
  generalize compactPrunableDelegationReplays k count r.policy.maxHistoricalToolResultTokens ms =
    pair at *
  obtain ⟨ms', changed⟩ := pair
  dsimp only at hsome ⊢
  rw [hsome]
  split
  · rename_i hfalse
    cases hfalse
  · split <;> rfl

theorem mem_compactedGroups (hg : g ∈ compactedGroups k count r st ms) :
    g ∈ collectToolGroups ms := (mem_filter.mp hg).1

theorem mem_spendSavings {pins preserved : List Nat} {target saved : Nat} {gs : List ToolGroup}
    (hsub : ∀ g' ∈ gs, g' ∈ collectToolGroups ms) (hh : h ∈ collectToolGroups ms)
    (hcommitted : h.anchor k ∈ st.committedPreservations) (hmem : h.assistantIndex ∈ preserved) :
    h.assistantIndex ∈ spendSavings k count r st ms pins target saved preserved gs := by
  induction gs generalizing saved preserved with
  | nil => exact hmem
  | cons g' gs ih =>
    have hrest : ∀ g'' ∈ gs, g'' ∈ collectToolGroups ms :=
      fun g'' hg'' => hsub g'' (mem_cons_of_mem _ hg'')
    rw [spendSavings]
    split
    · exact hmem
    · split
      · exact ih hrest hmem
      · rename_i hspend
        apply ih hrest
        rw [mem_filter]
        refine ⟨hmem, decide_eq_true ?_⟩
        intro hsame
        obtain rfl := eq_of_assistantIndex hh (hsub g' mem_cons_self) hsame
        apply hspend
        simp [hcommitted]

/-- A committed group that is not demoted is preserved by every call short of a
critical one. -/
theorem mem_finallyPreserved (count : String → Nat) (hmode : r.isCritical = false)
    (hh : h ∈ collectToolGroups ms)
    (hcommitted : h.anchor k ∈ st.committedPreservations)
    (hdemoted : h.anchor k ∉ st.demotedAnchors) :
    h.assistantIndex ∈ finallyPreserved k count r st ms := by
  have hpreserved : h.assistantIndex ∈ preservedIndices k count r st ms := by
    simp only [preservedIndices, hmode, false_eq_true, if_false, mem_append]
    refine .inl (.inr ?_)
    apply mem_map_of_mem
    rw [mem_filter]
    exact ⟨hh, contains_iff_mem.mpr hcommitted⟩
  have hundemoted : h.assistantIndex ∈ undemotedIndices k count r st ms := by
    rw [undemotedIndices, mem_filter]
    refine ⟨hpreserved, ?_⟩
    rw [not_eq_true', ← not_eq_true, contains_iff_mem, mem_map]
    rintro ⟨h', hmem, hindex⟩
    obtain ⟨hgroup, hanchor⟩ := mem_filter.mp hmem
    obtain rfl := eq_of_assistantIndex hgroup hh hindex
    exact hdemoted (contains_iff_mem.mp hanchor)
  unfold finallyPreserved
  split
  · rw [if_neg (by rw [hmode]; exact false_ne_true)]
    apply mem_spendSavings _ hh hcommitted hundemoted
    intro g' hg'
    exact (mem_filter.mp hg').1
  · exact hundemoted

theorem not_compacted (hmode : r.isCritical = false) (hh : h ∈ collectToolGroups ms)
    (hcommitted : h.anchor k ∈ st.committedPreservations)
    (hdemoted : h.anchor k ∉ st.demotedAnchors) : h ∉ compactedGroups k count r st ms := by
  intro hcompacted
  have hkept := mem_finallyPreserved count hmode hh hcommitted hdemoted
  have hcases := (mem_filter.mp hcompacted).2
  rw [or_eq_true] at hcases
  rcases hcases with hcandidate | hdemotedGroup
  · simp [hkept] at hcandidate
  · simp [hdemoted] at hdemotedGroup

end

def Remembered (sets : ProjectionTurnState) (anchor : String) : Prop :=
  anchor ∈ sets.committedPreservations ∧ anchor ∉ sets.demotedAnchors

section

variable {k : Codec} {t : Turn} {c : TurnCall} {g : ToolGroup}

structure RemembersAll (k : Codec) (t : Turn) (c : TurnCall) : Prop where
  remembers : ∀ g ∈ collectToolGroups (t.found c).transcript, remembers k t c g = true
  apart : (collectToolGroups (t.found c).transcript).Pairwise (ToolGroup.Apart k)
  plain : ∀ m ∈ (t.found c).transcript, m.role = .tool →
    m.toolAttachmentContext = false ∧ m.delegationResultReplay = false

theorem remembersAll_iff : remembersAll k t c ↔ RemembersAll k t c := by
  have hplain : ∀ m : Message,
      (decide (m.role ≠ .tool) || (!m.toolAttachmentContext && !m.delegationResultReplay)) ↔
        (m.role = .tool → m.toolAttachmentContext = false ∧ m.delegationResultReplay = false) := by
    intro m
    simp only [or_eq_true, decide_eq_true_eq, and_eq_true, not_eq_true']
    tauto
  simp only [remembersAll, and_eq_true, all_eq_true, decide_eq_true_eq, hplain]
  constructor
  · rintro ⟨⟨hall, hapart⟩, hresults⟩
    exact ⟨hall, hapart, hresults⟩
  · intro h
    exact ⟨⟨h.remembers, h.apart⟩, h.plain⟩

instance (k : Codec) : Std.Symm (ToolGroup.Apart k) where
  symm _ _ hapart := ⟨hapart.1.symm, fun id hid hid' => hapart.2 id hid' hid⟩

theorem RemembersAll.apart_of_ne (hc : RemembersAll k t c) {g h : ToolGroup}
    (hg : g ∈ collectToolGroups (t.found c).transcript)
    (hh : h ∈ collectToolGroups (t.found c).transcript) (hne : g ≠ h) : g.Apart k h :=
  hc.apart.forall hg hh hne

def Turn.compacted (k : Codec) (t : Turn) (c : TurnCall) : List ToolGroup :=
  compactedGroups k c.count c.request (t.found c).sets
    (delegated k c.count c.request (t.found c).transcript)

theorem mem_of_compacted (hg : g ∈ t.compacted k c) :
    g ∈ collectToolGroups (t.found c).transcript := by
  have hmem := mem_compactedGroups hg
  rwa [collectToolGroups_delegated] at hmem

theorem output_result (hc : RemembersAll k t c)
    (hm : (t.found c).transcript[i]? = some m) (hrole : m.role = .tool) :
    (t.output k c)[i]? = some (if m.isResultOf ((t.compacted k c).flatMap (·.callIds)) ∧
      compactionShrinksToolResult k m = true then
        compactToolResult k m compactResultRenderingPolicyVersion else m) := by
  obtain ⟨hattachment, hreplay⟩ := hc.plain m (mem_of_getElem? hm) hrole
  rw [Turn.output, Turn.projection, projectMessages_messages, getElem?_mapIdx,
    getElem?_delegated hm hreplay, Option.map_some, projectMessage, ← Turn.compacted]
  have hassistant : ((t.compacted k c).map (·.assistantIndex)).contains i = false := by
    rw [← not_eq_true, contains_iff_mem, mem_map]
    rintro ⟨g, hg, rfl⟩
    obtain ⟨a, ha, ha'⟩ := assistant_of_mem (mem_of_compacted hg)
    rw [hm] at ha
    cases ha
    rw [ha'] at hrole
    cases hrole
  have hnot : m.isAttachmentOf ((t.compacted k c).flatMap (·.callIds)) = false := by
    rw [Message.isAttachmentOf, hattachment, Bool.false_and]
  simp only [hassistant, hnot, Bool.and_eq_true, Bool.false_eq_true, if_false]

theorem compactToolResult_ne (h : compactionShrinksToolResult k m) (v : Nat) :
    compactToolResult k m v ≠ m := by
  intro heq
  have hflag : m.projectedCompacted := by
    rw [← heq]
    rfl
  rw [compactionShrinksToolResult, hflag] at h
  cases h

theorem Turn.step_sets (hg : g ∈ collectToolGroups (t.found c).transcript) :
    (t.step k c).sets = turnStateAfter k c.count c.request (t.found c).sets
      (delegated k c.count c.request (t.found c).transcript) :=
  projectMessages_sets hg

variable (hc : RemembersAll k t c)
include hc

theorem not_demoted_step
    (hg : g ∈ collectToolGroups (t.found c).transcript) (hnot : g ∉ t.compacted k c)
    (hdemoted : g.anchor k ∉ t.sets.demotedAnchors) :
    g.anchor k ∉ (t.step k c).sets.demotedAnchors := by
  rw [Turn.step_sets hg, turnStateAfter]
  intro hmem
  rcases mem_append.mp hmem with hold | hnew
  · exact hdemoted hold
  · obtain ⟨h, hh, hanchor⟩ := mem_map.mp hnew
    have hne : g ≠ h := fun heq => hnot (heq ▸ hh)
    exact (hc.apart_of_ne hg (mem_of_compacted hh) hne).1 hanchor.symm

theorem Remembered.step (hmode : c.request.isCritical = false)
    (hg : g ∈ collectToolGroups (t.found c).transcript)
    (hremembered : Remembered t.sets (g.anchor k)) :
    g ∉ t.compacted k c ∧ Remembered (t.step k c).sets (g.anchor k) := by
  have hgroup : g ∈ collectToolGroups (delegated k c.count c.request (t.found c).transcript) := by
    rw [collectToolGroups_delegated]
    exact hg
  have hcommitted : g.anchor k ∈ (t.found c).sets.committedPreservations := hremembered.1
  have hundemoted : g.anchor k ∉ (t.found c).sets.demotedAnchors := hremembered.2
  have hnot : g ∉ t.compacted k c := not_compacted hmode hgroup hcommitted hundemoted
  refine ⟨hnot, ?_, not_demoted_step hc hg hnot hremembered.2⟩
  rw [Turn.step_sets hg, turnStateAfter, hmode]
  exact mem_append_left _ hremembered.1

theorem remembered_of_sent (hmode : c.request.isCritical = false)
    (hg : g ∈ collectToolGroups (t.found c).transcript) (hcompleted : g.completed)
    (hopen : g.protectedGroup = false) (hnot : g ∉ t.compacted k c) :
    Remembered (t.step k c).sets (g.anchor k) := by
  have hgroup : g ∈ collectToolGroups (delegated k c.count c.request (t.found c).transcript) := by
    rw [collectToolGroups_delegated]
    exact hg
  have hdemoted : g.anchor k ∉ t.sets.demotedAnchors := by
    intro hmem
    apply hnot
    rw [Turn.compacted, compactedGroups, mem_filter]
    refine ⟨hgroup, ?_⟩
    have hset : g.anchor k ∈ (t.found c).sets.demotedAnchors := hmem
    simp [hcompleted, hopen, hset]
  refine ⟨?_, not_demoted_step hc hg hnot hdemoted⟩
  rw [Turn.step_sets hg, turnStateAfter, hmode]
  by_cases hcommitted : g.anchor k ∈ t.sets.committedPreservations
  · exact mem_append_left _ hcommitted
  · -- the group was a candidate, so what is not compacted of it is preserved
    apply mem_append_right
    apply mem_map_of_mem
    rw [mem_filter]
    refine ⟨hgroup, ?_⟩
    by_contra hunpreserved
    apply hnot
    have hcandidate : g ∈ completedGroups c.request
        (delegated k c.count c.request (t.found c).transcript) := by
      rw [completedGroups, mem_filter]
      refine ⟨hgroup, ?_⟩
      have hwhere := hc.remembers g hg
      rw [latestRealUserIndex_delegated]
      simpa [Context.remembers, hcompleted, hopen, hcommitted, hdemoted] using hwhere
    rw [Turn.compacted, compactedGroups, mem_filter]
    refine ⟨hgroup, ?_⟩
    have hindex : ((completedGroups c.request
        (delegated k c.count c.request (t.found c).transcript)).map
          (·.assistantIndex)).contains g.assistantIndex := by
      rw [contains_iff_mem]
      exact mem_map_of_mem hcandidate
    rw [hindex, eq_false_iff.mpr hunpreserved]
    rfl

theorem returned_of_not_compacted {ms : List Message}
    (hstart : ms <+: (t.found c).transcript) (hg : g ∈ collectToolGroups ms)
    (hnot : ∀ h ∈ t.compacted k c, ∀ id ∈ g.callIds, id ∉ h.callIds) :
    ReturnedVerbatim (t.output k c) ms g := by
  intro i hi m hm hrole
  have hm' : (t.found c).transcript[i]? = some m := by
    obtain ⟨rest, hrest⟩ := hstart
    obtain ⟨hi', -⟩ := List.getElem?_eq_some_iff.mp hm
    rw [← hrest, getElem?_append_left hi', hm]
  have hplain := (hc.plain m (mem_of_getElem? hm') hrole).1
  have hresult := isResultOf_of_mem hg hi hm hrole hplain
  rw [output_result hc hm' hrole, if_neg]
  rintro ⟨hshared, -⟩
  simp only [Message.isResultOf, hrole, decide_true, Bool.true_and, Option.any_eq_true,
    contains_iff_mem, mem_flatMap] at hresult hshared
  obtain ⟨id, hid, hown⟩ := hresult
  obtain ⟨id', hid', h, hh, hother⟩ := hshared
  rw [hid] at hid'
  cases hid'
  exact hnot h hh id hown hother

end

section

variable {k : Codec} {t : Turn} {g : ToolGroup}

theorem Turn.transcript_run (k : Codec) (t : Turn) (cs : List TurnCall) :
    t.transcript <+: (run (Turn.step k) t cs).transcript := by
  induction cs generalizing t with
  | nil => exact prefix_refl _
  | cons c cs ih => exact (prefix_append _ _).trans (ih (t.step k c))

theorem Remembered.run {cs : List TurnCall} (hg : g ∈ collectToolGroups t.transcript)
    (hremembered : Remembered t.sets (g.anchor k))
    (hcond : Meets (Turn.step k) (fun t c => remembersAll k t c = true) t cs)
    (hmodes : ∀ c ∈ cs, c.request.isCritical = false) :
    ∃ h ∈ collectToolGroups (run (Turn.step k) t cs).transcript, h.callIds = g.callIds ∧
      Remembered (run (Turn.step k) t cs).sets (h.anchor k) := by
  induction cs generalizing t g with
  | nil => exact ⟨g, hg, rfl, hremembered⟩
  | cons c cs ih =>
    obtain ⟨h, hh, -, hids⟩ := group_persists hg c.appended
    have hanchor : h.anchor k = g.anchor k := by rw [ToolGroup.anchor, hids, ToolGroup.anchor]
    rw [← hanchor] at hremembered
    have hnext := (Remembered.step (remembersAll_iff.mp hcond.1) (hmodes c mem_cons_self)
      hh hremembered).2
    obtain ⟨h', hh', hids', hlast⟩ := ih (t := t.step k c) hh hnext hcond.2
      (fun d hd => hmodes d (mem_cons_of_mem _ hd))
    exact ⟨h', hh', hids'.trans hids, hlast⟩

end

/-- However the transcript of a turn grows and whatever its calls ask for: short of
critical pressure, a completed group whose results one call returned verbatim is
returned verbatim by every later call, as long as every call remembers all the
groups it returns. -/
theorem sent_group_stays_verbatim (k : Codec) (t : Turn) (before between : List TurnCall)
    (c c' : TurnCall)
    (hmodes : ∀ d ∈ before ++ c :: between ++ [c'], d.request.isCritical = false)
    (hcond : Meets (Turn.step k) (fun t d => remembersAll k t d = true) t
      (before ++ c :: between ++ [c']))
    (g : ToolGroup)
    (hg : g ∈ collectToolGroups ((run (Turn.step k) t before).found c).transcript)
    (hcompleted : g.completed) (hopen : g.protectedGroup = false)
    (hsent : ReturnedVerbatim ((run (Turn.step k) t before).output k c)
      ((run (Turn.step k) t before).found c).transcript g) :
    ReturnedVerbatim ((run (Turn.step k) t (before ++ c :: between)).output k c')
      ((run (Turn.step k) t before).found c).transcript g := by
  rw [meets_append, meets_append] at hcond
  obtain ⟨⟨-, hcall, hlater⟩, hlast, -⟩ := hcond
  have hc := remembersAll_iff.mp hcall
  have hc' := remembersAll_iff.mp hlast
  rw [run_append, run_cons] at hc' ⊢
  generalize run (Turn.step k) t before = s at *
  have hprefix : (s.found c).transcript <+:
      ((run (Turn.step k) (s.step k c) between).found c').transcript :=
    (Turn.transcript_run k (s.step k c) between).trans (prefix_append _ _)
  by_cases hcompacted : g ∈ s.compacted k c
  · -- no placeholder would shrink these results, so none ever replaces them
    intro i hi m hm hrole
    have hplain := (hc.plain m (mem_of_getElem? hm) hrole).1
    have hkept : ¬ compactionShrinksToolResult k m := by
      intro hshrinks
      have hown := isResultOf_of_mem hg hi hm hrole hplain
      have hresult : m.isResultOf ((s.compacted k c).flatMap (·.callIds)) := by
        simp only [Message.isResultOf, hrole, decide_true, Bool.true_and, Option.any_eq_true,
          contains_iff_mem, mem_flatMap] at hown ⊢
        obtain ⟨id, hid, hmem⟩ := hown
        exact ⟨id, hid, g, hcompacted, hmem⟩
      have hout := output_result hc hm hrole
      rw [if_pos ⟨hresult, hshrinks⟩, hsent i hi m hm hrole] at hout
      exact compactToolResult_ne hshrinks _ (Option.some.inj hout).symm
    have hm' : ((run (Turn.step k) (s.step k c) between).found c').transcript[i]? = some m := by
      obtain ⟨rest, hrest⟩ := hprefix
      obtain ⟨hi', -⟩ := List.getElem?_eq_some_iff.mp hm
      rw [← hrest, getElem?_append_left hi', hm]
    rw [output_result hc' hm' hrole, if_neg fun hboth => hkept hboth.2]
  · have hmode : ∀ d ∈ c :: between ++ [c'], d.request.isCritical = false := by
      intro d hd
      apply hmodes
      rw [append_assoc]
      exact mem_append_right _ hd
    have hremembered := remembered_of_sent hc (hmode c (by simp)) hg hcompleted hopen hcompacted
    obtain ⟨h, hh, hids, hkept⟩ := Remembered.run (t := s.step k c) hg hremembered hlater
      (fun d hd => hmode d (by simp [hd]))
    obtain ⟨h', hh', -, hids'⟩ := group_persists hh c'.appended
    have hanchor : h'.anchor k = h.anchor k := by rw [ToolGroup.anchor, hids', ToolGroup.anchor]
    rw [← hanchor] at hkept
    have hnot := (Remembered.step hc' (hmode c' (by simp)) hh' hkept).1
    apply returned_of_not_compacted hc' hprefix hg
    intro other hother id hid
    have hne : h' ≠ other := fun heq => hnot (heq ▸ hother)
    apply (hc'.apart_of_ne hh' (mem_of_compacted hother) hne).2 id
    rw [hids', hids]
    exact hid

def plainCodec : Codec where
  dumps value :=
    match value with
    | .str s => "\"" ++ s ++ "\""
    | _ => "null"
  loads _ := none
  repr s := "'" ++ s ++ "'"
  digest key :=
    if key = "a" then "86f7e437faa5a7fc"
    else if key = "b" then "e9d71f5ee7c92d6d"
    else if key = "c" then "84a516841ba77a5b"
    else key

def defaultTokenEstimate (text : String) : Nat := max 1 (text.length * 2 / 7)

def toolExchange (callId : String) : List Message :=
  [{ role := .assistant,
     toolCalls := some [.call (some callId) none (some { arguments := some (.str "\x7b\x7d") })] },
   { role := .tool, content := .arr [.str "image"],
     toolCallId := some callId, recoveryCallId := some callId }]

def projectionCall (appended : List Message) (mode : PressureMode) (groups : Nat) : TurnCall where
  appended := appended
  count := defaultTokenEstimate
  request := { policy := ⟨mode, groups, 50000, 5000, argClearThreshold⟩ }

/-- A result of an earlier turn, sent verbatim under a policy that preserves it, is
sent verbatim under pressure by a policy that preserves no group. -/
theorem sent_group_stays_verbatim_earlier_turn :
    let c := projectionCall (toolExchange "a" ++ [{ role := .user }]) .normal 10
    let c' := projectionCall [] .pressure 0
    ∀ g ∈ collectToolGroups c.appended, g.completed ∧ g.protectedGroup = false ∧
      ReturnedVerbatim ((Turn.step plainCodec ⟨[], {}⟩ c).output plainCodec c') c.appended g := by
  intro c c' g hg
  have hall : ∀ g ∈ collectToolGroups c.appended, g.completed ∧ g.protectedGroup = false ∧
        ReturnedVerbatim (Turn.output plainCodec ⟨[], {}⟩ c) c.appended g := by
    decide +kernel
  obtain ⟨hcompleted, hopen, hsent⟩ := hall g hg
  refine ⟨hcompleted, hopen, ?_⟩
  exact sent_group_stays_verbatim plainCodec ⟨[], {}⟩ [] [] c c' (by decide)
    (by decide +kernel) g hg
    hcompleted hopen hsent

/-- Three results of the running turn are sent verbatim without pressure; under
pressure the oldest of them becomes a placeholder. -/
theorem latest_turn_group_demoted :
    let transcript := { role := .user } :: toolExchange "a" ++ toolExchange "b" ++ toolExchange "c"
    let c := projectionCall transcript .normal 10
    let c' := projectionCall [] .pressure 2
    (∀ g ∈ collectToolGroups transcript, g.completed ∧ g.protectedGroup = false ∧
        ReturnedVerbatim (Turn.output plainCodec ⟨[], {}⟩ c) transcript g) ∧
      ¬ ∀ g ∈ collectToolGroups transcript,
        ReturnedVerbatim ((Turn.step plainCodec ⟨[], {}⟩ c).output plainCodec c') transcript g := by
  decide +kernel

end Cognis.Context
