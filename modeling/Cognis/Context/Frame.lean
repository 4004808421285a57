import Cognis.Context.Replay

namespace Cognis.Context

open List

variable {ids : List String}

def ToolCall.pairing : ToolCall → Option (Option String × Option String × Option String)
  | .call id callId function => some (id, callId, function.bind (·.name))
  | .other _ => none

/-- What pairs a message with its calls and results stays. -/
structure KeepsPairing (m m' : Message) : Prop where
  toolCallId : m'.toolCallId = m.toolCallId
  calls : m'.toolCalls.map (·.map ToolCall.pairing) = m.toolCalls.map (·.map ToolCall.pairing)
  context : m'.toolAttachmentContext = m.toolAttachmentContext
  role : m.toolAttachmentContext = false → m'.role = m.role

def Edited (m m' : Message) : Prop :=
  m'.role ≠ m.role ∨ m'.content ≠ m.content ∨ m'.toolCalls ≠ m.toolCalls

instance (m m' : Message) : Decidable (Edited m m') := inferInstanceAs (Decidable (_ ∨ _ ∨ _))

def PrunableReplay (k : Codec) (count : String → Nat) (limit : Nat) (m : Message) : Prop :=
  m.delegationResultReplay = true ∧ 0 < limit ∧ limit < m.estimate k count

/-- The message is the group's assistant message, or a result or an attachment
context of one of its calls. -/
def ToolGroup.Owns (g : ToolGroup) (i : Nat) (m : Message) : Prop :=
  i = g.assistantIndex ∨ m.isResultOf g.callIds = true ∨ m.isAttachmentOf g.callIds = true

instance (g : ToolGroup) (i : Nat) (m : Message) : Decidable (g.Owns i m) :=
  inferInstanceAs (Decidable (_ ∨ _))

def ToolGroup.Eligible (g : ToolGroup) : Prop := g.completed = true ∧ g.protectedGroup = false

instance (g : ToolGroup) : Decidable g.Eligible := inferInstanceAs (Decidable (_ ∧ _))

def Frozen (ms : List Message) (i : Nat) (m : Message) : Prop :=
  (m.role = .tool ∧ m.protectedToolOutput = true) ∨
    ∃ g ∈ collectToolGroups ms, g.completed = false ∧ g.Owns i m

instance (ms : List Message) (i : Nat) (m : Message) : Decidable (Frozen ms i m) :=
  inferInstanceAs (Decidable (_ ∨ _))

structure UniqueCallIds (ms : List Message) : Prop where
  calls : ((allCalls ms).filterMap fun call => call.key.filter (· ≠ "")).Nodup
  results : (ms.filterMap Message.resultKey).Nodup

/-- The message is a delegation result, a tool result, an attachment context or none of
these. -/
def Message.OneKind (m : Message) : Prop :=
  (m.delegationResultReplay = true →
    m.role ≠ .tool ∧ m.toolCalls = none ∧ m.toolAttachmentContext = false) ∧
  (m.role = .tool → m.toolCalls = none ∧ m.toolAttachmentContext = false) ∧
  (m.toolAttachmentContext = true → m.toolCalls = none)

def Message.OnePart (m : Message) : Prop :=
  m.OneKind ∧ (m.toolAttachmentContext = true →
    m.attachmentCallId = none ∨ m.toolCallId = none ∨ m.attachmentCallId = m.toolCallId)

/-- Position by position the messages keep what pairs them, and the changed ones
are of the given kind. -/
structure TranscriptKept (ms ms' : List Message) (may : Nat → Message → Prop) : Prop where
  length : ms'.length = ms.length
  pairing : ∀ (i : Nat) (m m' : Message), ms[i]? = some m → ms'[i]? = some m' → KeepsPairing m m'
  changed : ∀ (i : Nat) (m m' : Message), ms[i]? = some m → ms'[i]? = some m' → Edited m m' →
    may i m

section

variable {k : Codec} {m m' m'' : Message}

theorem KeepsPairing.refl (m : Message) : KeepsPairing m m := ⟨rfl, rfl, rfl, fun _ => rfl⟩

theorem KeepsPairing.trans (h : KeepsPairing m m') (h' : KeepsPairing m' m'') :
    KeepsPairing m m'' where
  toolCallId := h'.toolCallId.trans h.toolCallId
  calls := h'.calls.trans h.calls
  context := h'.context.trans h.context
  role := by
    intro hplain
    rw [h'.role (h.context.trans hplain), h.role hplain]

theorem pairing_clearCall (threshold : Int) (call : ToolCall) :
    (clearCall k threshold call).pairing = call.pairing := by
  unfold clearCall
  split
  · split <;> rfl
  · rfl

theorem KeepsPairing.cleared (threshold : Int) (m : Message) :
    KeepsPairing m (clearLargeToolCallArguments k threshold m) where
  toolCallId := rfl
  calls := by
    have hcalls : ∀ calls : List ToolCall,
        (calls.map (clearCall k threshold)).map ToolCall.pairing = calls.map ToolCall.pairing := by
      intro calls
      rw [map_map]
      apply map_congr_left
      intro call _
      exact pairing_clearCall threshold call
    show (m.toolCalls.map (·.map (clearCall k threshold))).map (·.map ToolCall.pairing) = _
    rw [Option.map_map]
    congr 1
    funext calls
    exact hcalls calls
  context := rfl
  role := fun _ => rfl

theorem KeepsPairing.result (version : Nat) (m : Message) :
    KeepsPairing m (compactToolResult k m version) := ⟨rfl, rfl, rfl, fun _ => rfl⟩

theorem KeepsPairing.attachment (hcontext : m.toolAttachmentContext) :
    KeepsPairing m (compactToolAttachment m) where
  toolCallId := rfl
  calls := rfl
  context := rfl
  role := by
    intro hplain
    rw [hcontext] at hplain
    cases hplain

theorem KeepsPairing.replay {count : String → Nat} (limit : Nat) (m : Message) :
    KeepsPairing m (compactDelegationReplay k count limit m) := by
  unfold compactDelegationReplay
  split <;> exact ⟨rfl, rfl, rfl, fun _ => rfl⟩

theorem not_edited_self (m : Message) : ¬ Edited m m := by
  intro h
  rcases h with hrole | hcontent | hcalls
  · exact hrole rfl
  · exact hcontent rfl
  · exact hcalls rfl

end

section

variable {ms : List Message} {g h : ToolGroup} {i : Nat} {m : Message} {id : String}

theorem groupAt_results {rest : List Message} (hg : groupAt i m rest = some g) :
    g.completed = g.callIds.all (followGroup g.callIds (i + 1) rest).2.1.contains ∧
      g.protectedGroup = (followGroup g.callIds (i + 1) rest).2.2 := by
  unfold groupAt at hg
  split at hg
  · split at hg
    · cases hg
    · dsimp only at hg
      split at hg
      · cases hg
      · cases hg
        exact ⟨rfl, rfl⟩
  · cases hg

/-- A call that has its result in the group has an unprotected one, unless the
group is protected. -/
theorem result_of_seen {n : Nat}
    (hseen : id ∈ (followGroup ids n ms).2.1) (hopen : (followGroup ids n ms).2.2 = false) :
    ∃ m ∈ ms, m.role = .tool ∧ m.toolCallId = some id ∧ m.protectedToolOutput = false := by
  induction ms generalizing n with
  | nil => cases hseen
  | cons head rest ih =>
    rw [followGroup] at hseen hopen
    split at hseen
    · rename_i hresult
      rw [if_pos hresult] at hopen
      rw [Bool.or_eq_false_iff] at hopen
      rcases mem_append.mp hseen with hhead | hrest
      · exact ⟨head, mem_cons_self, role_of_isResultOf hresult, Option.mem_toList.mp hhead, hopen.1⟩
      · obtain ⟨m, hm, hfacts⟩ := ih hrest hopen.2
        exact ⟨m, mem_cons_of_mem _ hm, hfacts⟩
    · rename_i hresult
      rw [if_neg hresult] at hopen
      split at hseen
      · rename_i hattachment
        rw [if_pos hattachment] at hopen
        obtain ⟨m, hm, hfacts⟩ := ih hseen hopen
        exact ⟨m, mem_cons_of_mem _ hm, hfacts⟩
      · cases hseen

theorem result_of_eligible (hg : g ∈ collectToolGroups ms) (heligible : g.Eligible)
    (hid : id ∈ g.callIds) :
    ∃ m ∈ ms, m.role = .tool ∧ m.toolCallId = some id ∧ m.protectedToolOutput = false := by
  obtain ⟨i, a, _, hgroup⟩ := mem_collectToolGroups.mp hg
  obtain ⟨hcompleted, hprotected⟩ := groupAt_results hgroup
  rw [heligible.1, eq_comm, all_eq_true] at hcompleted
  rw [heligible.2] at hprotected
  obtain ⟨m, hm, hfacts⟩ := result_of_seen (contains_iff_mem.mp (hcompleted id hid)) hprotected.symm
  exact ⟨m, mem_of_mem_drop hm, hfacts⟩

theorem call_of_group (hg : g ∈ collectToolGroups ms) (hid : id ∈ g.callIds) :
    ∃ m, ms[g.assistantIndex]? = some m ∧
      id ∈ (m.toolCalls.getD []).filterMap fun call => call.key.filter (· ≠ "") := by
  obtain ⟨i, m, hm, hgroup⟩ := mem_collectToolGroups.mp hg
  obtain ⟨-, ⟨calls, hcalls, hids, -⟩, hindex, -⟩ := groupAt_eq_some hgroup
  refine ⟨m, by rw [hindex, hm], ?_⟩
  rw [hids, callIdsOf, mem_eraseDups] at hid
  rw [hcalls]
  exact hid

theorem index_of_nodup_flatMap {α β : Type} {f : α → List β} {l : List α}
    (h : (l.flatMap f).Nodup) {i j : Nat} {a b : α} {x : β} (hi : l[i]? = some a)
    (hj : l[j]? = some b) (ha : x ∈ f a) (hb : x ∈ f b) : i = j := by
  rw [nodup_flatMap, pairwise_iff_getElem] at h
  obtain ⟨hi', rfl⟩ := List.getElem?_eq_some_iff.mp hi
  obtain ⟨hj', rfl⟩ := List.getElem?_eq_some_iff.mp hj
  by_contra hne
  rcases Nat.lt_or_gt_of_ne hne with hlt | hgt
  · exact h.2 i j hi' hj' hlt ha hb
  · exact h.2 j i hj' hi' hgt hb ha

theorem eq_of_call (huniq : UniqueCallIds ms) (hg : g ∈ collectToolGroups ms)
    (hh : h ∈ collectToolGroups ms) (hid : id ∈ g.callIds) (hid' : id ∈ h.callIds) : g = h := by
  obtain ⟨m, hm, hcall⟩ := call_of_group hg hid
  obtain ⟨m', hm', hcall'⟩ := call_of_group hh hid'
  have hnodup := huniq.calls
  rw [allCalls, filterMap_flatMap] at hnodup
  exact eq_of_assistantIndex hg hh (index_of_nodup_flatMap hnodup hm hm' hcall hcall')

theorem mem_of_isResultOf (h : m.isResultOf ids) : ∃ id ∈ ids, m.toolCallId = some id := by
  rw [Message.isResultOf, Bool.and_eq_true] at h
  obtain ⟨id, hid, hmem⟩ := (Option.any_eq_true _ _).mp h.2
  exact ⟨id, contains_iff_mem.mp hmem, hid⟩

theorem mem_of_isAttachmentOf (h : m.isAttachmentOf ids) : m.toolAttachmentContext ∧
      ∃ id ∈ ids, m.attachmentCallId = some id ∨ m.toolCallId = some id := by
  rw [Message.isAttachmentOf, Bool.and_eq_true, Bool.or_eq_true] at h
  refine ⟨h.1, ?_⟩
  rcases h.2 with hown | hcall
  · obtain ⟨id, hid, hmem⟩ := (Option.any_eq_true _ _).mp hown
    exact ⟨id, contains_iff_mem.mp hmem, .inl hid⟩
  · obtain ⟨id, hid, hmem⟩ := (Option.any_eq_true _ _).mp hcall
    exact ⟨id, contains_iff_mem.mp hmem, .inr hid⟩

theorem isResultOf_flatMap {gs : List ToolGroup}
    (h : m.isResultOf (gs.flatMap (·.callIds))) :
    ∃ g ∈ gs, m.isResultOf g.callIds := by
  obtain ⟨id, hid, hcall⟩ := mem_of_isResultOf h
  obtain ⟨g, hg, hmem⟩ := mem_flatMap.mp hid
  refine ⟨g, hg, ?_⟩
  rw [Message.isResultOf, role_of_isResultOf h, hcall, decide_eq_true rfl, Bool.true_and]
  exact contains_iff_mem.mpr hmem

theorem isAttachmentOf_flatMap {gs : List ToolGroup}
    (h : m.isAttachmentOf (gs.flatMap (·.callIds))) :
    ∃ g ∈ gs, m.isAttachmentOf g.callIds := by
  obtain ⟨hcontext, id, hid, hcall⟩ := mem_of_isAttachmentOf h
  obtain ⟨g, hg, hmem⟩ := mem_flatMap.mp hid
  refine ⟨g, hg, ?_⟩
  rw [Message.isAttachmentOf, hcontext, Bool.true_and, Bool.or_eq_true]
  rcases hcall with hown | hcall
  · exact .inl (by rw [hown]; exact contains_iff_mem.mpr hmem)
  · exact .inr (by rw [hcall]; exact contains_iff_mem.mpr hmem)

end

section

variable {k : Codec} {count : String → Nat} {r : ProjectionRequest} {st : ProjectionTurnState}
  {ms : List Message} {g h : ToolGroup} {i : Nat} {m m' : Message}

theorem eligible_of_compacted (hg : g ∈ compactedGroups k count r st ms) : g.Eligible := by
  obtain ⟨hgroup, hcases⟩ := mem_filter.mp hg
  rw [Bool.or_eq_true] at hcases
  rcases hcases with hcandidate | hdemoted
  · rw [Bool.and_eq_true, contains_iff_mem, mem_map] at hcandidate
    obtain ⟨⟨g', hg', hindex⟩, -⟩ := hcandidate
    obtain ⟨hgroup', hcompleted⟩ := mem_filter.mp hg'
    obtain rfl := eq_of_assistantIndex hgroup' hgroup hindex
    rw [Bool.and_eq_true, Bool.and_eq_true, Bool.not_eq_true'] at hcompleted
    exact hcompleted.1
  · rw [Bool.and_eq_true, Bool.and_eq_true, Bool.not_eq_true'] at hdemoted
    exact hdemoted.1

theorem projectMessage_cases (k : Codec) (r : ProjectionRequest) (compacted : List ToolGroup)
    (i : Nat) (m : Message) :
    (∃ g ∈ compacted, g.assistantIndex = i ∧ projectMessage k r compacted i m =
        clearLargeToolCallArguments k r.policy.argClearThreshold m) ∨
      (∃ g ∈ compacted, m.isResultOf g.callIds ∧ projectMessage k r compacted i m =
        compactToolResult k m compactResultRenderingPolicyVersion) ∨
      (∃ g ∈ compacted, m.isAttachmentOf g.callIds ∧ projectMessage k r compacted i m =
        compactToolAttachment m) ∨
      projectMessage k r compacted i m = m := by
  unfold projectMessage
  dsimp only
  split
  · rename_i hindex
    rw [contains_iff_mem, mem_map] at hindex
    obtain ⟨g, hg, hi⟩ := hindex
    exact .inl ⟨g, hg, hi, rfl⟩
  · split
    · rename_i hresult
      rw [Bool.and_eq_true] at hresult
      obtain ⟨g, hg, hof⟩ := isResultOf_flatMap hresult.1
      exact .inr (.inl ⟨g, hg, hof, rfl⟩)
    · split
      · rename_i hattachment
        obtain ⟨g, hg, hof⟩ := isAttachmentOf_flatMap hattachment
        exact .inr (.inr (.inl ⟨g, hg, hof, rfl⟩))
      · exact .inr (.inr (.inr rfl))

theorem projectMessage_keepsPairing (compacted : List ToolGroup) (i : Nat) (m : Message) :
    KeepsPairing m (projectMessage k r compacted i m) := by
  rcases projectMessage_cases k r compacted i m with
    ⟨g, _, _, hsame⟩ | ⟨g, _, _, hsame⟩ | ⟨g, _, hof, hsame⟩ | hsame
  · rw [hsame]
    exact KeepsPairing.cleared _ m
  · rw [hsame]
    exact KeepsPairing.result _ m
  · rw [hsame]
    exact KeepsPairing.attachment (mem_of_isAttachmentOf hof).1
  · rw [hsame]
    exact KeepsPairing.refl m

theorem owned_of_projected {compacted : List ToolGroup}
    (hedited : Edited m (projectMessage k r compacted i m)) : ∃ g ∈ compacted, g.Owns i m := by
  rcases projectMessage_cases k r compacted i m with
    ⟨g, hg, hi, -⟩ | ⟨g, hg, hof, -⟩ | ⟨g, hg, hof, -⟩ | hsame
  · exact ⟨g, hg, .inl hi.symm⟩
  · exact ⟨g, hg, .inr (.inl hof)⟩
  · exact ⟨g, hg, .inr (.inr hof)⟩
  · rw [hsame] at hedited
    exact absurd hedited (not_edited_self m)

theorem opens_of_assistantIndex (hm : ms[i]? = some m) (hpart : m.OnePart)
    (hg : g ∈ collectToolGroups ms) (hi : i = g.assistantIndex) :
    m.role = .assistant ∧ m.toolAttachmentContext = false := by
  obtain ⟨j, a, ha, hgroup⟩ := mem_collectToolGroups.mp hg
  obtain ⟨hrole, ⟨calls, hcalls, -⟩, hindex, -⟩ := groupAt_eq_some hgroup
  rw [← hindex, ← hi, hm] at ha
  cases ha
  refine ⟨hrole, ?_⟩
  cases hflag : m.toolAttachmentContext with
  | false => rfl
  | true =>
    rw [hpart.1.2.2 hflag] at hcalls
    cases hcalls

theorem eq_of_attachment (hpart : m.OnePart) {ids' : List String}
    (h : m.isAttachmentOf ids) (h' : m.isAttachmentOf ids') :
    ∃ id ∈ ids, id ∈ ids' := by
  obtain ⟨hflag, id, hid, hcall⟩ := mem_of_isAttachmentOf h
  obtain ⟨-, id', hid', hcall'⟩ := mem_of_isAttachmentOf h'
  have hsame : id = id' := by
    rcases hpart.2 hflag with hnone | hnone | hboth
    · simp only [hnone, false_or, reduceCtorEq] at hcall hcall'
      exact Option.some.inj (hcall.symm.trans hcall')
    · simp only [hnone, or_false, reduceCtorEq] at hcall hcall'
      exact Option.some.inj (hcall.symm.trans hcall')
    · rw [hboth, or_self] at hcall hcall'
      exact Option.some.inj (hcall.symm.trans hcall')
  exact ⟨id, hid, hsame ▸ hid'⟩

theorem eq_of_owns (huniq : UniqueCallIds ms) (hm : ms[i]? = some m) (hpart : m.OnePart)
    (hg : g ∈ collectToolGroups ms) (hh : h ∈ collectToolGroups ms) (howns : g.Owns i m)
    (howns' : h.Owns i m) : g = h := by
  have hnoTool : m.role = .tool → m.toolAttachmentContext = false := fun hrole =>
    (hpart.1.2.1 hrole).2
  rcases howns with hi | hresult | hattachment
  · obtain ⟨hrole, hplain⟩ := opens_of_assistantIndex hm hpart hg hi
    rcases howns' with hi' | hresult' | hattachment'
    · exact eq_of_assistantIndex hg hh (hi.symm.trans hi')
    · have htool := role_of_isResultOf hresult'
      rw [hrole] at htool
      cases htool
    · have hflag := (mem_of_isAttachmentOf hattachment').1
      rw [hplain] at hflag
      cases hflag
  · have htool := role_of_isResultOf hresult
    rcases howns' with hi' | hresult' | hattachment'
    · rw [(opens_of_assistantIndex hm hpart hh hi').1] at htool
      cases htool
    · obtain ⟨id, hid, hcall⟩ := mem_of_isResultOf hresult
      obtain ⟨id', hid', hcall'⟩ := mem_of_isResultOf hresult'
      rw [hcall] at hcall'
      cases hcall'
      exact eq_of_call huniq hg hh hid hid'
    · have hflag := (mem_of_isAttachmentOf hattachment').1
      rw [hnoTool htool] at hflag
      cases hflag
  · have hflag := (mem_of_isAttachmentOf hattachment).1
    rcases howns' with hi' | hresult' | hattachment'
    · rw [(opens_of_assistantIndex hm hpart hh hi').2] at hflag
      cases hflag
    · rw [hnoTool (role_of_isResultOf hresult')] at hflag
      cases hflag
    · obtain ⟨id, hid, hid'⟩ := eq_of_attachment hpart hattachment hattachment'
      exact eq_of_call huniq hg hh hid hid'

theorem not_frozen_of_owned (huniq : UniqueCallIds ms) (hm : ms[i]? = some m)
    (hpart : m.OnePart) (hg : g ∈ collectToolGroups ms) (heligible : g.Eligible)
    (howns : g.Owns i m) : ¬ Frozen ms i m := by
  intro hfrozen
  rcases hfrozen with ⟨hrole, hprotected⟩ | ⟨h, hh, hincomplete, howns'⟩
  · rcases howns with hi | hresult | hattachment
    · rw [(opens_of_assistantIndex hm hpart hg hi).1] at hrole
      cases hrole
    · -- the one result of the call is the unprotected one the group was completed by
      obtain ⟨id, hid, hcall⟩ := mem_of_isResultOf hresult
      obtain ⟨m', hm', hrole', hcall', hopen⟩ := result_of_eligible hg heligible hid
      have hkey : ∀ {x : Message}, x.role = .tool → x.toolCallId = some id →
          x.resultKey = some id := by
        intro x hx hcall
        rw [Message.resultKey, if_pos hx, hcall]
      have hsame := eq_of_nodup_filterMap huniq.results (mem_of_getElem? hm) hm'
        (hkey hrole hcall) (hkey hrole' hcall')
      rw [hsame, hopen] at hprotected
      cases hprotected
    · have hflag := (mem_of_isAttachmentOf hattachment).1
      rw [(hpart.1.2.1 hrole).2] at hflag
      cases hflag
  · rw [← eq_of_owns huniq hm hpart hg hh howns howns', heligible.1] at hincomplete
    cases hincomplete

theorem projected_of_getElem? (hm : ms[i]? = some m)
    (hm' : (projectMessages k count r st ms).1.messages[i]? = some m') :
    m' = projectMessage k r (compactedGroups k count r st (delegated k count r ms)) i m ∨
      PrunableReplay k count r.policy.maxHistoricalToolResultTokens m := by
  rcases getElem?_delegated_cases k count r hm with hsame | ⟨hreplay, hpos, hlarge, -⟩
  · rw [getElem?_projected hsame] at hm'
    exact .inl (Option.some.inj hm').symm
  · exact .inr ⟨hreplay, hpos, hlarge⟩

theorem projectMessages_keepsPairing (hm : ms[i]? = some m)
    (hm' : (projectMessages k count r st ms).1.messages[i]? = some m') : KeepsPairing m m' := by
  rw [projectMessages_messages, getElem?_mapIdx, delegated, compactPrunable_eq_map,
    getElem?_map, hm, Option.map_some, Option.map_some] at hm'
  cases hm'
  refine KeepsPairing.trans ?_ (projectMessage_keepsPairing _ i _)
  split
  · exact KeepsPairing.refl m
  · exact KeepsPairing.replay _ m

theorem projectMessages_length :
    (projectMessages k count r st ms).1.messages.length = ms.length := by
  rw [projectMessages_messages, length_mapIdx, delegated, compactPrunable_eq_map, length_map]

end

def Replaced (ms ms' : List Message) (id : String) : Prop :=
  ∃ (j : Nat) (result result' : Message), ms[j]? = some result ∧ ms'[j]? = some result' ∧
    result.role = .tool ∧ result.protectedToolOutput = false ∧ result.toolCallId = some id ∧
    Edited result result'

/-- A message pruning may change: an unprotected result, or the assistant message
or an attachment context of the call of a result it replaces. -/
def MayPrune (ms ms' : List Message) (m : Message) : Prop :=
  (m.role = .tool ∧ m.protectedToolOutput = false) ∨ ∃ id, Replaced ms ms' id ∧
      ((m.role = .assistant ∧ ∃ call ∈ m.toolCalls.getD [], call.key = some id) ∨
        (m.toolAttachmentContext = true ∧ m.attachmentKey = some id))

/-- A position pruning may change: the latest turn is left alone without pressure,
and while it has a call without a result. -/
def PrunableAt (mode : PressureMode) (ms : List Message) (i : Nat) : Prop :=
  i < latestRealUserIndex ms ∨
    (mode ≠ .normal ∧ latestTurnHasUnresolvedToolCall ms (latestRealUserIndex ms) = false)

section

variable {k : Codec} {count : String → Nat} {q : PruneRequest} {ms : List Message} {i : Nat}
  {m m' : Message} {id : String}

theorem edited_compactToolResult (hshrinks : compactionShrinksToolResult k m) :
    Edited m (compactToolResult k m compactResultRenderingPolicyVersion) := by
  right
  left
  intro hsame
  have hcontent : JsonValue.str (buildCompactedToolResultPlaceholder k m
      compactResultRenderingPolicyVersion) = m.content := hsame
  rw [compactionShrinksToolResult, ← hcontent] at hshrinks
  split at hshrinks
  · cases hshrinks
  · rw [decide_eq_true_eq] at hshrinks
    have hpositive : 0 < (buildCompactedToolResultPlaceholder k m
        compactResultRenderingPolicyVersion).length := by
      have hbracket : "]".length = 1 := rfl
      unfold buildCompactedToolResultPlaceholder
      dsimp only
      split
      · rw [String.length_append]
        omega
      · rw [if_pos rfl, String.length_append]
        omega
    omega

theorem prunableAt_of_allow
    (h : (decide (i < latestRealUserIndex ms) || allowLatestTurnPruning q ms)) :
    PrunableAt q.pressureMode ms i := by
  rw [Bool.or_eq_true, decide_eq_true_eq] at h
  rcases h with hearlier | hallow
  · exact .inl hearlier
  · rw [allowLatestTurnPruning, Bool.and_eq_true, decide_eq_true_eq, Bool.not_eq_true'] at hallow
    exact .inr hallow

theorem prunableAt_of_range (h : pruneRange q ms i) : PrunableAt q.pressureMode ms i := by
  rw [pruneRange, Bool.and_eq_true] at h
  rw [Bool.or_comm] at h
  exact prunableAt_of_allow h.2

theorem replaced_of_pruneableCallIds (h : id ∈ pruneableCallIds k count q ms) :
    Replaced ms (ms.mapIdx (pruneMessage k count q ms)) id := by
  rw [pruneableCallIds, mem_filterMap] at h
  obtain ⟨j, hj, hid⟩ := h
  obtain ⟨result, hresult, hprunable, hshrinks⟩ := prunable_of_pruneable hj
  rw [Option.filter_eq_some_iff, hresult, Option.bind_some] at hid
  simp only [prunable, Bool.and_eq_true, Bool.not_eq_true', decide_eq_true_eq] at hprunable
  refine ⟨j, result, _, hresult, by rw [getElem?_mapIdx, hresult, Option.map_some],
    hprunable.1.1.1.2, hprunable.1.1.2, hid.1, ?_⟩
  rw [pruneMessage, if_pos (contains_iff_mem.mpr hj)]
  split
  · left
    rw [hprunable.1.1.1.2]
    exact Role.noConfusion
  · exact edited_compactToolResult hshrinks

theorem pruneMessage_cases (k : Codec) (count : String → Nat) (q : PruneRequest)
    (ms : List Message) (i : Nat) (m : Message) :
    ∃ pruned, ((i ∈ pruneableResultIndices k count q ms ∧
          pruned = compactToolResult k m compactResultRenderingPolicyVersion) ∨
        (pruneRange q ms i ∧ prunesCalls k q (pruneableCallIds k count q ms) m ∧
          pruned = clearLargeToolCallArguments k q.argClearThreshold m) ∨ pruned = m) ∧
      ((pruneRange q ms i ∧ prunesAttachment (pruneableCallIds k count q ms) m ∧
          pruneMessage k count q ms i m = compactToolAttachment pruned) ∨
        pruneMessage k count q ms i m = pruned) := by
  unfold pruneMessage
  dsimp only
  generalize hpruned : (if (pruneableResultIndices k count q ms).contains i then
    compactToolResult k m compactResultRenderingPolicyVersion else _) = pruned
  refine ⟨pruned, ?_, ?_⟩
  · rw [← hpruned]
    split
    · rename_i hindex
      exact .inl ⟨contains_iff_mem.mp hindex, rfl⟩
    · split
      · rename_i hcalls
        rw [Bool.and_eq_true] at hcalls
        exact .inr (.inl ⟨hcalls.1, hcalls.2, rfl⟩)
      · exact .inr (.inr rfl)
  · split
    · rename_i hattachment
      rw [Bool.and_eq_true] at hattachment
      exact .inl ⟨hattachment.1, hattachment.2, rfl⟩
    · exact .inr rfl

theorem pruneMessage_keepsPairing (m : Message) :
    KeepsPairing m (pruneMessage k count q ms i m) := by
  obtain ⟨pruned, hpruned, hresult⟩ := pruneMessage_cases k count q ms i m
  have hkept : KeepsPairing m pruned := by
    rcases hpruned with ⟨-, rfl⟩ | ⟨-, -, rfl⟩ | rfl
    · exact KeepsPairing.result _ m
    · exact KeepsPairing.cleared _ m
    · exact KeepsPairing.refl pruned
  rcases hresult with ⟨-, hattachment, hsame⟩ | hsame
  · rw [prunesAttachment, Bool.and_eq_true, Bool.and_eq_true] at hattachment
    rw [hsame]
    exact hkept.trans (KeepsPairing.attachment (hkept.context.trans hattachment.1.1))
  · rw [hsame]
    exact hkept

theorem mayPrune_of_edited (hm : ms[i]? = some m)
    (hedited : Edited m (pruneMessage k count q ms i m)) :
    PrunableAt q.pressureMode ms i ∧ MayPrune ms (ms.mapIdx (pruneMessage k count q ms)) m := by
  obtain ⟨pruned, hpruned, ⟨hrange, hattachment, -⟩ | hsame⟩ := pruneMessage_cases k count q ms i m
  · refine ⟨prunableAt_of_range hrange, .inr ?_⟩
    rw [prunesAttachment, Bool.and_eq_true, Bool.and_eq_true] at hattachment
    obtain ⟨id, hid, hmem⟩ := (Option.any_eq_true _ _).mp hattachment.2
    exact ⟨id, replaced_of_pruneableCallIds (contains_iff_mem.mp hmem), .inr ⟨hattachment.1.1, hid⟩⟩
  rcases hpruned with ⟨hindex, -⟩ | ⟨hrange, hcalls, -⟩ | hkept
  · obtain ⟨result, hresult, hprunable, -⟩ := prunable_of_pruneable hindex
    rw [hm] at hresult
    cases hresult
    simp only [prunable, Bool.and_assoc, Bool.and_eq_true (_ || _)] at hprunable
    simp only [Bool.and_eq_true, Bool.not_eq_true', decide_eq_true_eq] at hprunable
    exact ⟨prunableAt_of_allow hprunable.1, .inl ⟨hprunable.2.2.1, hprunable.2.2.2.1⟩⟩
  · refine ⟨prunableAt_of_range hrange, .inr ?_⟩
    rw [prunesCalls, Bool.and_eq_true, decide_eq_true_eq] at hcalls
    obtain ⟨calls, hsome, hany⟩ := (Option.any_eq_true _ _).mp hcalls.2
    rw [Bool.and_eq_true, any_eq_true] at hany
    obtain ⟨⟨call, hcall, hidIn⟩, -⟩ := hany
    obtain ⟨id, hid, hkey⟩ := key_of_idIn (fun id hid => (of_pruneableCallIds hid).1) hidIn
    exact ⟨id, replaced_of_pruneableCallIds hid,
      .inl ⟨hcalls.1, call, by rw [hsome]; exact hcall, hkey⟩⟩
  · rw [hsame, hkept] at hedited
    exact absurd hedited (not_edited_self m)

theorem pruneProjectedMessages_cases (k : Codec) (count : String → Nat) (q : PruneRequest)
    (ms : List Message) :
    (pruneProjectedMessages k count q ms).1 = ms ∨
      (pruneProjectedMessages k count q ms).1 = ms.mapIdx (pruneMessage k count q ms) := by
  unfold pruneProjectedMessages
  split
  · exact .inl rfl
  · exact .inr rfl

theorem pruneProjectedMessages_kept (k : Codec) (count : String → Nat) (q : PruneRequest)
    (ms : List Message) :
    TranscriptKept ms (pruneProjectedMessages k count q ms).1 fun i m =>
      PrunableAt q.pressureMode ms i ∧ MayPrune ms (pruneProjectedMessages k count q ms).1 m := by
  rcases pruneProjectedMessages_cases k count q ms with hsame | hpruned
  · rw [hsame]
    refine ⟨rfl, ?_, ?_⟩
    · intro i m m' hm hm'
      obtain rfl := Option.some.inj (hm.symm.trans hm')
      exact KeepsPairing.refl m
    · intro i m m' hm hm' hedited
      obtain rfl := Option.some.inj (hm.symm.trans hm')
      exact absurd hedited (not_edited_self m)
  · rw [hpruned]
    refine ⟨length_mapIdx, ?_, ?_⟩
    · intro i m m' hm hm'
      rw [getElem?_mapIdx, hm, Option.map_some] at hm'
      cases hm'
      exact pruneMessage_keepsPairing m
    · intro i m m' hm hm' hedited
      rw [getElem?_mapIdx, hm, Option.map_some] at hm'
      cases hm'
      exact mayPrune_of_edited hm hedited

end

/-- Only delegation results and messages of eligible groups change, and nothing
frozen does. -/
def WellProjected (replay : Message → Prop) (ms ms' : List Message) : Prop :=
  TranscriptKept ms ms' (fun i m =>
      replay m ∨ ∃ g ∈ collectToolGroups ms, g.Eligible ∧ g.Owns i m) ∧
    ∀ (i : Nat) (m m' : Message), ms[i]? = some m → ms'[i]? = some m' → Frozen ms i m →
      ¬ Edited m m'

theorem not_frozen_of_replay {ms : List Message} {i : Nat} {m : Message} (hm : ms[i]? = some m)
    (hpart : m.OnePart) (hreplay : m.delegationResultReplay) : ¬ Frozen ms i m := by
  obtain ⟨hrole, hcalls, hplain⟩ := hpart.1.1 hreplay
  intro hfrozen
  rcases hfrozen with ⟨htool, -⟩ | ⟨g, hg, -, hi | hresult | hattachment⟩
  · exact hrole htool
  · have hfirst : g.callIds.head?.getD "" ∈ g.callIds := by
      obtain ⟨i, a, -, hgroup⟩ := mem_collectToolGroups.mp hg
      obtain ⟨-, ⟨-, -, -, hne⟩, -⟩ := groupAt_eq_some hgroup
      cases hids : g.callIds with
      | nil => exact absurd hids hne
      | cons => exact mem_cons_self
    obtain ⟨a, ha, hid⟩ := call_of_group hg hfirst
    rw [← hi, hm] at ha
    cases ha
    rw [hcalls] at hid
    cases hid
  · exact hrole (role_of_isResultOf hresult)
  · have hflag := (mem_of_isAttachmentOf hattachment).1
    rw [hplain] at hflag
    cases hflag

/-- In a transcript with unique call ids a projection changes delegation results
over the limit and messages of eligible groups only, and no message of one part
that is frozen; pruning changes, where it may, unprotected results, the assistant
messages and attachment contexts of results it replaces, and no protected result. -/
theorem projection_keeps_transcript (k : Codec) (count count' : String → Nat)
    (r : ProjectionRequest) (st : ProjectionTurnState) (q : PruneRequest) (ms : List Message)
    (huniq : UniqueCallIds ms) :
    let projected := (projectMessages k count r st ms).1.messages
    let pruned := (pruneProjectedMessages k count' q ms).1
    TranscriptKept ms projected (fun i m =>
        PrunableReplay k count r.policy.maxHistoricalToolResultTokens m ∨
          ∃ g ∈ collectToolGroups ms, g.Eligible ∧ g.Owns i m) ∧
      (∀ (i : Nat) (m m' : Message), ms[i]? = some m → projected[i]? = some m' → m.OnePart →
        Frozen ms i m → ¬ Edited m m') ∧
      TranscriptKept ms pruned (fun i m =>
        PrunableAt q.pressureMode ms i ∧ MayPrune ms pruned m) ∧
      (∀ (i : Nat) (m m' : Message), ms[i]? = some m → pruned[i]? = some m' → m.OnePart →
        m.role = .tool → m.protectedToolOutput → ¬ Edited m m') := by
  intro projected pruned
  have hprojected : ∀ (i : Nat) (m m' : Message), ms[i]? = some m → projected[i]? = some m' →
      Edited m m' → PrunableReplay k count r.policy.maxHistoricalToolResultTokens m ∨
        ∃ g ∈ collectToolGroups ms, g.Eligible ∧ g.Owns i m := by
    intro i m m' hm hm' hedited
    rcases projected_of_getElem? hm hm' with rfl | hreplay
    · obtain ⟨g, hg, howns⟩ := owned_of_projected hedited
      have hgroup := mem_compactedGroups hg
      rw [collectToolGroups_delegated] at hgroup
      exact .inr ⟨g, hgroup, eligible_of_compacted hg, howns⟩
    · exact .inl hreplay
  have hpruned := pruneProjectedMessages_kept k count' q ms
  refine ⟨⟨projectMessages_length, fun i m m' hm hm' => projectMessages_keepsPairing hm hm',
    hprojected⟩, ?_, hpruned, ?_⟩
  · intro i m m' hm hm' hpart hfrozen hedited
    rcases hprojected i m m' hm hm' hedited with hreplay | ⟨g, hg, heligible, howns⟩
    · exact not_frozen_of_replay hm hpart hreplay.1 hfrozen
    · exact not_frozen_of_owned huniq hm hpart hg heligible howns hfrozen
  · intro i m m' hm hm' hpart hrole hprotected hedited
    obtain ⟨-, ⟨-, hopen⟩ | ⟨id, -, ⟨hassistant, -⟩ | ⟨hcontext, -⟩⟩⟩ :=
      hpruned.changed i m m' hm hm' hedited
    · rw [hprotected] at hopen
      cases hopen
    · rw [hrole] at hassistant
      cases hassistant
    · rw [(hpart.1.2.1 hrole).2] at hcontext
      cases hcontext

def partlyProtectedBatch : List Message :=
  [{ role := .user, content := .str "read both" },
   { role := .assistant,
     toolCalls := some
      [.call (some "a") none (some { arguments := some (.str "\x7b\x7d"), name := some "read" }),
       .call (some "b") none (some { arguments := some (.str "\x7b\x7d"), name := some "read" })] },
   { role := .tool, toolCallId := some "a",
     content := .str (String.ofList (replicate 250 'x')) },
   { role := .tool, toolCallId := some "b", content := .str "kept", protectedToolOutput := true },
   { role := .user, content := .str "continue" }]

theorem partlyProtectedBatch_unique : UniqueCallIds partlyProtectedBatch where
  calls := by decide
  results := by decide

theorem projection_keeps_transcript_batch : TranscriptKept partlyProtectedBatch
      (pruneProjectedMessages plainCodec String.length ⟨100, 1, 0, 6000, .normal, [], none⟩
        partlyProtectedBatch).1 fun i m =>
          PrunableAt .normal partlyProtectedBatch i ∧ MayPrune partlyProtectedBatch
            (pruneProjectedMessages plainCodec String.length ⟨100, 1, 0, 6000, .normal, [], none⟩
              partlyProtectedBatch).1 m :=
  (projection_keeps_transcript plainCodec String.length String.length (strictRequest 500) {}
    ⟨100, 1, 0, 6000, .normal, [], none⟩ partlyProtectedBatch
    partlyProtectedBatch_unique).2.2.1

/-- Pruning goes by single results: it replaces the large one of the batch, though
the group has a protected one. -/
theorem pruning_changes_protected_group :
    UniqueCallIds partlyProtectedBatch ∧
      ¬ WellProjected (·.delegationResultReplay) partlyProtectedBatch
        (pruneProjectedMessages plainCodec String.length ⟨100, 1, 0, 6000, .normal, [], none⟩
          partlyProtectedBatch).1 := by
  refine ⟨partlyProtectedBatch_unique, ?_⟩
  intro hwell
  let pruned := (pruneProjectedMessages plainCodec String.length
    ⟨100, 1, 0, 6000, .normal, [], none⟩ partlyProtectedBatch).1
  have hedited : ∃ m' ∈ pruned[2]?, ∃ m ∈ partlyProtectedBatch[2]?, Edited m m' ∧
      m.delegationResultReplay = false := by
    decide +kernel
  have hnone : ∀ g ∈ collectToolGroups partlyProtectedBatch, ¬ g.Eligible := by decide +kernel
  obtain ⟨m', hm', m, hm, hchange, hplain⟩ := hedited
  rcases hwell.1.changed 2 m m' hm hm' hchange with hreplay | ⟨g, hg, heligible, -⟩
  · rw [hplain] at hreplay
    cases hreplay
  · exact hnone g hg heligible

end Cognis.Context
