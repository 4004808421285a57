import Cognis.Context.Decisions
import Cognis.Context.Preservation

namespace Cognis.Context

open Bool List

variable {id : String} {ids : List String}

def allCalls (ms : List Message) : List ToolCall := ms.flatMap fun m => m.toolCalls.getD []

def Message.resultKey (m : Message) : Option String := if m.role = .tool then m.toolCallId else none

/-- A delegation result that is compacted together with the estimate it was measured by. -/
def measuredReplay (k : Codec) (m : Message) (estimate : Nat) : Message :=
  { forceDelegationReplay k m with tokenEstimate := some estimate }

section

theorem index_of_nodup_filterMap {α β : Type} {f : α → Option β} {l : List α}
    (h : (l.filterMap f).Nodup) {i j : Nat} {a b : α} {x : β} (hi : l[i]? = some a)
    (hj : l[j]? = some b) (ha : f a = some x) (hb : f b = some x) : i = j := by
  induction l generalizing i j with
  | nil => cases hi
  | cons c l ih =>
    have hhead : ∀ {j : Nat} {b : α}, f c = some x → l[j]? = some b → f b ≠ some x := by
      intro j b hc hj hb
      rw [filterMap_cons_some hc, nodup_cons] at h
      exact h.1 (mem_filterMap.mpr ⟨b, mem_of_getElem? hj, hb⟩)
    have htail : (l.filterMap f).Nodup := by
      cases hc : f c with
      | none => rwa [filterMap_cons_none hc] at h
      | some y =>
        rw [filterMap_cons_some hc, nodup_cons] at h
        exact h.2
    cases i with
    | zero =>
      cases hi
      cases j with
      | zero => rfl
      | succ j => exact absurd hb (hhead ha hj)
    | succ i =>
      cases j with
      | zero =>
        cases hj
        exact absurd ha (hhead hb hi)
      | succ j => rw [ih htail hi hj]

theorem eq_of_nodup_filterMap {α β : Type} {f : α → Option β} {l : List α}
    (h : (l.filterMap f).Nodup) {a b : α} {x : β} (ha : a ∈ l) (hb : b ∈ l)
    (hfa : f a = some x) (hfb : f b = some x) : a = b := by
  obtain ⟨i, hi⟩ := mem_iff_getElem?.mp ha
  obtain ⟨j, hj⟩ := mem_iff_getElem?.mp hb
  have hij := index_of_nodup_filterMap h hi hj hfa hfb
  rw [hij, hj] at hi
  exact (Option.some.inj hi).symm

end

section

variable {k : Codec} {count : String → Nat} {r : ProjectionRequest} {st : ProjectionTurnState}
  {ms : List Message} {m : Message} {i : Nat}

theorem mem_callIdsOf {calls : List ToolCall} :
    id ∈ callIdsOf calls ↔ id ≠ "" ∧ ∃ call ∈ calls, call.key = some id := by
  rw [callIdsOf, mem_eraseDups, mem_filterMap]
  constructor
  · rintro ⟨call, hcall, hkey⟩
    rw [Option.filter_eq_some_iff] at hkey
    exact ⟨of_decide_eq_true hkey.2, call, hcall, hkey.1⟩
  · rintro ⟨hne, call, hcall, hkey⟩
    refine ⟨call, hcall, ?_⟩
    rw [Option.filter_eq_some_iff]
    exact ⟨hkey, decide_eq_true hne⟩

theorem getElem?_delegated_cases (k : Codec) (count : String → Nat) (r : ProjectionRequest)
    (hm : ms[i]? = some m) :
    (delegated k count r ms)[i]? = some m ∨
      m.delegationResultReplay ∧ 0 < r.policy.maxHistoricalToolResultTokens ∧
        r.policy.maxHistoricalToolResultTokens < m.estimate k count ∧
        (delegated k count r ms)[i]? = some (measuredReplay k m (m.estimate k count)) := by
  rw [delegated, compactPrunable_eq_map, getElem?_map, hm, Option.map_some]
  by_cases hlimit : r.policy.maxHistoricalToolResultTokens = 0
  · exact .inl (by rw [if_pos hlimit])
  · rw [if_neg hlimit, compactDelegationReplay]
    by_cases hlarge : (m.delegationResultReplay &&
        decide (r.policy.maxHistoricalToolResultTokens < m.estimate k count))
    · rw [if_pos hlarge]
      rw [and_eq_true, decide_eq_true_eq] at hlarge
      exact .inr ⟨hlarge.1, Nat.pos_of_ne_zero hlimit, hlarge.2, rfl⟩
    · exact .inl (by rw [if_neg hlarge])

theorem getElem?_projected {d : Message} (hd : (delegated k count r ms)[i]? = some d) :
    (projectMessages k count r st ms).1.messages[i]? =
      some (projectMessage k r (compactedGroups k count r st (delegated k count r ms)) i d) := by
  rw [projectMessages_messages, getElem?_mapIdx, hd, Option.map_some]

theorem role_of_isResultOf (h : m.isResultOf ids) : m.role = .tool := by
  rw [Message.isResultOf, and_eq_true] at h
  exact of_decide_eq_true h.1

end

section

variable {k : Codec} {count : String → Nat} {r : PruneRequest} {ms : List Message} {i : Nat}

theorem mem_pruneWalk {spent : Nat} {walked : List (Nat × Message)}
    (h : i ∈ pruneWalk k count r ms spent walked) :
    ∃ m, (i, m) ∈ walked ∧ prunable count r ms i m ∧
      compactionShrinksToolResult k m := by
  induction walked generalizing spent with
  | nil => cases h
  | cons p older ih =>
    obtain ⟨j, m⟩ := p
    have holder : ∀ {spent : Nat}, i ∈ pruneWalk k count r ms spent older →
        ∃ m', (i, m') ∈ (j, m) :: older ∧ prunable count r ms i m' ∧
          compactionShrinksToolResult k m' := by
      intro spent hi
      obtain ⟨m', hm', hfacts⟩ := ih hi
      exact ⟨m', mem_cons_of_mem _ hm', hfacts⟩
    rw [pruneWalk] at h
    split at h
    · rename_i hprunable
      split at h
      · exact holder h
      · split at h
        · rename_i hshrinks
          rcases mem_cons.mp h with rfl | hi
          · exact ⟨m, mem_cons_self, hprunable, hshrinks⟩
          · exact holder hi
        · exact holder h
    · exact holder h

theorem prunable_of_pruneable (h : i ∈ pruneableResultIndices k count r ms) :
    ∃ m, ms[i]? = some m ∧ prunable count r ms i m ∧
      compactionShrinksToolResult k m := by
  obtain ⟨m, hm, hprunable, hshrinks⟩ := mem_pruneWalk h
  rw [newestFirst, mem_reverse] at hm
  have hzip := mem_of_mem_drop hm
  rw [mem_map] at hzip
  obtain ⟨⟨m', j⟩, hmem, heq⟩ := hzip
  obtain ⟨rfl, rfl⟩ := Prod.mk.inj heq
  rw [mem_zipIdx_iff_getElem?] at hmem
  exact ⟨m', hmem, hprunable, hshrinks⟩

theorem of_pruneable (h : i ∈ pruneableResultIndices k count r ms) :
    ∃ m, ms[i]? = some m ∧ m.role = .tool ∧ m.projectedCompacted = false ∧
      compactionShrinksToolResult k m := by
  obtain ⟨m, hm, hprunable, hshrinks⟩ := prunable_of_pruneable h
  simp only [prunable, and_eq_true, not_eq_true', decide_eq_true_eq] at hprunable
  exact ⟨m, hm, hprunable.1.1.1.2, hprunable.1.2, hshrinks⟩

theorem of_pruneableCallIds (h : id ∈ pruneableCallIds k count r ms) :
    id ≠ "" ∧ ∃ (j : Nat) (m : Message), ms[j]? = some m ∧ m.role = .tool ∧
      m.toolCallId = some id ∧ compactionShrinksToolResult k m := by
  rw [pruneableCallIds, mem_filterMap] at h
  obtain ⟨j, hj, hid⟩ := h
  rw [Option.filter_eq_some_iff] at hid
  obtain ⟨m, hm, hrole, -, hshrinks⟩ := of_pruneable hj
  rw [hm, Option.bind_some] at hid
  exact ⟨of_decide_eq_true hid.2, j, m, hm, hrole, hid.1, hshrinks⟩

theorem key_of_idIn (hne : ∀ id ∈ ids, id ≠ "") {call : ToolCall}
    (h : call.idIn ids) : ∃ id ∈ ids, call.key = some id := by
  cases call with
  | other => cases h
  | call =>
    obtain ⟨id', rfl, hmem⟩ := (Option.any_eq_true _ _).mp h
    rw [contains_iff_mem] at hmem
    refine ⟨id', hmem, ?_⟩
    have hid : (some id').any (· ≠ "") := decide_eq_true (hne id' hmem)
    rw [ToolCall.key, orElse, if_pos hid]

end

end Cognis.Context
