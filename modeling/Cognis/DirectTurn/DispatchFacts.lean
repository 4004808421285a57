import Mathlib.Data.List.Nodup
import Cognis.DirectTurn.Dispatch

namespace Cognis.DirectTurn

open JsonValue List

variable {metadata : Members} {now sessionId : String} {turnId : Option String}

def IsObject : JsonValue → Prop
  | .obj _ => True
  | _ => False

instance : DecidablePred IsObject
  | .obj _ => isTrue trivial
  | .null | .bool _ | .num _ | .str _ | .arr _ => isFalse id

/-- A group that is read back as it was written. -/
structure ToolDispatchGroup.Readable (g : ToolDispatchGroup) : Prop where
  session : g.sessionId ≠ ""
  turn : g.turnId ≠ ""
  nonempty : g.toolCalls ≠ []
  objects : ∀ d ∈ g.toolCalls, IsObject d

def ToolDispatchGroup.stored (g : ToolDispatchGroup) : JsonValue :=
  .obj [("session_id", .str g.sessionId), ("turn_id", .str g.turnId),
    ("tool_calls", .arr g.toolCalls)]

theorem dictOf_mapM {ds : List JsonValue} (h : ∀ d ∈ ds, IsObject d) :
    ∃ ms, ds.mapM dictOf = some ms ∧ ms.map JsonValue.obj = ds := by
  induction ds with
  | nil => exact ⟨[], rfl, rfl⟩
  | cons d ds ih =>
    obtain ⟨ms, hms, hback⟩ := ih (fun x hx => h x (mem_cons_of_mem _ hx))
    cases d with
    | obj m =>
      refine ⟨m :: ms, ?_, by rw [map_cons, hback]⟩
      rw [mapM_cons, hms]
      rfl
    | null | bool | num | str | arr => exact absurd (h _ mem_cons_self) id

namespace ToolDispatchGroup.Readable

variable {g : ToolDispatchGroup}

theorem asJson (h : g.Readable) : g.asJson = some g.stored := by
  obtain ⟨ms, hms, hback⟩ := dictOf_mapM h.objects
  rw [ToolDispatchGroup.asJson, hms, Option.map_some, hback]
  rfl

theorem coerce (h : g.Readable) : coerceDispatchGroup g.stored = some g := by
  have hguard : ¬ (g.sessionId = "" ∨ g.turnId = "" ∨ g.toolCalls = []) := by
    rintro (hs | ht | hd)
    · exact h.session hs
    · exact h.turn ht
    · exact h.nonempty hd
  simp [ToolDispatchGroup.stored, coerceDispatchGroup, get?_cons, if_neg hguard]

end ToolDispatchGroup.Readable

variable {gs : List ToolDispatchGroup}

theorem asJson_mapM (h : ∀ g ∈ gs, g.Readable) :
    ∃ raws, gs.mapM ToolDispatchGroup.asJson = some raws ∧ raws.filterMap coerceDispatchGroup = gs ∧
      raws.filter (fun raw => (coerceDispatchGroup raw).isNone) = [] ∧ (raws = [] ↔ gs = []) := by
  induction gs with
  | nil => exact ⟨[], rfl, rfl, rfl, by simp⟩
  | cons g gs ih =>
    obtain ⟨raws, hraws, hback, hnone, -⟩ := ih (fun x hx => h x (mem_cons_of_mem _ hx))
    have hg := h g mem_cons_self
    refine ⟨g.stored :: raws, ?_, ?_, ?_, by simp⟩
    · rw [mapM_cons, hg.asJson, hraws]
      rfl
    · rw [filterMap_cons, hg.coerce, hback]
    · rw [filter_cons, hg.coerce, hnone]
      rfl

/-- An outcome that holds exactly these groups, whatever identity a legacy list
would fall back to, and no unreadable entry. -/
structure Holds (o : Members) (gs : List ToolDispatchGroup) : Prop where
  read : ∀ fallbackSession fallbackTurn, readToolDispatchGroups o fallbackSession fallbackTurn = gs
  unreadable : unreadableToolDispatchGroups o = []

/-- Writing readable groups and nothing else stores exactly them and leaves the
other entries alone. -/
theorem writeToolDispatchGroups_spec (o : Members) (h : ∀ g ∈ gs, g.Readable) :
    ∃ o', writeToolDispatchGroups o gs [] = some o' ∧ Holds o' gs ∧
      ∀ key, key ≠ "tool_dispatch_groups" → key ≠ "tool_calls" → get? o' key = get? o key := by
  obtain ⟨raws, hraws, hback, hnone, hempty⟩ := asJson_mapM h
  have herased (key : String) (h₁ : key ≠ "tool_dispatch_groups") (h₂ : key ≠ "tool_calls") :
      get? (eraseKeys o ["tool_dispatch_groups", "tool_calls"]) key = get? o key := by
    rw [get?_eraseKeys, if_neg (by simp [h₁, h₂])]
  have hgone : get? (eraseKeys o ["tool_dispatch_groups", "tool_calls"]) "tool_dispatch_groups"
      = none ∧ get? (eraseKeys o ["tool_dispatch_groups", "tool_calls"]) "tool_calls" = none := by
    constructor <;> rw [get?_eraseKeys, if_pos (by simp)]
  rw [writeToolDispatchGroups, hraws, Option.map_some]
  simp only [append_nil]
  by_cases hr : raws = []
  · rw [if_pos hr]
    refine ⟨_, rfl, ⟨?_, ?_⟩, herased⟩
    · intro fallbackSession fallbackTurn
      rw [readToolDispatchGroups, hgone.1, hgone.2, hempty.mp hr]
    · rw [unreadableToolDispatchGroups, hgone.1]
  · rw [if_neg hr]
    refine ⟨_, rfl, ⟨?_, ?_⟩, ?_⟩
    · intro fallbackSession fallbackTurn
      rw [readToolDispatchGroups, get?_insert_self]
      exact hback
    · rw [unreadableToolDispatchGroups, get?_insert_self]
      exact hnone
    · intro key h₁ h₂
      rw [get?_insert_of_ne _ _ h₁]
      exact herased key h₁ h₂

def InFlight (o : Members) : Prop := get? o "phase" = some (.str toolInFlightPhase)

instance (o : Members) : Decidable (InFlight o) := inferInstanceAs (Decidable (_ = _))

section

variable {r : DirectTurnRequestRow} {gs : List ToolDispatchGroup}

/-- `{"phase": .., "phase_started_at": .., **metadata}` names its phase unless
the metadata sets one. -/
theorem phase_of_update {phase : String} {started : JsonValue}
    (h : "phase" ∉ metadata.map Prod.fst) :
    get? (JsonValue.update [("phase", .str phase), ("phase_started_at", started)] metadata) "phase"
      = some (.str phase) := by
  rw [get?_update_of_notMem _ h, get?_cons, if_pos rfl]

section

variable (hr : Holds r.outcomeDict gs) (hgs : ∀ g ∈ gs, g.Readable)

include hr hgs

theorem recordOutcome_spec {descriptors : List JsonValue} (hturn : r.turnId ≠ "")
    (hsession : sessionId ≠ "") (hne : descriptors ≠ []) (hobj : ∀ d ∈ descriptors, IsObject d)
    (hphase : "phase" ∉ metadata.map Prod.fst) :
    ∃ o, recordOutcome r now sessionId turnId descriptors metadata = some o ∧
      Holds o (replaceDispatchGroup gs ⟨sessionId, resolveDispatchTurnId turnId r, descriptors⟩) ∧
      (∀ g ∈ replaceDispatchGroup gs ⟨sessionId, resolveDispatchTurnId turnId r, descriptors⟩,
        g.Readable) ∧ InFlight o := by
  have hresolved : resolveDispatchTurnId turnId r ≠ "" := by
    unfold resolveDispatchTurnId
    split
    · split
      · exact hturn
      · assumption
    · exact hturn
  have hall : ∀ g ∈ replaceDispatchGroup gs
      ⟨sessionId, resolveDispatchTurnId turnId r, descriptors⟩, g.Readable := by
    intro g hg
    rcases mem_append.mp hg with hold | hnew
    · exact hgs g (mem_filter.mp hold).1
    · rw [mem_singleton.mp hnew]
      exact ⟨hsession, hresolved, hne, hobj⟩
  obtain ⟨o, ho, hholds, hother⟩ := writeToolDispatchGroups_spec
    (JsonValue.update [("phase", .str toolInFlightPhase), ("phase_started_at", .str now)] metadata)
    hall
  refine ⟨o, ?_, hholds, hall, ?_⟩
  · rw [recordOutcome]
    simp only [hr.read, hr.unreadable, filter_nil]
    exact ho
  · rw [InFlight, hother "phase" (by decide) (by decide)]
    exact phase_of_update hphase

theorem completeOutcome_spec {callIds : List String} (hphase : "phase" ∉ metadata.map Prod.fst) :
    ∃ o, completeOutcome r now sessionId turnId callIds metadata = some o ∧
      Holds o (gs.filter (fun g => g.key ≠ (sessionId, resolveDispatchTurnId turnId r))) ∧
      (InFlight o ↔
        gs.filter (fun g => g.key ≠ (sessionId, resolveDispatchTurnId turnId r)) ≠ []) := by
  rw [completeOutcome]
  simp only [hr.read, hr.unreadable, and_true]
  generalize hrem : gs.filter (fun g => g.key ≠ (sessionId, resolveDispatchTurnId turnId r))
    = remaining
  have hall : ∀ g ∈ remaining, g.Readable := by
    intro g hg
    rw [← hrem] at hg
    exact hgs g (mem_filter.mp hg).1
  obtain ⟨o, ho, hholds, hother⟩ := writeToolDispatchGroups_spec
    (insert (JsonValue.update (if remaining = [] then
        [("phase", .str toolResultPersistedPhase), ("phase_started_at", .str now)]
      else [("phase", .str toolInFlightPhase),
        ("phase_started_at", keptPhaseStart r.outcomeDict now)]) metadata) "call_ids"
      (.arr ((callIds.take toolDispatchDescriptorLimit).map .str))) hall
  refine ⟨o, ho, hholds, ?_⟩
  rw [InFlight, hother "phase" (by decide) (by decide), get?_insert_of_ne _ _ (by decide)]
  by_cases hempty : remaining = []
  · rw [if_pos hempty, phase_of_update hphase]
    simp [hempty, toolInFlightPhase, toolResultPersistedPhase]
  · rw [if_neg hempty, phase_of_update hphase]
    simp [hempty]

theorem checkpointOutcome_spec {phase : String} (hnot : phase ≠ toolInFlightPhase)
    (hphase : "phase" ∉ metadata.map Prod.fst) :
    ∃ o, checkpointOutcome r now phase metadata false = some o ∧ Holds o gs ∧
      (InFlight o ↔ gs ≠ []) := by
  rw [checkpointOutcome]
  simp only [hr.read, hr.unreadable, and_true, Bool.false_eq_true, if_false]
  by_cases hempty : gs = []
  · subst hempty
    have hnone : ∀ g ∈ ([] : List ToolDispatchGroup), g.Readable := by simp
    obtain ⟨o, ho, hholds, hother⟩ := writeToolDispatchGroups_spec
      (JsonValue.update [("phase", .str phase), ("phase_started_at", .str now)] metadata) hnone
    refine ⟨o, ho, hholds, ?_⟩
    rw [InFlight, hother "phase" (by decide) (by decide), phase_of_update hphase]
    simp [hnot]
  · rw [if_neg hempty]
    obtain ⟨o, ho, hholds, hother⟩ := writeToolDispatchGroups_spec _ hgs
    refine ⟨o, ho, hholds, ?_⟩
    rw [InFlight, hother "phase" (by decide) (by decide)]
    simp [update_cons, get?_insert, hempty]

theorem mergeOutcome_spec {b : DispatchBinding} {o : Members}
    (h : mergeOutcome r sessionId turnId b = some o) :
    ∃ owner ∈ gs, owner.key = (sessionId, resolveDispatchTurnId turnId r) ∧
      Holds o (replaceDispatchGroup gs ⟨owner.sessionId, owner.turnId,
        (objectDescriptors owner.toolCalls).map (fun m => .obj (b.bind m).1)⟩) ∧
      (∀ g ∈ replaceDispatchGroup gs ⟨owner.sessionId, owner.turnId,
        (objectDescriptors owner.toolCalls).map (fun m => .obj (b.bind m).1)⟩, g.Readable) ∧
      (InFlight o ↔ InFlight r.outcomeDict) := by
  rw [mergeOutcome] at h
  simp only [hr.read, hr.unreadable] at h
  split at h
  · cases h
  · rename_i owner hfind
    have howner := mem_of_find?_eq_some hfind
    have hkey : owner.key = (sessionId, resolveDispatchTurnId turnId r) := by
      simpa using find?_some hfind
    have hmap : ((objectDescriptors owner.toolCalls).map b.bind).map (fun p => JsonValue.obj p.1)
        = (objectDescriptors owner.toolCalls).map (fun m => .obj (b.bind m).1) := by
      rw [map_map]
      rfl
    split at h
    · rename_i hany
      rw [hmap] at h
      have hne : objectDescriptors owner.toolCalls ≠ [] := by
        intro hnil
        rw [hnil] at hany
        cases hany
      have hall : ∀ g ∈ replaceDispatchGroup gs ⟨owner.sessionId, owner.turnId,
          (objectDescriptors owner.toolCalls).map (fun m => .obj (b.bind m).1)⟩, g.Readable := by
        intro g hg
        rcases mem_append.mp hg with hold | hnew
        · exact hgs g (mem_filter.mp hold).1
        · rw [mem_singleton.mp hnew]
          refine ⟨(hgs owner howner).session, (hgs owner howner).turn, by simpa using hne, ?_⟩
          intro d hd
          obtain ⟨m, -, rfl⟩ := mem_map.mp hd
          trivial
      obtain ⟨o', ho', hholds, hother⟩ := writeToolDispatchGroups_spec r.outcomeDict hall
      obtain rfl : o' = o := Option.some.inj (ho'.symm.trans h)
      refine ⟨owner, howner, hkey, hholds, hall, ?_⟩
      rw [InFlight, InFlight, hother "phase" (by decide) (by decide)]
    · cases h

end

end

end Cognis.DirectTurn
