import Cognis.WorkflowEngine.Logic

namespace Cognis.WorkflowEngine

open List Option

/-! What an iteration leaves in place until its last commit: the position, the
skips, the generations and what the step runs say about them. -/

theorem append_ne_of_head {a b : String} {c d : Char} (ha : a.toList.head? = some c)
    (hb : b.toList.head? = some d) (hcd : c ≠ d) (x y : String) : a ++ x ≠ b ++ y := by
  intro h
  have hhead := congrArg (fun text => text.toList.head?) h
  rw [String.toList_append, String.toList_append, head?_append, head?_append, ha, hb] at hhead
  exact hcd (some.inj hhead)

variable (name : String) (u : StepRunUpdate) (row : StepRun)

theorem generationKey_ne_attemptsKey (target : String) : generationKey name ≠ attemptsKey target :=
  append_ne_of_head (c := 'd') (d := 'a') (by decide) (by decide) (by decide) name target

theorem generationKey_ne_recoveryKey (step : String) : generationKey name ≠ recoveryKey step :=
  append_ne_of_head (c := 'd') (d := 'r') (by decide) (by decide) (by decide) name step

theorem generationKey_ne_transientKey (step : String) : generationKey name ≠ transientKey step :=
  append_ne_of_head (c := 'd') (d := 't') (by decide) (by decide) (by decide) name step

theorem generationKey_ne_routeLoop (loop : RouteLoop) : generationKey name ≠ loop.key := by
  rw [RouteLoop.key, conditionLoopKey, String.append_assoc, String.append_assoc]
  exact append_ne_of_head (c := 'd') (d := 'c') (by decide) (by decide) (by decide) name _

namespace WorkflowState

variable {s : WorkflowState} {key name : String} {n : Nat}

theorem iterations_setIterations (j : String) (d : Nat) :
    (s.setIterations key n).iterations j d = if j = key then n else s.iterations j d := by
  unfold iterations setIterations
  rw [OrderedMap.get?_set]
  split <;> rfl

theorem iterations_popIterations (j : String) (d : Nat) :
    (s.popIterations key).iterations j d = if j = key then d else s.iterations j d := by
  unfold iterations popIterations
  rw [OrderedMap.get?_erase]
  split <;> rfl

theorem generation_le_setIterations (h : s.iterations key 0 ≤ n) (name : String) :
    s.generation name ≤ (s.setIterations key n).generation name := by
  rw [generation, generation, iterations_setIterations]
  split
  · rename_i hk
    rw [hk]
    exact h
  · exact Nat.le_refl _

theorem generation_setIterations_of_ne (h : generationKey name ≠ key) :
    (s.setIterations key n).generation name = s.generation name := by
  rw [generation, iterations_setIterations, if_neg h, generation]

theorem generation_popIterations_of_ne (h : generationKey name ≠ key) :
    (s.popIterations key).generation name = s.generation name := by
  rw [generation, iterations_popIterations, if_neg h, generation]

def Live (s : WorkflowState) : Prop := s.status ≠ .failed ∧ s.status ≠ .cancelled

theorem live_of_running (h : s.status = .running) : s.Live := by simp [Live, h]

theorem live_of_paused (h : s.status = .paused) : s.Live := by simp [Live, h]

end WorkflowState

/-- From `s` to `t` the position moves to `index`, the skips grow by `skips` and
no generation goes back. -/
structure Shifted (s : WorkflowState) (skips : List String) (index : Nat) (t : WorkflowState) :
    Prop where
  index : t.currentStepIndex = index
  skipped : t.skippedSteps = s.skippedSteps ++ skips
  generation : ∀ name, s.generation name ≤ t.generation name

/-- A shifted state that stays live. -/
structure Moved (s : WorkflowState) (skips : List String) (index : Nat) (t : WorkflowState) : Prop
    extends Shifted s skips index t where
  live : s.Live → t.Live

/-- Nothing of this changes. -/
abbrev Kept (s t : WorkflowState) : Prop := Moved s [] s.currentStepIndex t

variable {s t : WorkflowState} {skips : List String} {index : Nat}

theorem Kept.refl (s : WorkflowState) : Kept s s :=
  ⟨⟨rfl, (append_nil _).symm, fun _ => Nat.le_refl _⟩, id⟩

theorem Moved.congr {u : WorkflowState} (h : Moved s skips index t)
    (hindex : u.currentStepIndex = t.currentStepIndex) (hskipped : u.skippedSteps = t.skippedSteps)
    (hloops : u.loopIterations = t.loopIterations) (hlive : t.Live → u.Live) :
    Moved s skips index u where
  index := hindex.trans h.index
  skipped := hskipped.trans h.skipped
  generation name := by
    have hg : u.generation name = t.generation name := by
      rw [WorkflowState.generation, WorkflowState.iterations, hloops]
      rfl
    rw [hg]
    exact h.generation name
  live hs := hlive (h.live hs)

variable {key : String}

theorem Moved.setIterations {n : Nat} (h : Moved s skips index t)
    (hn : t.iterations key 0 ≤ n) : Moved s skips index (t.setIterations key n) :=
  ⟨⟨h.index, h.skipped,
    fun name => (h.generation name).trans (WorkflowState.generation_le_setIterations hn name)⟩,
    h.live⟩

theorem Moved.setIterations_of_ne {n : Nat} (h : Moved s skips index t)
    (hkey : ∀ name, generationKey name ≠ key) : Moved s skips index (t.setIterations key n) := by
  refine ⟨⟨h.index, h.skipped, ?_⟩, h.live⟩
  intro name
  rw [WorkflowState.generation_setIterations_of_ne (hkey name)]
  exact h.generation name

theorem Moved.popIterations (h : Moved s skips index t)
    (hkey : ∀ name, generationKey name ≠ key) : Moved s skips index (t.popIterations key) := by
  refine ⟨⟨h.index, h.skipped, ?_⟩, h.live⟩
  intro name
  rw [WorkflowState.generation_popIterations_of_ne (hkey name)]
  exact h.generation name

section

variable (h : Kept s t)
include h

theorem Kept.goto (index : Nat) :
    Moved s [] index { t with currentStepIndex := index } :=
  ⟨⟨rfl, h.skipped, h.generation⟩, h.live⟩

theorem Kept.reviseTo (target : String) (index : Nat) :
    Moved s [] index (reviseTo t target index) :=
  (h.goto index).popIterations fun name => generationKey_ne_attemptsKey name target

theorem Kept.clearNotes : Kept s (clearNotes t) := h.congr rfl rfl rfl id

theorem Kept.resumed (action : Action) (instruction : String) :
    Kept s (resumedState t action instruction) :=
  h.congr rfl rfl rfl fun _ => WorkflowState.live_of_running rfl

theorem Kept.paused (workflow : Workflow) (gateName : String) (gate : GateConfig) :
    Kept s (pausedState workflow gateName gate t) :=
  h.congr rfl rfl rfl fun _ => WorkflowState.live_of_paused rfl

end

def StepRun.generation : Option Nat := row.runtimeInfo.deterministicGeneration

/-- The rows are numbered in the order of their creation; each keeps its step, its
generation and its arrival, and the new ones are `fresh`. -/
structure RowsKept (fresh : StepRun → Prop) (base rows : List StepRun) : Prop where
  numbered : ∀ (i : Nat) (row : StepRun), rows[i]? = some row → row.stepRunId = i
  old : ∀ (i : Nat) (row : StepRun), rows[i]? = some row →
    (∃ before : StepRun, base[i]? = some before ∧ row.stepName = before.stepName ∧
      row.generation = before.generation ∧ row.startedAt = before.startedAt) ∨ fresh row

variable {fresh : StepRun → Prop} {base rows : List StepRun}

theorem RowsKept.refl (h : ∀ (i : Nat) (row : StepRun), rows[i]? = some row → row.stepRunId = i) :
    RowsKept fresh rows rows :=
  ⟨h, fun _ row hrow => .inl ⟨row, hrow, rfl, rfl, rfl⟩⟩

theorem RowsKept.map (h : RowsKept fresh base rows) (f : StepRun → StepRun)
    (hid : ∀ row ∈ rows, (f row).stepRunId = row.stepRunId)
    (hname : ∀ row ∈ rows, (f row).stepName = row.stepName)
    (hgen : ∀ row ∈ rows, (f row).generation = row.generation)
    (hstart : ∀ row ∈ rows, (f row).startedAt = row.startedAt)
    (hfresh : ∀ row ∈ rows, fresh row → fresh (f row)) : RowsKept fresh base (rows.map f) := by
  have hcase (i : Nat) (row : StepRun) (hrow : (rows.map f)[i]? = some row) :
      ∃ before, rows[i]? = some before ∧ before ∈ rows ∧ f before = row := by
    rw [getElem?_map, map_eq_some_iff] at hrow
    obtain ⟨before, hbefore, rfl⟩ := hrow
    exact ⟨before, hbefore, mem_of_getElem? hbefore, rfl⟩
  refine ⟨?_, ?_⟩
  · intro i row hrow
    obtain ⟨before, hbefore, hmem, rfl⟩ := hcase i row hrow
    rw [hid before hmem]
    exact h.numbered i before hbefore
  · intro i row hrow
    obtain ⟨before, hbefore, hmem, rfl⟩ := hcase i row hrow
    rcases h.old i before hbefore with ⟨first, hfirst, hn, hg, hs⟩ | hf
    · exact .inl ⟨first, hfirst, (hname before hmem).trans hn, (hgen before hmem).trans hg,
        (hstart before hmem).trans hs⟩
    · exact .inr (hfresh before hmem hf)

def Stamped (fresh : StepRun → Prop) : Prop :=
  ∀ row other : StepRun, other.stepName = row.stepName → other.generation = row.generation →
    other.startedAt = row.startedAt → fresh row → fresh other

theorem StepRunUpdate.applyTo_stepRunId : (u.applyTo row).stepRunId = row.stepRunId := by
  unfold applyTo
  split <;> rfl

theorem StepRunUpdate.applyTo_stepName : (u.applyTo row).stepName = row.stepName := by
  unfold applyTo
  split <;> rfl

theorem StepRunUpdate.applyTo_startedAt : (u.applyTo row).startedAt = row.startedAt := by
  unfold applyTo
  split <;> rfl

variable {u : StepRunUpdate} {row : StepRun} {id : Nat}

theorem StepRunUpdate.applyTo_generation
    (h : ∀ info, u.runtimeInfo = some info → info.deterministicGeneration = row.generation) :
    (u.applyTo row).generation = row.generation := by
  unfold applyTo
  split
  · cases hu : u.runtimeInfo with
    | none => simp [StepRun.generation]
    | some info =>
      exact h info hu
  · rfl

section

variable (h : RowsKept fresh base rows)
include h

theorem RowsKept.update (hstamp : Stamped fresh) (arrival : Nat)
    (hu : ∀ info, u.runtimeInfo = some info →
      ∀ row : StepRun, rows[id]? = some row → info.deterministicGeneration = row.generation) :
    RowsKept fresh base (Write.applyTo arrival rows (.update id u)) := by
  have hgen (row : StepRun) (hrow : row ∈ rows) (hid : row.stepRunId = id) :
      (u.applyTo row).generation = row.generation := by
    apply StepRunUpdate.applyTo_generation
    intro info hinfo
    obtain ⟨i, hi⟩ := mem_iff_getElem?.mp hrow
    have heq : i = id := (h.numbered i row hi).symm.trans hid
    exact hu info hinfo row (heq ▸ hi)
  apply h.map
  · intro row _
    split
    · exact u.applyTo_stepRunId row
    · rfl
  · intro row _
    split
    · exact u.applyTo_stepName row
    · rfl
  · intro row hrow
    split
    · rename_i hid
      exact hgen row hrow hid
    · rfl
  · intro row _
    split
    · exact u.applyTo_startedAt row
    · rfl
  · intro row hrow hf
    split
    · rename_i hid
      exact hstamp row _ (u.applyTo_stepName row) (hgen row hrow hid) (u.applyTo_startedAt row) hf
    · exact hf

theorem RowsKept.failRunning (hstamp : Stamped fresh) (arrival : Nat)
    (status : StepRunStatus) :
    RowsKept fresh base (Write.applyTo arrival rows (.failRunning status)) := by
  apply h.map
  · intro row _
    split <;> rfl
  · intro row _
    split <;> rfl
  · intro row _
    split <;> rfl
  · intro row _
    split <;> rfl
  · intro row _ hf
    split
    · exact hstamp row _ rfl rfl rfl hf
    · exact hf

theorem RowsKept.create (arrival : Nat)
    (hid : row.stepRunId = rows.length) (hfresh : fresh { row with startedAt := arrival }) :
    RowsKept fresh base (Write.applyTo arrival rows (.create row)) := by
  have hcase (i : Nat) (other : StepRun)
      (hi : (Write.applyTo arrival rows (.create row))[i]? = some other) :
      rows[i]? = some other ∨ (i = rows.length ∧ other = { row with startedAt := arrival }) := by
    rw [Write.applyTo, getElem?_append] at hi
    split at hi
    · exact .inl hi
    · rw [getElem?_singleton] at hi
      split at hi
      · exact .inr ⟨by omega, (some.inj hi).symm⟩
      · cases hi
  refine ⟨?_, ?_⟩
  · intro i other hi
    rcases hcase i other hi with hold | ⟨rfl, rfl⟩
    · exact h.numbered i other hold
    · exact hid
  · intro i other hi
    rcases hcase i other hi with hold | ⟨rfl, rfl⟩
    · exact h.old i other hold
    · exact .inr hfresh

end

theorem mem_of_latestStepRun {name : String}
    (h : latestStepRun rows name = some row) : row ∈ rows ∧ row.stepName = name := by
  let Listed (best : Option StepRun) : Prop := ∀ r, best = some r → r ∈ rows ∧ r.stepName = name
  have hnone : Listed none := by
    intro r hr
    cases hr
  refine foldlRecOn (motive := Listed) _ _ hnone ?_ row h
  intro best hbest a ha r hr
  have hmem : a ∈ rows ∧ a.stepName = name := by simpa using mem_filter.mp ha
  cases best with
  | none =>
    cases hr
    exact hmem
  | some =>
    dsimp only at hr
    split at hr
    · cases hr
      exact hmem
    · exact hbest r hr

theorem RowsKept.latest (h : RowsKept fresh base rows) {name : String}
    (hrow : latestStepRun rows name = some row) : rows[row.stepRunId]? = some row := by
  obtain ⟨i, hi⟩ := mem_iff_getElem?.mp (mem_of_latestStepRun hrow).1
  rw [h.numbered i row hi]
  exact hi

/-- The records of an iteration that has moved the position to `index` and the
skips by `skips` since `base`. -/
structure Placed (fresh : StepRun → Prop) (base : World) (skips : List String) (index : Nat)
    (w : World) : Prop where
  state : Moved base.state skips index w.state
  arrivals : w.arrivals =
    if index = base.state.currentStepIndex then base.arrivals else base.arrivals + 1
  rows : RowsKept fresh base.rows w.rows
  active : w.taskStatus.terminal = false

/-- The records of an iteration that has moved nothing yet. -/
abbrev Held (fresh : StepRun → Prop) (base w : World) : Prop :=
  Placed fresh base [] base.state.currentStepIndex w

section

variable {base w : World}

theorem Held.refl (hrows : ∀ (i : Nat) (row : StepRun), w.rows[i]? = some row → row.stepRunId = i)
    (hactive : w.taskStatus.terminal = false) : Held fresh w w :=
  ⟨Kept.refl w.state, by rw [if_pos rfl], RowsKept.refl hrows, hactive⟩

theorem Held.persist (h : Held fresh base w) {u : WorkflowState} {task : TaskStatus}
    (hu : Moved base.state skips index u) (htask : task.terminal = false) :
    Placed fresh base skips index (w.persist u task) where
  state := hu
  arrivals := by
    have ha := h.arrivals
    rw [if_pos rfl] at ha
    simp only [World.persist, hu.index, h.state.index, ha]
  rows := h.rows
  active := htask

theorem Held.withRows (h : Held fresh base w) {writes : List Write}
    (hrows : RowsKept fresh base.rows (w.commit writes).rows) :
    Held fresh base (w.commit writes) :=
  ⟨h.state, h.arrivals, hrows, h.active⟩

theorem Held.dispatched (h : Held fresh base w) (call : ToolCall) :
    Held fresh base (w.after (.dispatch call)) :=
  ⟨h.state, h.arrivals, h.rows, h.active⟩

/-- The row numbered `id` has the generation `info` says. -/
def Owns (w : World) (id : Nat) (info : RuntimeInfo) : Prop :=
  ∀ row : StepRun, w.rows[id]? = some row → info.deterministicGeneration = row.generation

theorem Held.update (h : Held fresh base w) (hstamp : Stamped fresh)
    (hu : ∀ info, u.runtimeInfo = some info → Owns w id info) :
    Held fresh base (w.commit [.update id u]) :=
  h.withRows (h.rows.update hstamp w.arrivals fun info hinfo => hu info hinfo)

theorem Owns.commit_update {info : RuntimeInfo} (h : Owns w id info)
    (hu : ∀ other, u.runtimeInfo = some other →
      other.deterministicGeneration = info.deterministicGeneration) :
    Owns (w.commit [.update id u]) id info := by
  intro row hrow
  have hrow' : (w.rows.map fun row => if row.stepRunId = id then u.applyTo row else row)[id]? =
      some row := hrow
  rw [getElem?_map, map_eq_some_iff] at hrow'
  obtain ⟨before, hbefore, rfl⟩ := hrow'
  rw [h before hbefore]
  split
  · exact (StepRunUpdate.applyTo_generation fun other ho =>
      (hu other ho).trans (h before hbefore)).symm
  · rfl

end

end Cognis.WorkflowEngine
