import Cognis.Schedule.Effects

namespace Cognis.Schedule

open List

variable {taskId : FireKey} {t : TaskRow} {s s' : TaskStatus}

/-- The task exists and is no draft. -/
def Launched (db : Database) (taskId : FireKey) : Prop :=
  ∃ t, db.getTask taskId = some t ∧ t.status ≠ .draft

/-- The row after a call: the same, moved on, or queued from a draft. -/
def TaskRow.BecomesIn (t : TaskRow) (db : Database) : Prop :=
  ∃ t', db.getTask t.taskId = some t' ∧ (t' = t ∨ t.status.MovesTo t'.status ∨
      (t.status = .draft ∧ t' = { t with status := .queued }))

section

variable {db db' : Database} {call : Call}

theorem getTask_taskId (h : db.getTask taskId = some t) : t.taskId = taskId := by
  have hfound := find?_some h
  exact of_decide_eq_true hfound

variable {f : TaskRow → TaskRow}

theorem find?_map_of_taskId (hf : ∀ t, (f t).taskId = t.taskId) (tasks : List TaskRow)
    (taskId : FireKey) :
    (tasks.map f).find? (·.taskId = taskId) = (tasks.find? (·.taskId = taskId)).map f := by
  rw [find?_map]
  congr 2
  funext t
  simp [hf]

theorem TaskRow.MovesTo.taskId_eq {t' : TaskRow} (h : t.MovesTo t') : t'.taskId = t.taskId := by
  rcases h with rfl | ⟨h, -⟩
  · rfl
  · exact h

theorem enqueue_taskId (taskId : FireKey) (t : TaskRow) :
    (if t.taskId = taskId then { t with status := .queued } else t).taskId = t.taskId := by
  split <;> rfl

/-- No task disappears, and each changes by its rules only. -/
theorem TasksChange.becomes (h : TasksChange db call db'.tasks)
    (ht : db.getTask taskId = some t) : t.BecomesIn db' := by
  have hid := getTask_taskId ht
  subst hid
  generalize htasks : db'.tasks = tasks at h
  have hget : db'.getTask t.taskId = tasks.find? (·.taskId = t.taskId) := by
    rw [← htasks, Database.getTask]
  rw [Database.getTask] at ht
  rw [TaskRow.BecomesIn, hget]
  cases h with
  | move f hf =>
    refine ⟨f t, ?_, ?_⟩
    · rw [find?_map_of_taskId (fun t => (hf t).taskId_eq), ht, Option.map_some]
    · rcases hf t with h | ⟨-, h⟩
      · exact .inl h
      · exact .inr (.inl h)
  | create =>
    exact ⟨t, by rw [find?_append, ht, Option.some_or], .inl rfl⟩
  | enqueue taskId hcall s hs hdraft =>
    rw [find?_map_of_taskId (enqueue_taskId taskId), ht, Option.map_some]
    refine ⟨_, rfl, ?_⟩
    by_cases hid : t.taskId = taskId
    · rw [if_pos hid]
      have hst : s = t := by
        rw [Database.getTask, ← hid] at hs
        exact Option.some.inj (hs.symm.trans ht)
      exact .inr (.inr ⟨hst ▸ hdraft, rfl⟩)
    · rw [if_neg hid]
      exact .inl rfl

theorem TasksChange.isSome (h : TasksChange db call db'.tasks)
    (ht : (db.getTask taskId).isSome = true) : (db'.getTask taskId).isSome = true := by
  obtain ⟨t, ht⟩ := Option.isSome_iff_exists.mp ht
  obtain ⟨t', ht', -⟩ := h.becomes ht
  rw [getTask_taskId ht] at ht'
  rw [ht', Option.isSome_some]

theorem TaskStatus.MovesTo.ne_draft (h : s.MovesTo s') : s' ≠ .draft := by
  rintro rfl
  revert h
  cases s <;> decide

theorem TaskStatus.MovesTo.not_terminal (h : s.MovesTo s') : ¬ s.Terminal := by
  revert h
  cases s <;> cases s' <;> decide

theorem TaskStatus.MovesTo.active (h : s.MovesTo s') (ha : s'.Active) :
    s.Active := by
  revert h ha
  cases s <;> cases s' <;> decide

variable (h : TasksChange db call db'.tasks)
include h

theorem TasksChange.launched
    (ht : Launched db taskId) : Launched db' taskId := by
  obtain ⟨t, ht, hdraft⟩ := ht
  obtain ⟨t', ht', hmove⟩ := h.becomes ht
  rw [getTask_taskId ht] at ht'
  refine ⟨t', ht', ?_⟩
  rcases hmove with rfl | hmove | ⟨-, rfl⟩
  · exact hdraft
  · exact hmove.ne_draft
  · exact TaskStatus.noConfusion

/-- A task that has ended stays as it is. -/
theorem TasksChange.terminal (ht : db.getTask taskId = some t)
    (hend : t.status.Terminal) : db'.getTask taskId = some t := by
  obtain ⟨t', ht', hmove⟩ := h.becomes ht
  rw [getTask_taskId ht] at ht'
  rcases hmove with rfl | hmove | ⟨hdraft, -⟩
  · exact ht'
  · exact absurd hend hmove.not_terminal
  · rw [hdraft] at hend
    exact absurd hend (by decide)

theorem TasksChange.nodup
    (hnodup : (db.tasks.map (·.taskId)).Nodup) : (db'.tasks.map (·.taskId)).Nodup := by
  generalize db'.tasks = tasks at h
  cases h with
  | move f hf =>
    have hids : (db.tasks.map f).map (·.taskId) = db.tasks.map (·.taskId) := by
      rw [map_map]
      exact map_congr_left fun t _ => (hf t).taskId_eq
    rwa [hids]
  | create taskId scheduledFor status hcall hnone =>
    rw [map_append, map_singleton, nodup_append]
    refine ⟨hnodup, by simp, ?_⟩
    intro a ha b hb hab
    obtain ⟨t, ht, rfl⟩ := mem_map.mp ha
    rw [mem_singleton.mp hb] at hab
    have hne := find?_eq_none.mp hnone t ht
    simp [hab] at hne
  | enqueue taskId hcall t =>
    have hids : (db.tasks.map fun t =>
        if t.taskId = taskId then { t with status := .queued } else t).map (·.taskId) =
        db.tasks.map (·.taskId) := by
      rw [map_map]
      exact map_congr_left fun t _ => enqueue_taskId taskId t
    rwa [hids]

end

section

variable {db db' : Database} {call : Call}

theorem countP_enqueue_le {tasks : List TaskRow} (h : (tasks.map (·.taskId)).Nodup) :
    (tasks.map fun t => if t.taskId = taskId then { t with status := .queued } else t).countP
      (·.status.Active) ≤ tasks.countP (·.status.Active) + 1 := by
  induction tasks with
  | nil => simp
  | cons t tasks ih =>
    rw [map_cons, nodup_cons] at h
    rw [map_cons, countP_cons, countP_cons]
    by_cases hid : t.taskId = taskId
    · -- the others have another identity and are left alone
      have hrest : (tasks.map fun t =>
          if t.taskId = taskId then { t with status := .queued } else t) = tasks := by
        have hkeep : ∀ u ∈ tasks,
            (if u.taskId = taskId then { u with status := .queued } else u) = u := by
          intro u hu
          apply if_neg
          intro heq
          exact h.1 (mem_map.mpr ⟨u, hu, heq.trans hid.symm⟩)
        rw [map_congr_left hkeep, map_id']
      rw [hrest, if_pos hid]
      split <;> split <;> omega
    · rw [if_neg hid]
      have := ih h.2
      omega

theorem countP_move_le (hf : ∀ t : TaskRow, t.MovesTo (f t)) (tasks : List TaskRow) :
    (tasks.map f).countP (·.status.Active) ≤ tasks.countP (·.status.Active) := by
  rw [countP_map]
  apply countP_mono_left
  intro t _ ht
  have hactive : (f t).status.Active := by simpa using ht
  rcases hf t with h | ⟨-, h⟩
  · rw [h] at hactive
    simpa using hactive
  · simpa using h.active hactive

theorem TasksChange.activeCount_le (h : TasksChange db call db'.tasks)
    (hcreate : ∀ taskId scheduledFor status, call = .submit taskId scheduledFor status →
      ¬ status.Active)
    (hqueue : ∀ taskId, call ≠ .submitExisting taskId) : db'.activeCount ≤ db.activeCount := by
  rw [Database.activeCount]
  generalize db'.tasks = tasks at h
  cases h with
  | move f hf => exact countP_move_le hf db.tasks
  | create taskId scheduledFor status hcall =>
    have hnot := hcreate taskId scheduledFor status hcall
    rw [countP_append, Database.activeCount]
    simp [hnot]
  | enqueue taskId hcall => exact absurd hcall (hqueue taskId)

/-- A call makes at most one task active. -/
theorem TasksChange.activeCount_le_succ (h : TasksChange db call db'.tasks)
    (hnodup : (db.tasks.map (·.taskId)).Nodup) : db'.activeCount ≤ db.activeCount + 1 := by
  rw [Database.activeCount]
  generalize db'.tasks = tasks at h
  cases h with
  | move f hf =>
    have hle := countP_move_le hf db.tasks
    rw [Database.activeCount]
    omega
  | create =>
    rw [countP_append, Database.activeCount, countP_singleton]
    split <;> omega
  | enqueue => exact countP_enqueue_le hnodup

end

end Cognis.Schedule
