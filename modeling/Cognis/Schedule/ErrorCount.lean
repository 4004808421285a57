import Mathlib.Data.List.Nodup
import Cognis.Schedule.Steps

namespace Cognis.Schedule

open Bool Coordination List Runs

variable {fires : List ScheduleFireRow} {p : ScheduleFireRow → Bool}
  {g : ScheduleFireRow → ScheduleFireRow}

/-- What a run of the schedule came to, once settled. -/
inductive Outcome where
  | failedTask (taskId : FireKey)
  | failedDispatch
  /-- A task that succeeded or was cancelled. -/
  | cleared (taskId : FireKey)
  deriving DecidableEq

def Outcome.taskId : Outcome → Option FireKey
  | .failedTask taskId | .cleared taskId => some taskId
  | .failedDispatch => none

/-- The failures settled since the last success or cancellation; the newest
outcome stands first. -/
def failuresSince : List Outcome → Nat
  | [] => 0
  | .cleared _ :: _ => 0
  | .failedTask _ :: rest => failuresSince rest + 1
  | .failedDispatch :: rest => failuresSince rest + 1

def settledTasks (log : List Outcome) : List FireKey := log.filterMap Outcome.taskId

def record (log : List Outcome) (o : Outcome) : List Outcome :=
  if o.taskId.any (settledTasks log).contains then log else o :: log

variable (db : Database) (row : ScheduleRow) (taskId : FireKey) (status : TaskStatus)

/-- `mark_failed` commits: the schedule still stands at the occurrence. -/
def failureCommits (c : ScheduleFireClaim) (l : Lease) : Bool :=
  lockLease db l &&
    db.schedule.any fun row => row.nextFireAt = some c.scheduledFireAt && row.enabled

def taskOutcome : Outcome :=
  if status = .failed then .failedTask taskId else .cleared taskId

def settledBy (sc : Scheduler) (db : Database) (call : Call) : List Outcome :=
  match call with
  | .claim .. =>
    ((perform sc db call).2.claim.map (·.replacedPausedTaskIds)).getD [] |>.map .failedTask
  | .markFailed c l _ _ _ _ => if failureCommits db c l then [.failedDispatch] else []
  | .projectManual taskId status _ | .projectRecurring taskId status _ =>
    if (perform sc db call).2.ok then [taskOutcome taskId status] else []
  | _ => []

structure Ledger where
  system : System
  settled : List Outcome

def Ledger.step (sc : Scheduler) (t : Ledger) (e : Event) : Ledger where
  system := t.system.step sc e
  settled :=
    match t.system.call sc e.action with
    | some call => (settledBy sc (t.system.found e) call).foldl record t.settled
    | none => t.settled

/-- The task was failed because the next firing found it paused. -/
def replacedTask : Bool :=
  (db.getTask taskId).any (·.resultSummary = some replacedReason)

/-- `claim` takes up the task a crashed claimant left behind only while its
outcome is not settled. -/
def reclaimsOpen (scheduledFireAt : Int) : Bool :=
  match db.findFire (scheduleFireId scheduledFireAt) with
  | none => !replacedTask db (scheduleTaskId scheduledFireAt)
  | some f =>
    f.status = .dispatched || f.status = .skipped ||
      (!f.settled && !replacedTask db (scheduleTaskId scheduledFireAt))

/-- A write of the counter from a snapshot finds the counter as in the snapshot,
and no fire is tied to a task whose outcome is settled. -/
def countsAfresh : Call → Bool
  | .claim scheduledFireAt _ =>
    (db.getTask (scheduleTaskId scheduledFireAt)).isNone || reclaimsOpen db scheduledFireAt
  | .linkManualTask c _ | .markDispatched c _ | .settleManualDispatched c _ _ =>
    !db.fires.any (fun f => Claimed c f) || !replacedTask db c.taskId
  | .markFailed c l _ _ errors _ =>
    !failureCommits db c l || db.schedule.all (fun row => errors = row.consecutiveErrors + 1)
  | .advanceSchedule scheduledFireAt _ _ errors l =>
    !lockLease db l || db.schedule.all fun row =>
      row.nextFireAt ≠ some scheduledFireAt || errors = row.consecutiveErrors
  | _ => true

def countsAfreshStep (sc : Scheduler) (t : Ledger) (e : Event) : Bool :=
  (t.system.call sc e.action).all (countsAfresh (t.system.found e))

def ReplacedIn : Prop :=
  ∃ t, db.getTask taskId = some t ∧ t.status.Terminal ∧ t.resultSummary = some replacedReason

/-- A fire of a settled task carries the marker, and every settled task has such
a fire or was replaced. -/
structure Marked (log : List Outcome) (d : Database) (fires : List ScheduleFireRow) : Prop where
  linked : ∀ f ∈ fires, ∀ taskId, f.taskId = some taskId → taskId ∈ settledTasks log →
    f.settled = true
  marked : ∀ taskId ∈ settledTasks log,
    (∃ f ∈ fires, f.fireId = taskId ∧ f.settled = true) ∨ ReplacedIn d taskId

/-- The row's count is that of the log, and what is counted is marked. -/
structure Tallied (db : Database) (log : List Outcome) : Prop where
  ended : ∀ taskId ∈ settledTasks log, ∃ t, db.getTask taskId = some t ∧ t.status.Terminal
  counted : ∀ row, db.schedule = some row → row.consecutiveErrors = failuresSince log
  marked : db.schedule.isSome = true → Marked log db db.fires

section

variable {log : List Outcome} {o : Outcome}

theorem record_of_fresh (h : ∀ taskId, o.taskId = some taskId → taskId ∉ settledTasks log) :
    record log o = o :: log := by
  apply if_neg
  rw [Option.any_eq_true]
  rintro ⟨taskId, htask, hmem⟩
  exact h taskId htask (contains_iff_mem.mp hmem)

theorem settledTasks_cons (o : Outcome) (log : List Outcome) :
    settledTasks (o :: log) = o.taskId.toList ++ settledTasks log := by
  cases o <;> rfl

theorem foldl_record_failed {ids : List FireKey} (hnodup : ids.Nodup)
    (hnew : ∀ taskId ∈ ids, taskId ∉ settledTasks log) :
    failuresSince ((ids.map Outcome.failedTask).foldl record log) = failuresSince log + ids.length ∧
      ∀ taskId, taskId ∈ settledTasks ((ids.map Outcome.failedTask).foldl record log) ↔
        taskId ∈ ids ∨ taskId ∈ settledTasks log := by
  induction ids generalizing log with
  | nil => simp
  | cons id ids ih =>
    rw [nodup_cons] at hnodup
    have hrecord : record log (.failedTask id) = .failedTask id :: log := by
      apply record_of_fresh
      intro taskId htask
      rw [← Option.some.inj htask]
      exact hnew id mem_cons_self
    have hrest : ∀ taskId ∈ ids, taskId ∉ settledTasks (.failedTask id :: log) := by
      intro taskId hmem hin
      rw [settledTasks_cons] at hin
      rcases mem_append.mp hin with heq | hold
      · have : taskId = id := by simpa [Outcome.taskId] using heq
        exact hnodup.1 (this ▸ hmem)
      · exact hnew taskId (mem_cons_of_mem _ hmem) hold
    obtain ⟨hcount, hmem⟩ := ih hnodup.2 hrest
    rw [map_cons, foldl_cons, hrecord]
    constructor
    · rw [hcount, failuresSince, length_cons]
      omega
    · intro taskId
      rw [hmem, settledTasks_cons]
      simp only [Outcome.taskId, Option.toList_some, singleton_append, mem_cons]
      tauto

theorem failuresSince_taskOutcome : failuresSince (taskOutcome taskId status :: log) =
      if status = .failed then failuresSince log + 1 else 0 := by
  unfold taskOutcome
  split <;> rfl

theorem taskOutcome_taskId : (taskOutcome taskId status).taskId = some taskId := by
  unfold taskOutcome
  split <;> rfl

end

section

variable {log : List Outcome} {db d d' : Database} {call : Call}

theorem ReplacedIn.mono {taskId : FireKey} (h : ReplacedIn d taskId)
    (hchange : TasksChange d call d'.tasks) : ReplacedIn d' taskId := by
  obtain ⟨t, ht, hend, hsummary⟩ := h
  exact ⟨t, hchange.terminal ht hend, hend, hsummary⟩

theorem Marked.mono (h : Marked log d fires)
    (hchange : TasksChange d call d'.tasks) : Marked log d' fires where
  linked := h.linked
  marked taskId htask := (h.marked taskId htask).imp_right (·.mono hchange)

theorem Marked.update (h : Marked log d db.fires) (hid : ∀ f, (g f).fireId = f.fireId)
    (hkeep : ∀ f ∈ db.fires, p f → f.settled → f.fireId ∈ settledTasks log →
      (g f).settled)
    (hlink : ∀ f ∈ db.fires, p f → ∀ taskId, (g f).taskId = some taskId →
      taskId ∈ settledTasks log → (g f).settled) :
    Marked log d (db.updateFires p g).fires := by
  constructor
  · intro f hf taskId htask hmem
    obtain ⟨f₀, hf₀, rfl⟩ := mem_map.mp hf
    by_cases hp : p f₀
    · rw [if_pos hp] at htask ⊢
      exact hlink f₀ hf₀ hp taskId htask hmem
    · rw [if_neg hp] at htask ⊢
      exact h.linked f₀ hf₀ taskId htask hmem
  · intro taskId hmem
    rcases h.marked taskId hmem with ⟨f, hf, hfire, hset⟩ | hreplaced
    · left
      refine ⟨if p f then g f else f, mem_map_of_mem hf, ?_, ?_⟩
      · split
        · rw [hid, hfire]
        · exact hfire
      · split
        · rename_i hp
          exact hkeep f hf hp hset (hfire ▸ hmem)
        · exact hset
    · exact .inr hreplaced

theorem Marked.insert (h : Marked log d fires) {f : ScheduleFireRow}
    (hf : f.taskId = none) : Marked log d (fires ++ [f]) := by
  constructor
  · intro f' hf' taskId htask hmem
    rcases mem_append.mp hf' with hold | hnew
    · exact h.linked f' hold taskId htask hmem
    · rw [mem_singleton.mp hnew, hf] at htask
      cases htask
  · intro taskId hmem
    exact (h.marked taskId hmem).imp_left fun ⟨f', hf', hrest⟩ =>
      ⟨f', mem_append_left _ hf', hrest⟩

theorem ScheduleFireRow.Sound.not_settled {f : ScheduleFireRow} (h : f.Sound d)
    (hstatus : f.status = .claimed) : f.settled = false := by
  by_contra hset
  exact (h.settled (of_not_eq_false hset)).1 hstatus

theorem FiresSound.unique (h : FiresSound d fires) {f f' : ScheduleFireRow} (hf : f ∈ fires)
    (hf' : f' ∈ fires) (hid : f.fireId = f'.fireId) :
    f = f' :=
  inj_on_of_nodup_map h.1 hf hf' hid

theorem Marked.not_settled (h : Marked log d fires) {taskId : FireKey}
    (hfire : ∀ f ∈ fires, f.fireId = taskId → f.settled = false)
    (hreplaced : replacedTask d taskId = false) : taskId ∉ settledTasks log := by
  intro hmem
  rcases h.marked taskId hmem with ⟨f, hf, hid, hset⟩ | ⟨t, ht, -, hsummary⟩
  · rw [hfire f hf hid] at hset
    cases hset
  · simp [replacedTask, ht, hsummary] at hreplaced

theorem Marked.update_claimed (h : Marked log d db.fires) (hsound : FiresSound d db.fires)
    (hid : ∀ f, (g f).fireId = f.fireId) (hclaimed : ∀ f ∈ db.fires, p f → f.status = .claimed)
    (hlink : ∀ f ∈ db.fires, p f → ∀ taskId, (g f).taskId = some taskId →
      f.taskId = some taskId ∨ taskId ∉ settledTasks log) :
    Marked log d (db.updateFires p g).fires := by
  apply h.update hid
  · intro f hf hp hset
    have hnot := (hsound.2 f hf).not_settled (hclaimed f hf hp)
    rw [hnot] at hset
    cases hset
  · intro f hf hp taskId htask hmem
    rcases hlink f hf hp taskId htask with hsame | hfresh
    · have hset := h.linked f hf taskId hsame hmem
      have hnot := (hsound.2 f hf).not_settled (hclaimed f hf hp)
      rw [hnot] at hset
      cases hset
    · exact absurd hmem hfresh

end

section

variable {sc : Scheduler} {db db' : Database} {log : List Outcome} {call : Call}

section

variable (h : Tallied db log)

include h

section

variable (hchange : TasksChange db call db'.tasks)
include hchange

theorem Tallied.ended_after {taskId : FireKey}
    (htask : taskId ∈ settledTasks log) : ∃ t, db'.getTask taskId = some t ∧ t.status.Terminal := by
  obtain ⟨t, ht, hend⟩ := h.ended taskId htask
  exact ⟨t, hchange.terminal ht hend, hend⟩

theorem Tallied.frame
    (hrow : ∀ row', db'.schedule = some row' → ∃ row, db.schedule = some row ∧
      row'.consecutiveErrors = row.consecutiveErrors)
    (hmarked : Marked log db' db.fires → db'.schedule.isSome → Marked log db' db'.fires) :
    Tallied db' log where
  ended taskId htask := h.ended_after hchange htask
  counted row' hrow' := by
    obtain ⟨row, hold, heq⟩ := hrow row' hrow'
    rw [heq]
    exact h.counted row hold
  marked hsome := by
    obtain ⟨row', hrow'⟩ := Option.isSome_iff_exists.mp hsome
    obtain ⟨row, hold, -⟩ := hrow row' hrow'
    have hbefore : db.schedule.isSome := by rw [hold, Option.isSome_some]
    exact hmarked ((h.marked hbefore).mono hchange) hsome

theorem Tallied.same
    (hschedule : db'.schedule = db.schedule) (hfires : db'.fires = db.fires) : Tallied db' log := by
  apply h.frame hchange
  · intro row' hrow'
    exact ⟨row', hschedule ▸ hrow', rfl⟩
  · intro hmarked _
    rw [hfires]
    exact hmarked

end

theorem Tallied.setSchedule {row row' : ScheduleRow} (hrow : db.schedule = some row)
    (herrors : row'.consecutiveErrors = row.consecutiveErrors) :
    Tallied (db.setSchedule row') log := by
  have hsame : TasksChange db .initialiseNextFireTimes (db.setSchedule row').tasks := .same _
  apply h.frame hsame
  · intro row'' hrow''
    rw [← Option.some.inj hrow'']
    exact ⟨row, hrow, herrors⟩
  · intro hmarked _
    exact hmarked

theorem Tallied.deleteSchedule : Tallied db.deleteSchedule log where
  ended := h.ended
  counted _ hrow := nomatch hrow
  marked hsome := nomatch hsome

theorem Tallied.setFires (hmarked : Marked log db db.fires → Marked log db fires) :
    Tallied { db with fires := fires } log where
  ended := h.ended
  counted := h.counted
  marked hsome :=
    have hafter := hmarked (h.marked hsome)
    ⟨hafter.linked, fun t ht => hafter.marked t ht⟩

variable {fire : ScheduleFireRow}

theorem Tallied.project (hsound : FiresSound db db.fires) (hchange : TasksChange db call db'.tasks)
    {taskId : FireKey} {status : TaskStatus} {kind : FireKind} {schedule row : ScheduleRow}
    (hended : EndedIn db taskId status) (hend : status.Terminal)
    (hfire : db.fires.find? (fun f => f.taskId = some taskId ∧ f.fireKind = kind) = some fire)
    (hopen : fire.settled = false) (hschedule : db.schedule = some schedule)
    (hrow : row.consecutiveErrors = if status = .failed then schedule.consecutiveErrors + 1 else 0)
    (fireStatus : FireStatus) (hschedule' : db'.schedule = some row)
    (hfires' : db'.fires =
      (db.updateFires (·.fireId = fire.fireId) (·.project fireStatus status)).fires) :
    Tallied db' (record log (taskOutcome taskId status)) := by
  have hmem := mem_of_find?_eq_some hfire
  have hfound := find?_some hfire
  have hlinked := (of_decide_eq_true hfound).1
  have hid := (hsound.2 fire hmem).taskId taskId hlinked
  have hmarked := h.marked (by rw [hschedule, Option.isSome_some])
  -- the fire carries no marker, so the task is not settled yet
  have hnew : taskId ∉ settledTasks log := by
    intro hin
    rw [hmarked.linked fire hmem taskId hlinked hin] at hopen
    cases hopen
  have hrecord : record log (taskOutcome taskId status) = taskOutcome taskId status :: log := by
    apply record_of_fresh
    intro t ht
    rw [taskOutcome_taskId] at ht
    rw [← Option.some.inj ht]
    exact hnew
  have htasks : ∀ t, t ∈ settledTasks (taskOutcome taskId status :: log) ↔
      t = taskId ∨ t ∈ settledTasks log := by
    intro t
    rw [settledTasks_cons, taskOutcome_taskId]
    simp
  rw [hrecord]
  constructor
  · intro t ht
    rcases (htasks t).mp ht with rfl | hold
    · obtain ⟨task, htask, rfl⟩ := hended hend
      exact ⟨task, hchange.terminal htask hend, hend⟩
    · exact h.ended_after hchange hold
  · intro row' hrow'
    obtain rfl : row = row' := Option.some.inj (hschedule'.symm.trans hrow')
    rw [hrow, failuresSince_taskOutcome, h.counted schedule hschedule]
  · intro _
    rw [hfires']
    have hkept : Marked log db' (db.updateFires (·.fireId = fire.fireId)
        (·.project fireStatus status)).fires :=
      (hmarked.mono hchange).update (fun _ => rfl) (fun _ _ _ _ _ => rfl) (fun _ _ _ _ _ _ => rfl)
    constructor
    · intro f hf t htask hin
      rcases (htasks t).mp hin with rfl | hold
      · obtain ⟨f₀, hf₀, rfl⟩ := mem_map.mp hf
        by_cases hp : decide (f₀.fireId = fire.fireId)
        · rw [if_pos hp]
          rfl
        · rw [if_neg hp] at htask
          have hid₀ := (hsound.2 f₀ hf₀).taskId t htask
          exact absurd (decide_eq_true (hid₀.symm.trans hid)) hp
      · exact hkept.linked f hf t htask hold
    · intro t hin
      rcases (htasks t).mp hin with rfl | hold
      · left
        refine ⟨fire.project fireStatus status, ?_, hid.symm, rfl⟩
        have himage := mem_map_of_mem (f := fun f =>
          if decide (f.fireId = fire.fireId) = true then f.project fireStatus status else f) hmem
        simpa [Database.updateFires] using himage
      · exact hkept.marked t hold

end

variable {d : Database}

theorem Marked.insertFire (h : Marked log d db.fires) (scheduledFireAt : Int) :
    Marked log d (Schedule.insertFire sc.config db scheduledFireAt).fires := by
  unfold Schedule.insertFire
  split
  · exact h
  · exact h.insert rfl

theorem Tallied.insertFire (h : Tallied db log) (scheduledFireAt : Int) :
    Tallied (insertFire sc.config db scheduledFireAt) log := by
  have hchange : TasksChange db .initialiseNextFireTimes
      (Schedule.insertFire sc.config db scheduledFireAt).tasks := by
    rw [insertFire_tasks]
    exact .same _
  apply h.frame hchange
  · intro row hrow
    rw [insertFire_schedule] at hrow
    exact ⟨row, hrow, rfl⟩
  · intro hmarked _
    exact hmarked.insertFire scheduledFireAt

theorem replacement_cases (cfg : ScheduleConfig) (db : Database) (row : ScheduleRow) (limit : Nat) :
    replacement cfg db row limit = (db, row, []) ∨
    replacement cfg db row limit = ((failPausedRows db).setSchedule (row.countFailures
          (row.consecutiveErrors + (pausedTaskIds db).length) (pausedTaskIds db).getLast? limit),
        row.countFailures (row.consecutiveErrors + (pausedTaskIds db).length)
          (pausedTaskIds db).getLast? limit,
        pausedTaskIds db) := by
  unfold replacement
  split
  · unfold replacePaused
    by_cases hnone : pausedTaskIds db = []
    · left
      simp only [if_pos hnone]
    · right
      simp only [if_neg hnone]
  · exact .inl rfl

theorem countFailures_consecutiveErrors (errors : Nat) (lastTaskId : Option FireKey) (limit : Nat) :
    (row.countFailures errors lastTaskId limit).consecutiveErrors = errors := by
  unfold ScheduleRow.countFailures
  split <;> rfl

variable {schedule : ScheduleRow}

theorem Tallied.replacement (h : Tallied db log) (hnodup : (db.tasks.map (·.taskId)).Nodup)
    (hschedule : db.schedule = some schedule) (cfg : ScheduleConfig) (limit : Nat) :
    Tallied (Schedule.replacement cfg db schedule limit).1
      (((Schedule.replacement cfg db schedule limit).2.2.map Outcome.failedTask).foldl
        record log) := by
  obtain hnone | hsome := replacement_cases cfg db schedule limit
  · rw [hnone]
    exact h
  · rw [hsome]
    have hpaused : ∀ id ∈ pausedTaskIds db, ∃ t, db.getTask id = some t ∧ t.status = .paused := by
      intro id hid
      obtain ⟨t, ht, rfl⟩ := mem_map.mp hid
      obtain ⟨hmem, hstatus⟩ := mem_filter.mp ht
      exact ⟨t, getTask_of_mem hnodup hmem, of_decide_eq_true hstatus⟩
    have hnew : ∀ id ∈ pausedTaskIds db, id ∉ settledTasks log := by
      intro id hid hin
      obtain ⟨t, ht, hstatus⟩ := hpaused id hid
      obtain ⟨t', ht', hend⟩ := h.ended id hin
      rw [ht] at ht'
      rw [← Option.some.inj ht', hstatus] at hend
      exact absurd hend (by decide)
    have hids : (pausedTaskIds db).Nodup :=
      (filter_sublist.map _).nodup hnodup
    obtain ⟨hcount, htasks⟩ := foldl_record_failed hids hnew
    have hmap : (failPausedRows db).tasks = db.tasks.map failPaused := by
      apply map_congr_left
      intro t _
      simp [failPaused]
    have hchange : TasksChange db .initialiseNextFireTimes (failPausedRows db).tasks := by
      rw [hmap]
      exact .move failPaused failPaused_movesTo
    have hreplaced : ∀ id ∈ pausedTaskIds db, ReplacedIn (failPausedRows db) id := by
      intro id hid
      obtain ⟨t, ht, hstatus⟩ := hpaused id hid
      refine ⟨failPaused t, ?_, ?_, ?_⟩
      · rw [Database.getTask, hmap, find?_map_of_taskId (fun t => (failPaused_movesTo t).taskId_eq)]
        rw [Database.getTask] at ht
        rw [ht, Option.map_some]
      · rw [failPaused, if_pos hstatus]
        exact .inr (.inl rfl)
      · rw [failPaused, if_pos hstatus]
    constructor
    · intro id hid
      rcases (htasks id).mp hid with hin | hold
      · obtain ⟨t, ht, hend, -⟩ := hreplaced id hin
        exact ⟨t, ht, hend⟩
      · exact h.ended_after hchange hold
    · intro row hrow
      rw [← Option.some.inj hrow, countFailures_consecutiveErrors, hcount,
        h.counted schedule hschedule]
    · intro _
      have hmarked := (h.marked (by rw [hschedule, Option.isSome_some])).mono hchange
      have hkept : Marked log (failPausedRows db) (failPausedRows db).fires := by
        have hfires : Marked log (failPausedRows db) (db.updateTasks (·.status = .paused) fun t =>
            { t with status := .failed, resultSummary := some replacedReason }).fires := hmarked
        exact hfires.update (fun _ => rfl) (fun _ _ _ _ _ => rfl) (fun _ _ _ _ _ _ => rfl)
      constructor
      · intro f hf t ht hin
        rcases (htasks t).mp hin with hpausedId | hold
        · obtain ⟨f₀, _, rfl⟩ := mem_map.mp hf
          split
          · rfl
          · rename_i hp
            rw [if_neg hp] at ht
            by_contra hopen
            apply hp
            have hany : f₀.taskId.any (· ∈ pausedTaskIds db) := by simp [ht, hpausedId]
            exact decide_eq_true ⟨hany, eq_false_iff.mpr hopen⟩
        · exact hkept.linked f hf t ht hold
      · intro t hin
        rcases (htasks t).mp hin with hpausedId | hold
        · exact .inr (hreplaced t hpausedId)
        · exact hkept.marked t hold

theorem insertFire_findFire {cfg : ScheduleConfig} {scheduledFireAt : Int} {id : FireKey}
    (h : (Schedule.insertFire cfg db scheduledFireAt).findFire id = some fire) :
    db.findFire id = some fire ∨ db.findFire id = none ∧ fire.settled = false := by
  unfold Schedule.insertFire at h
  split at h
  · exact .inl h
  · rw [Database.findFire, find?_append] at h
    cases hold : db.findFire id with
    | some f =>
      left
      rw [Database.findFire] at hold
      rw [hold, Option.some_or] at h
      exact h
    | none =>
      right
      rw [Database.findFire] at hold
      rw [hold, Option.none_or] at h
      have hnew := mem_of_find?_eq_some h
      rw [mem_singleton.mp hnew]
      exact ⟨rfl, rfl⟩

theorem replacement_getTask_none {cfg : ScheduleConfig} {row : ScheduleRow} {limit : Nat}
    {taskId : FireKey} (h : db.getTask taskId = none) :
    (Schedule.replacement cfg db row limit).1.getTask taskId = none := by
  obtain ⟨f, hmoves, htasks⟩ := replacement_tasks cfg db row limit
  rw [Database.getTask] at h
  rw [Database.getTask, htasks, find?_map_of_taskId (fun t => (hmoves t).taskId_eq), h,
    Option.map_none]

def replacedOutcomes (c : Option ScheduleFireClaim) : List Outcome :=
  ((c.map (·.replacedPausedTaskIds)).getD []).map .failedTask

theorem claim_tallied (h : Tallied db log) (hsound : FiresSound db db.fires)
    (hnodup : (db.tasks.map (·.taskId)).Nodup) {scheduledFireAt : Int} {l : Lease}
    (hcond : countsAfresh db (.claim scheduledFireAt l)) (limit : Nat) :
    Tallied (claim sc.config db scheduledFireAt l limit).1
      ((replacedOutcomes (claim sc.config db scheduledFireAt l limit).2).foldl record log) := by
  have hinsert : Tallied (Schedule.insertFire sc.config db scheduledFireAt) log :=
    h.insertFire scheduledFireAt
  have hresult := claim_result sc.config db scheduledFireAt l limit
  generalize claim sc.config db scheduledFireAt l limit = r at hresult ⊢
  cases hresult with
  | refused => exact h
  | settled => exact hinsert
  | existing schedule fire hschedule hnext hfire hopen htask =>
    have hsame : TasksChange (Schedule.insertFire sc.config db scheduledFireAt)
        .initialiseNextFireTimes (claimExisting (Schedule.insertFire sc.config db scheduledFireAt)
          scheduledFireAt schedule).1.tasks := .same _
    have hsound₁ : FiresSound db (Schedule.insertFire sc.config db scheduledFireAt).fires :=
      insertFire_sound hsound scheduledFireAt
    have hsome : (Schedule.insertFire sc.config db scheduledFireAt).schedule.isSome := by
      rw [insertFire_schedule, hschedule, Option.isSome_some]
    have hunsettled : fire.settled = false ∧
        replacedTask db (scheduleTaskId scheduledFireAt) = false := by
      have hopenTask : reclaimsOpen db scheduledFireAt := by
        simpa [countsAfresh, Option.isNone_iff_eq_none, Option.isSome_iff_ne_none.mp htask]
          using hcond
      rw [reclaimsOpen] at hopenTask
      rcases insertFire_findFire hfire with hold | ⟨hnone, hset⟩
      · simp only [hold] at hopenTask
        simpa [hopen.1, hopen.2] using hopenTask
      · simp only [hnone] at hopenTask
        exact ⟨hset, by simpa using hopenTask⟩
    have hnew : scheduleTaskId scheduledFireAt ∉ settledTasks log := by
      apply (hinsert.marked hsome).not_settled
      · intro f hf hid
        have hfound := find?_some hfire
        have hsameFire := hsound₁.unique hf (mem_of_find?_eq_some hfire)
          (hid.trans (of_decide_eq_true hfound).symm)
        rw [hsameFire]
        exact hunsettled.1
      · rw [replacedTask, insertFire_getTask]
        exact hunsettled.2
    apply hinsert.frame hsame
    · intro row hrow
      exact ⟨row, hrow, rfl⟩
    · intro hmarked _
      refine hmarked.update ?_ ?_ ?_
      · intro f
        rfl
      · intro f _ hp _ hin
        rw [of_decide_eq_true hp] at hin
        exact absurd hin hnew
      · intro f _ _ t ht hin
        rw [← Option.some.inj ht] at hin
        exact absurd hin hnew
  | fresh schedule fire hschedule hnext henabled hfire htask =>
    generalize hdb₁ : Schedule.insertFire sc.config db scheduledFireAt = db₁ at hinsert hfire ⊢
    have hschedule₁ : db₁.schedule = some schedule := by
      rw [← hdb₁, insertFire_schedule, hschedule]
    have htasks₁ : db₁.tasks = db.tasks := by rw [← hdb₁, insertFire_tasks]
    have hnodup₁ : (db₁.tasks.map (·.taskId)).Nodup := htasks₁ ▸ hnodup
    have hreplaced := hinsert.replacement hnodup₁ hschedule₁ sc.config limit
    have hnone : (Schedule.replacement sc.config db₁ schedule limit).1.getTask
        (scheduleTaskId scheduledFireAt) = none := by
      apply replacement_getTask_none
      rw [Database.getTask, htasks₁]
      exact htask
    have hfires : FiresSound (Schedule.replacement sc.config db₁ schedule limit).1
        (Schedule.replacement sc.config db₁ schedule limit).1.fires := by
      obtain ⟨f, hmoves, htasks⟩ := replacement_tasks sc.config db₁ schedule limit
      have hchange : TasksChange db₁ .initialiseNextFireTimes
          (Schedule.replacement sc.config db₁ schedule limit).1.tasks := by
        rw [htasks]
        exact .move f hmoves
      have hsound₁ : FiresSound db₁ db₁.fires := by
        have hsame : ∀ t, Launched db t → Launched db₁ t := by
          intro t ht
          rw [Launched, Database.getTask, htasks₁]
          exact ht
        rw [← hdb₁]
        exact insertFire_sound (hdb₁ ▸ hsound.mono hsame) scheduledFireAt
      apply replacement_sound (hsound₁.mono fun t => hchange.launched)
      · intro t ht
        exact hchange.launched (launched_of_paused hnodup₁ ht)
    generalize Schedule.replacement sc.config db₁ schedule limit = replaced at *
    have hown : scheduleTaskId scheduledFireAt ∉
        settledTasks ((replaced.2.2.map Outcome.failedTask).foldl record log) := by
      intro hin
      obtain ⟨t, ht, -⟩ := hreplaced.ended _ hin
      rw [hnone] at ht
      cases ht
    unfold claimFresh
    split
    · refine hreplaced.frame (.same _ : TasksChange _ .initialiseNextFireTimes _) ?_ ?_
      · intro row hrow
        exact ⟨row, hrow, rfl⟩
      · intro hmarked _
        refine hmarked.update ?_ ?_ ?_
        · intro f
          rfl
        · intro f _ _ hset _
          exact hset
        · intro f hf _ t ht hin
          exact hmarked.linked f hf t ht hin
    · refine hreplaced.frame (.same _ : TasksChange _ .initialiseNextFireTimes _) ?_ ?_
      · intro row hrow
        exact ⟨row, hrow, rfl⟩
      · intro hmarked _
        refine hmarked.update ?_ ?_ ?_
        · intro f
          rfl
        · intro f _ hp _ hin
          rw [of_decide_eq_true hp] at hin
          exact absurd hin hown
        · intro f hf hp t ht hin
          rw [(hfires.2 f hf).taskId t ht, of_decide_eq_true hp] at hin
          exact absurd hin hown

theorem claimManual_tallied (h : Tallied db log) (hsound : FiresSound db db.fires) (l : Lease) :
    Tallied (claimManual sc.config db l).1 log := by
  have hresult := claimManual_result sc.config db l
  generalize claimManual sc.config db l = r at hresult ⊢
  cases hresult with
  | refused | consumed => exact h
  | resumed schedule pending hlease hschedule hfire =>
    obtain ⟨hmem, -, hstatus⟩ := mem_of_newestManual hfire
    refine h.setFires fun hmarked => hmarked.update_claimed hsound ?_ ?_ ?_
    · intro f
      rfl
    · intro f hf hp
      rw [hsound.unique hf hmem (of_decide_eq_true hp)]
      exact of_decide_eq_true hstatus
    · intro f _ _ t ht
      exact .inl ht
  | fresh schedule hschedule =>
    have hinsert : ∀ f : ScheduleFireRow, f.taskId = none →
        Tallied { db with fires := db.fires ++ [f] } log :=
      fun f hf => h.setFires fun hmarked => hmarked.insert hf
    unfold claimFreshManual
    split
    · split
      · split
        · exact (hinsert _ rfl).deleteSchedule
        · exact (hinsert _ rfl).setSchedule hschedule rfl
      · exact hinsert _ rfl
    · exact hinsert _ rfl

variable {c : ScheduleFireClaim}

theorem Marked.link (h : Marked log d db.fires) (hsound : FiresSound d db.fires)
    (hid : c.taskId = c.fireId)
    (hreplaced : db.fires.any (fun f => Claimed c f) → replacedTask d c.taskId = false)
    (hp : ∀ f, p f → Claimed c f) (hg : ∀ f, (g f).fireId = f.fireId)
    (htask : ∀ f, (g f).taskId = some c.taskId) : Marked log d (db.updateFires p g).fires := by
  apply h.update_claimed hsound hg
  · intro f _ hpf
    exact (hp f hpf).2
  · intro f hf hpf t ht
    right
    rw [htask] at ht
    rw [← Option.some.inj ht]
    have hclaimed := hp f hpf
    apply h.not_settled
    · intro f' hf' hid'
      have hsame := hsound.unique hf' hf ((hid'.trans hid).trans hclaimed.1.symm)
      rw [hsame]
      exact (hsound.2 f hf).not_settled hclaimed.2
    · apply hreplaced
      rw [any_eq_true]
      exact ⟨f, hf, decide_eq_true hclaimed⟩

theorem dispatchFire_marked (h : Marked log d db.fires) (hsound : FiresSound d db.fires)
    (hid : c.taskId = c.fireId)
    (hreplaced : db.fires.any (fun f => Claimed c f) → replacedTask d c.taskId = false) :
    Marked log d (dispatchFire db c).fires := by
  refine h.link hsound hid hreplaced ?_ ?_ ?_
  · intro f hp
    exact of_decide_eq_true hp
  · intro f
    rfl
  · intro f
    rfl

theorem failFire_marked (h : Marked log d db.fires) (hsound : FiresSound d db.fires)
    (c : ScheduleFireClaim) (error : String) : Marked log d (failFire db c error).fires := by
  refine h.update_claimed hsound ?_ ?_ ?_
  · intro f
    rfl
  · intro f _ hp
    exact (of_decide_eq_true hp).2
  · intro f _ _ t ht
    exact .inl ht

theorem settleManualDispatched_tallied (h : Tallied db log) (hsound : FiresSound db db.fires)
    (hid : c.taskId = c.fireId)
    (hreplaced : db.fires.any (fun f => Claimed c f) → replacedTask db c.taskId = false) (l : Lease)
    (status : RunStatus) :
    Tallied (settleManualDispatched sc.config db c l status).1 log := by
  have hdispatched : Tallied (dispatchFire db c) log :=
    h.setFires fun hmarked => dispatchFire_marked hmarked hsound hid hreplaced
  unfold settleManualDispatched
  split
  · exact h
  · dsimp only
    split
    · exact h
    · split
      · exact hdispatched
      · rename_i schedule hschedule
        split
        · split
          · exact hdispatched.deleteSchedule
          · exact hdispatched.setSchedule hschedule rfl
        · exact hdispatched

theorem markFailed_tallied (h : Tallied db log) (hsound : FiresSound db db.fires) {l : Lease}
    {error : String} {next : Option Int} {errors : Nat} {reason : Option DisabledReason}
    (hcond : countsAfresh db (.markFailed c l error next errors reason)) :
    Tallied (markFailed db c l error next errors reason).1
      ((settledBy sc db (.markFailed c l error next errors reason)).foldl record log) := by
  unfold markFailed
  simp only [settledBy]
  cases hlease : lockLease db l with
  | false =>
    have hnot : failureCommits db c l = false := by rw [failureCommits, hlease, Bool.false_and]
    simp only [hnot, if_true]
    exact h
  | true =>
    cases hschedule : db.schedule with
    | none =>
      have hnot : failureCommits db c l = false := by simp [failureCommits, hschedule]
      simp only [hnot]
      exact h
    | some schedule =>
      by_cases hmatch : schedule.nextFireAt = some c.scheduledFireAt ∧ schedule.enabled
      · have hcommits : failureCommits db c l := by
          simp [failureCommits, hlease, hschedule, hmatch.1, hmatch.2]
        have herrors : errors = schedule.consecutiveErrors + 1 := by
          simpa [countsAfresh, hcommits, hschedule] using hcond
        simp only [hcommits, if_pos hmatch, if_true, true_eq_false, if_false,
          foldl_cons, foldl_nil]
        have hrecord : record log .failedDispatch = .failedDispatch :: log :=
          record_of_fresh fun t ht => nomatch ht
        constructor
        · intro t ht
          exact h.ended t ht
        · intro row hrow
          rw [← Option.some.inj hrow]
          change errors = failuresSince log + 1
          rw [herrors, h.counted schedule hschedule]
        · intro _
          have hmarked := h.marked (by rw [hschedule, Option.isSome_some])
          have hfailed := failFire_marked hmarked hsound c error
          exact ⟨hfailed.linked, fun t ht => hfailed.marked t ht⟩
      · have hnot : failureCommits db c l = false := by
          rw [eq_false_iff]
          intro hcommits
          apply hmatch
          simpa [failureCommits, hlease, hschedule] using hcommits
        simp only [hnot, if_neg hmatch]
        exact h

theorem failRun_consecutiveErrors (limit : Nat) :
    (row.failRun taskId limit).consecutiveErrors = row.consecutiveErrors + 1 := by
  unfold ScheduleRow.failRun
  dsimp only
  split <;> rfl

theorem projectManual_consecutiveErrors (completedAt : Int) (limit : Nat) :
    (row.projectManual taskId status completedAt limit).consecutiveErrors =
      if status = .failed then row.consecutiveErrors + 1 else 0 := by
  unfold ScheduleRow.projectManual
  split
  · exact failRun_consecutiveErrors _ taskId limit
  · rfl

theorem projectRecurring_consecutiveErrors (next : Option Int) (limit : Nat) :
    (row.projectRecurring taskId status next limit).consecutiveErrors =
      if status = .failed then row.consecutiveErrors + 1 else 0 := by
  unfold ScheduleRow.projectRecurring
  dsimp only
  split
  · split <;> exact failRun_consecutiveErrors row taskId limit
  · rfl

theorem perform_tallied (h : Tallied db log) (hsound : FiresSound db db.fires)
    (hnodup : (db.tasks.map (·.taskId)).Nodup) (hcall : call.Sound db)
    (hcond : countsAfresh db call) :
    Tallied (perform sc db call).1 ((settledBy sc db call).foldl record log) := by
  have hchange := perform_tasksChange sc db call
  cases call with
  | claim => exact claim_tallied h hsound hnodup hcond sc.maxConsecutiveErrors
  | claimManual l => exact claimManual_tallied h hsound l
  | linkManualTask c l =>
    have hreplaced : db.fires.any (fun f => Claimed c f) →
        replacedTask db c.taskId = false := by
      intro hany
      simpa [countsAfresh, hany] using hcond
    simp only [perform, linkManualTask] at hchange ⊢
    split
    · exact h
    · split
      · refine h.setFires fun hmarked => ?_
        refine hmarked.link hsound hcall.2 hreplaced ?_ ?_ ?_
        · intro f hp
          exact (of_decide_eq_true hp).1
        · intro f
          rfl
        · intro f
          rfl
      · exact h
  | markDispatched c l =>
    have hreplaced : db.fires.any (fun f => Claimed c f) →
        replacedTask db c.taskId = false := by
      intro hany
      simpa [countsAfresh, hany] using hcond
    simp only [perform, markDispatched]
    split
    · exact h
    · exact h.setFires fun hmarked => dispatchFire_marked hmarked hsound hcall.2 hreplaced
  | settleManualDispatched c l status =>
    have hreplaced : db.fires.any (fun f => Claimed c f) →
        replacedTask db c.taskId = false := by
      intro hany
      simpa [countsAfresh, hany] using hcond
    exact settleManualDispatched_tallied h hsound hcall.1.2 hreplaced l status
  | markFailed => exact markFailed_tallied h hsound hcond
  | markManualFailed c l error =>
    simp only [perform, markManualFailed]
    split
    · exact h
    · exact h.setFires fun hmarked => failFire_marked hmarked hsound c error
  | advanceSchedule scheduledFireAt next status errors l =>
    simp only [perform, advanceSchedule] at hchange ⊢
    split
    · exact h
    · rename_i hlease
      split
      · exact h
      · rename_i schedule hschedule
        split
        · rename_i hnext
          have herrors : errors = schedule.consecutiveErrors := by
            simpa [countsAfresh, of_not_eq_false hlease, hschedule, hnext] using hcond
          exact h.setSchedule hschedule herrors
        · exact h
  | projectManual taskId status completedAt =>
    obtain heq | ⟨fire, schedule, hend, hfire, hopen, hschedule, heq⟩ :=
      projectManualTerminalResult_cases db taskId status completedAt sc.maxConsecutiveErrors
    · have hperform : perform sc db (.projectManual taskId status completedAt) =
          (db, { ok := false }) := by
        simp only [perform, heq, Option.isSome_none]
      simp only [settledBy, hperform]
      exact h
    · have hrow := projectManual_consecutiveErrors schedule taskId status completedAt
        sc.maxConsecutiveErrors
      have hreply : (perform sc db (.projectManual taskId status completedAt)).2.ok := by
        simp only [perform, heq, Option.isSome_some]
      simp only [settledBy, hreply, if_true]
      simp only [perform, heq] at hchange ⊢
      exact h.project hsound hchange hcall hend hfire hopen hschedule hrow _ rfl rfl
  | projectRecurring taskId status next =>
    obtain heq | ⟨fire, schedule, hend, hfire, hopen, hschedule, heq⟩ :=
      projectRecurringTerminalResult_cases db taskId status next sc.maxConsecutiveErrors
    · have hperform : perform sc db (.projectRecurring taskId status next) =
          (db, { ok := false }) := by
        simp only [perform, heq, Option.isSome_none]
      simp only [settledBy, hperform]
      exact h
    · have hrow := projectRecurring_consecutiveErrors schedule taskId status next
        sc.maxConsecutiveErrors
      have hreply : (perform sc db (.projectRecurring taskId status next)).2.ok := by
        simp only [perform, heq, Option.isSome_some]
      simp only [settledBy, hreply, if_true]
      simp only [perform, heq] at hchange ⊢
      exact h.project hsound hchange hcall hend hfire hopen hschedule hrow _ rfl rfl
  | submit =>
    apply h.same hchange
    · simp only [perform, submit]
      split <;> rfl
    · simp only [perform, submit]
      split <;> rfl
  | submitExisting =>
    apply h.same hchange
    · simp only [perform, submitExisting]
      split <;> rfl
    · simp only [perform, submitExisting]
      split <;> rfl
  | updateNextFireAt =>
    simp only [perform, updateNextFireAt]
    split
    · exact h
    · rename_i row hrow
      exact h.setSchedule hrow rfl
  | initialiseNextFireTimes =>
    simp only [perform, initialiseNextFireTimes]
    split
    · exact h
    · rename_i row hrow
      split
      · split
        · exact h.setSchedule hrow rfl
        · exact h
      · exact h
  | deleteSchedule => exact h.deleteSchedule
  | moveTask | lease => exact h.same hchange rfl rfl

end

section

variable {sc : Scheduler} {t : Ledger} {e : Event}

/-- The count is that of the outcomes settled so far. -/
structure Ledger.Exact (t : Ledger) : Prop where
  sound : t.system.Sound
  tallied : Tallied t.system.db t.settled

theorem Tallied.wait {db : Database} {log : List Outcome} (h : Tallied db log) (elapsed : Nat) :
    Tallied (db.wait elapsed) log where
  ended := h.ended
  counted := h.counted
  marked hsome := ⟨(h.marked hsome).linked, fun taskId hmem => (h.marked hsome).marked taskId hmem⟩

theorem Ledger.Exact.step (h : t.Exact) (hcond : countsAfreshStep sc t e) :
    (t.step sc e).Exact := by
  have hfound : Tallied (t.system.found e) t.settled := h.tallied.wait e.elapsed
  refine ⟨h.sound.step e, ?_⟩
  change Tallied (t.system.outcome sc e).1 _
  rw [System.outcome, Ledger.step]
  cases hcall : t.system.call sc e.action with
  | none => exact hfound
  | some call =>
    have hfires : FiresSound (t.system.found e) (t.system.found e).fires :=
      ⟨h.sound.fireIds, fun f hf => (h.sound.fires f hf).mono fun t ht => ht⟩
    have hcounts : countsAfresh (t.system.found e) call := by
      rw [countsAfreshStep, hcall] at hcond
      exact hcond
    exact perform_tallied hfound hfires h.sound.taskIds (h.sound.call hcall) hcounts

end

theorem Tallied.fresh (hstart : schedule.consecutiveErrors = 0)
    (leases : LeaseStore) : Tallied (.fresh schedule leases) [] where
  ended _ hmem := nomatch hmem
  counted row hrow := by
    rw [← Option.some.inj hrow]
    exact hstart
  marked _ := by
    constructor
    · intro f hf
      cases hf
    · intro taskId hmem
      cases hmem

def Ledger.fresh (schedule : ScheduleRow) (leases : LeaseStore) : Ledger :=
  ⟨⟨.fresh schedule leases, []⟩, []⟩

/-- However fires, triggers and terminal events interleave: as long as the
counter is written back over the value it was read with, and no fire is tied to
a task already settled, it is the number of failures since the last success. -/
theorem consecutiveErrors_exact (sc : Scheduler) (schedule : ScheduleRow)
    (hstart : schedule.consecutiveErrors = 0) (leases : LeaseStore) (es : List Event)
    (hcond : Meets (Ledger.step sc) (fun t e => countsAfreshStep sc t e = true)
      (.fresh schedule leases) es) (row : ScheduleRow)
    (hrow : (run (Ledger.step sc) (.fresh schedule leases) es).system.db.schedule = some row) :
    row.consecutiveErrors =
      failuresSince (run (Ledger.step sc) (.fresh schedule leases) es).settled := by
  have hexact := run_invariant_of_meets Ledger.Exact (fun t e ht he => ht.step he)
    ⟨.fresh schedule leases, .fresh hstart leases⟩ hcond
  exact hexact.tallied.counted row hrow

def minutelyTwice : Scheduler :=
  { minutely with config := { minutely.config with maxConcurrentRuns := 2 } }

def minutelyRow : ScheduleRow := { nextFireAt := some 1 }

def firstTaskFails (activity : Nat) : List Event :=
  ⟨1, .moveTask (.recurring, 1) .failed none⟩ :: ⟨1, .terminalEvent (.recurring, 1) false⟩ ::
    replicate 5 ⟨1, .advance activity .proceed⟩

/-- The first task fails between two fires, its event is delivered twice, and
the second fire keeps the count. -/
theorem consecutiveErrors_exact_between :
    let es := ⟨1, .fire "a"⟩ :: go 9 ++ firstTaskFails 0 ++ firstTaskFails 0 ++
      ⟨60000000, .fire "a"⟩ :: go 9
    ∃ row, (run (Ledger.step minutelyTwice) (.fresh minutelyRow .empty) es).system.db.schedule =
        some row ∧
      row.consecutiveErrors = 1 ∧
      row.consecutiveErrors =
        failuresSince (run (Ledger.step minutelyTwice) (.fresh minutelyRow .empty) es).settled := by
  intro es
  have hcount :
    (run (Ledger.step minutelyTwice) (.fresh minutelyRow .empty) es).system.db.schedule.any
      (·.consecutiveErrors = 1) := by
    decide +kernel
  rw [Option.any_eq_true] at hcount
  obtain ⟨row, hrow, hone⟩ := hcount
  refine ⟨row, hrow, of_decide_eq_true hone, ?_⟩
  exact consecutiveErrors_exact minutelyTwice minutelyRow rfl .empty es (by decide +kernel) row hrow

/-- The first task fails while the second fire stands between its claim and its
advance, which writes the old count back. -/
theorem failure_during_fire_dropped :
    let es := ⟨1, .fire "a"⟩ :: go 8 ++ ⟨60000000, .fire "a"⟩ :: go 2 ++ firstTaskFails 1 ++ go 8
    let final := run (Ledger.step minutelyTwice) (.fresh minutelyRow .empty) es
    final.system.db.schedule.map (·.consecutiveErrors) = some 0 ∧
      failuresSince final.settled = 1 := by
  decide +kernel

end Cognis.Schedule
