import Cognis.Coordination.Fencing
import Cognis.Schedule.Scheduler

namespace Cognis.Schedule

open Coordination List

variable (c : ScheduleFireClaim) (scheduledFireAt : Int) (lease : Lease)

variable {p : ScheduleFireRow → Bool} {f : ScheduleFireRow → ScheduleFireRow} {row : ScheduleRow}
  {elapsed : Nat}

namespace Database

variable {db : Database}

@[simp] theorem updateFires_tasks : (db.updateFires p f).tasks = db.tasks := rfl

@[simp] theorem updateFires_schedule : (db.updateFires p f).schedule = db.schedule := rfl

@[simp] theorem setSchedule_tasks : (db.setSchedule row).tasks = db.tasks := rfl

@[simp] theorem setSchedule_fires : (db.setSchedule row).fires = db.fires := rfl

theorem wait_now : (db.wait elapsed).now = db.now + elapsed := rfl

end Database

section

variable {cfg : ScheduleConfig} {db : Database}

@[simp] theorem insertFire_tasks : (insertFire cfg db scheduledFireAt).tasks = db.tasks := by
  unfold insertFire
  split <;> rfl

@[simp] theorem insertFire_leases : (insertFire cfg db scheduledFireAt).leases = db.leases := by
  unfold insertFire
  split <;> rfl

@[simp] theorem insertFire_schedule :
    (insertFire cfg db scheduledFireAt).schedule = db.schedule := by
  unfold insertFire
  split <;> rfl

def failPaused (t : TaskRow) : TaskRow :=
  if t.status = .paused then { t with status := .failed, resultSummary := some replacedReason }
  else t

theorem pausedTaskIds_eq_nil : pausedTaskIds db = [] ↔ ∀ t ∈ db.tasks, t.status ≠ .paused := by
  simp [pausedTaskIds, filter_eq_nil_iff]

theorem replacePaused_tasks (row : ScheduleRow) (limit : Nat) :
    (replacePaused db row limit).1.tasks = db.tasks.map failPaused := by
  unfold replacePaused
  by_cases hnone : pausedTaskIds db = []
  · simp only [if_pos hnone]
    have hid : ∀ t ∈ db.tasks, failPaused t = t := by
      intro t ht
      exact if_neg (pausedTaskIds_eq_nil.mp hnone t ht)
    exact (map_congr_left hid).trans (map_id _) |>.symm
  · simp only [if_neg hnone, Database.setSchedule_tasks, failPausedRows, Database.updateFires_tasks]
    apply map_congr_left
    intro t _
    simp [failPaused]

theorem replacePaused_leases (row : ScheduleRow) (limit : Nat) :
    (replacePaused db row limit).1.leases = db.leases := by
  unfold replacePaused
  by_cases hnone : pausedTaskIds db = []
  · simp only [if_pos hnone]
  · simp only [if_neg hnone]
    rfl

/-- Everything `claim` can do. -/
inductive ClaimResult (cfg : ScheduleConfig) (db : Database) (scheduledFireAt : Int)
    (lease : Lease) (limit : Nat) : Database × Option ScheduleFireClaim → Prop
  | refused : ClaimResult cfg db scheduledFireAt lease limit (db, none)
  | settled (schedule : ScheduleRow) (fire : ScheduleFireRow)
      (hschedule : db.schedule = some schedule)
      (hfire : (insertFire cfg db scheduledFireAt).findFire (scheduleFireId scheduledFireAt) =
        some fire) :
      ClaimResult cfg db scheduledFireAt lease limit (insertFire cfg db scheduledFireAt,
          some ⟨scheduleFireId scheduledFireAt, scheduledFireAt,
            fire.taskId.getD (scheduleTaskId scheduledFireAt), fire.status, false, schedule, []⟩)
  | existing (schedule : ScheduleRow) (fire : ScheduleFireRow)
      (hschedule : db.schedule = some schedule)
      (hnext : schedule.nextFireAt = some scheduledFireAt)
      (hfire : (insertFire cfg db scheduledFireAt).findFire (scheduleFireId scheduledFireAt) =
        some fire)
      (hopen : fire.status ≠ .dispatched ∧ fire.status ≠ .skipped)
      (htask : (db.getTask (scheduleTaskId scheduledFireAt)).isSome = true) :
      ClaimResult cfg db scheduledFireAt lease limit
        (claimExisting (insertFire cfg db scheduledFireAt) scheduledFireAt schedule)
  | fresh (schedule : ScheduleRow) (fire : ScheduleFireRow)
      (hschedule : db.schedule = some schedule)
      (hnext : schedule.nextFireAt = some scheduledFireAt)
      (henabled : schedule.enabled = true)
      (hfire : (insertFire cfg db scheduledFireAt).findFire (scheduleFireId scheduledFireAt) =
        some fire)
      (htask : db.getTask (scheduleTaskId scheduledFireAt) = none) :
      ClaimResult cfg db scheduledFireAt lease limit (claimFresh cfg scheduledFireAt
          (replacement cfg (insertFire cfg db scheduledFireAt) schedule limit))

theorem insertFire_getTask (taskId : FireKey) :
    (insertFire cfg db scheduledFireAt).getTask taskId = db.getTask taskId := by
  rw [Database.getTask, insertFire_tasks, Database.getTask]

theorem claim_result (cfg : ScheduleConfig) (db : Database) (scheduledFireAt : Int) (lease : Lease)
    (limit : Nat) :
    ClaimResult cfg db scheduledFireAt lease limit (claim cfg db scheduledFireAt lease limit) := by
  unfold claim
  split
  · exact .refused
  · split
    · exact .refused
    · rename_i schedule hschedule
      by_cases hdue : schedule.enabled = false ∨ schedule.nextFireAt ≠ some scheduledFireAt
      · rw [if_pos hdue]
        exact .refused
      · simp only [if_neg hdue]
        rw [not_or, not_ne_iff, Bool.not_eq_false] at hdue
        split
        · exact .refused
        · rename_i fire hfire
          split
          · exact .settled schedule fire hschedule hfire
          · rename_i hopen
            rw [insertFire_getTask]
            split
            · rename_i htask
              exact .existing schedule fire hschedule hdue.2 hfire (not_or.mp hopen) htask
            · rename_i htask
              have hnone : db.getTask (scheduleTaskId scheduledFireAt) = none :=
                by simpa using htask
              exact .fresh schedule fire hschedule hdue.2 hdue.1 hfire hnone

/-- Everything `claim_manual` can do. -/
inductive ManualClaimResult (cfg : ScheduleConfig) (db : Database) (lease : Lease) :
    Database × Option ScheduleFireClaim → Prop
  | refused : ManualClaimResult cfg db lease (db, none)
  | consumed (schedule : ScheduleRow) (fire : ScheduleFireRow)
      (hschedule : db.schedule = some schedule)
      (htype : cfg.scheduleType = .oneShot) (hnext : schedule.nextFireAt = none)
      (hfire : dispatchedManual db = some fire) :
      ManualClaimResult cfg db lease
        (db, some ⟨fire.fireId, fire.scheduledFireAt, fire.taskId.getD fire.fireId, .dispatched,
          false, schedule, []⟩)
  | resumed (schedule : ScheduleRow) (pending : ScheduleFireRow)
      (hlease : lockLease db lease = true) (hschedule : db.schedule = some schedule)
      (hfire : pendingManual db = some pending) :
      ManualClaimResult cfg db lease (db.updateFires (·.fireId = pending.fireId)
          fun f => { f with attemptCount := f.attemptCount + 1, lastError := none },
          some ⟨pending.fireId, pending.scheduledFireAt,
            pending.taskId.getD (manualScheduleTaskId pending.scheduledFireAt), .claimed, true,
            schedule, []⟩)
  | fresh (schedule : ScheduleRow) (hschedule : db.schedule = some schedule) :
      ManualClaimResult cfg db lease (claimFreshManual cfg db schedule)

theorem claimManual_result (cfg : ScheduleConfig) (db : Database) (lease : Lease) :
    ManualClaimResult cfg db lease (claimManual cfg db lease) := by
  unfold claimManual
  split
  · exact .refused
  · rename_i hlease
    split
    · exact .refused
    · rename_i schedule hschedule
      dsimp only
      split
      · exact .refused
      · split
        · rename_i hone
          split
          · exact .refused
          · rename_i fire hfire
            exact .consumed schedule fire hschedule hone.1 hone.2 hfire
        · split
          · rename_i pending hpending
            exact .resumed schedule pending (Bool.of_not_eq_false hlease) hschedule hpending
          · exact .fresh schedule hschedule

def TaskRow.MovesTo (t t' : TaskRow) : Prop :=
  t' = t ∨ (t'.taskId = t.taskId ∧ t.status.MovesTo t'.status)

theorem failPaused_movesTo (t : TaskRow) : t.MovesTo (failPaused t) := by
  unfold failPaused
  split
  · rename_i hpaused
    have hmove : TaskStatus.MovesTo .paused .failed := by decide
    exact .inr ⟨rfl, hpaused ▸ hmove⟩
  · exact .inl rfl

theorem replacement_tasks (cfg : ScheduleConfig) (db : Database) (row : ScheduleRow) (limit : Nat) :
    ∃ f, (∀ t : TaskRow, t.MovesTo (f t)) ∧
      (replacement cfg db row limit).1.tasks = db.tasks.map f := by
  unfold replacement
  split
  · exact ⟨failPaused, failPaused_movesTo, replacePaused_tasks row limit⟩
  · exact ⟨id, fun t => .inl rfl, (map_id _).symm⟩

theorem replacement_leases (row : ScheduleRow) (limit : Nat) :
    (replacement cfg db row limit).1.leases = db.leases := by
  unfold replacement
  split
  · exact replacePaused_leases row limit
  · rfl

end

/-- Everything a statement can do to the tasks. -/
inductive TasksChange (db : Database) (call : Call) : List TaskRow → Prop
  | move (f : TaskRow → TaskRow) (h : ∀ t : TaskRow, t.MovesTo (f t)) :
      TasksChange db call (db.tasks.map f)
  | create (taskId : FireKey) (scheduledFor : Int) (status : TaskStatus)
      (hcall : call = .submit taskId scheduledFor status) (hnone : db.getTask taskId = none) :
      TasksChange db call (db.tasks ++ [⟨taskId, status, scheduledFor, none⟩])
  | enqueue (taskId : FireKey) (hcall : call = .submitExisting taskId) (t : TaskRow)
      (ht : db.getTask taskId = some t) (hdraft : t.status = .draft) :
      TasksChange db call
        (db.tasks.map fun t => if t.taskId = taskId then { t with status := .queued } else t)

section

variable {sc : Scheduler} {db : Database}

theorem TasksChange.same (call : Call) : TasksChange db call db.tasks := by
  have h : TasksChange db call (db.tasks.map id) := .move id (fun t => .inl rfl)
  rwa [map_id] at h

theorem claim_tasksChange : TasksChange db (.claim scheduledFireAt lease)
      (perform sc db (.claim scheduledFireAt lease)).1.tasks := by
  have hresult := claim_result sc.config db scheduledFireAt lease sc.maxConsecutiveErrors
  simp only [perform]
  generalize claim sc.config db scheduledFireAt lease sc.maxConsecutiveErrors = r at hresult ⊢
  cases hresult with
  | refused => exact .same _
  | settled =>
    rw [insertFire_tasks]
    exact .same _
  | existing =>
    simp only [claimExisting, Database.updateFires_tasks, insertFire_tasks]
    exact .same _
  | fresh schedule =>
    obtain ⟨f, hmoves, htasks⟩ := replacement_tasks sc.config
      (insertFire sc.config db scheduledFireAt) schedule sc.maxConsecutiveErrors
    rw [insertFire_tasks] at htasks
    have hclaim : (claimFresh sc.config scheduledFireAt (replacement sc.config
        (insertFire sc.config db scheduledFireAt) schedule sc.maxConsecutiveErrors)).1.tasks =
        db.tasks.map f := by
      rw [← htasks, claimFresh]
      split <;> rfl
    rw [hclaim]
    exact .move f hmoves

theorem claimManual_frame : (claimManual sc.config db lease).1.tasks = db.tasks ∧
      (claimManual sc.config db lease).1.leases = db.leases := by
  have hresult := claimManual_result sc.config db lease
  generalize claimManual sc.config db lease = r at hresult ⊢
  cases hresult with
  | refused | consumed | resumed => exact ⟨rfl, rfl⟩
  | fresh =>
    unfold claimFreshManual
    split
    · split
      · split <;> exact ⟨rfl, rfl⟩
      · exact ⟨rfl, rfl⟩
    · exact ⟨rfl, rfl⟩

theorem linkManualTask_frame : (linkManualTask db c lease).1.tasks = db.tasks ∧
      (linkManualTask db c lease).1.leases = db.leases ∧
      (linkManualTask db c lease).1.schedule = db.schedule := by
  unfold linkManualTask
  split
  · exact ⟨rfl, rfl, rfl⟩
  · split <;> exact ⟨rfl, rfl, rfl⟩

theorem markDispatched_frame : (markDispatched db c lease).1.tasks = db.tasks ∧
      (markDispatched db c lease).1.leases = db.leases ∧
      (markDispatched db c lease).1.schedule = db.schedule := by
  unfold markDispatched
  split <;> exact ⟨rfl, rfl, rfl⟩

theorem settleManualDispatched_frame (cfg : ScheduleConfig) (c : ScheduleFireClaim) (lease : Lease)
    (status : RunStatus) :
    (settleManualDispatched cfg db c lease status).1.tasks = db.tasks ∧
      (settleManualDispatched cfg db c lease status).1.leases = db.leases := by
  unfold settleManualDispatched
  split
  · exact ⟨rfl, rfl⟩
  · dsimp only
    split
    · exact ⟨rfl, rfl⟩
    · split
      · exact ⟨rfl, rfl⟩
      · split
        · split <;> exact ⟨rfl, rfl⟩
        · exact ⟨rfl, rfl⟩

theorem markFailed_cases (db : Database) (c : ScheduleFireClaim) (lease : Lease) (error : String)
    (next : Option Int) (errors : Nat) (reason : Option DisabledReason) :
    markFailed db c lease error next errors reason = (db, false) ∨
    ∃ schedule, db.schedule = some schedule ∧ schedule.nextFireAt = some c.scheduledFireAt ∧
      schedule.enabled ∧
      markFailed db c lease error next errors reason = ((failFire db c error).setSchedule
          (schedule.failDispatch c.scheduledFireAt next errors reason),
          db.fires.any (fun f => Claimed c f)) := by
  unfold markFailed
  split
  · exact .inl rfl
  · split
    · exact .inl rfl
    · rename_i schedule hschedule
      by_cases hmatch : schedule.nextFireAt = some c.scheduledFireAt ∧ schedule.enabled
      · rw [if_pos hmatch]
        exact .inr ⟨schedule, hschedule, hmatch.1, hmatch.2, rfl⟩
      · rw [if_neg hmatch]
        exact .inl rfl

theorem markManualFailed_frame (error : String) :
    (markManualFailed db c lease error).1.tasks = db.tasks ∧
      (markManualFailed db c lease error).1.leases = db.leases ∧
      (markManualFailed db c lease error).1.schedule = db.schedule := by
  unfold markManualFailed
  split <;> exact ⟨rfl, rfl, rfl⟩

theorem advanceSchedule_cases (db : Database) (scheduledFireAt : Int) (next : Option Int)
    (status : RunStatus) (errors : Nat) (lease : Lease) :
    advanceSchedule db scheduledFireAt next status errors lease = (db, false) ∨
    ∃ schedule, db.schedule = some schedule ∧ schedule.nextFireAt = some scheduledFireAt ∧
      advanceSchedule db scheduledFireAt next status errors lease =
        (db.setSchedule (schedule.moveOn scheduledFireAt next status errors), true) := by
  unfold advanceSchedule
  split
  · exact .inl rfl
  · split
    · exact .inl rfl
    · rename_i schedule hschedule
      by_cases hmatch : schedule.nextFireAt = some scheduledFireAt
      · rw [if_pos hmatch]
        exact .inr ⟨schedule, hschedule, hmatch, rfl⟩
      · rw [if_neg hmatch]
        exact .inl rfl

theorem projectManualTerminalResult_cases (db : Database) (taskId : FireKey) (status : TaskStatus)
    (completedAt : Int) (limit : Nat) :
    projectManualTerminalResult db taskId status completedAt limit = (db, none) ∨
    ∃ fire schedule, status.Terminal ∧
      db.fires.find? (fun f => f.taskId = some taskId ∧ f.fireKind = .manual) = some fire ∧
      fire.settled = false ∧ db.schedule = some schedule ∧
      projectManualTerminalResult db taskId status completedAt limit =
        ((db.updateFires (·.fireId = fire.fireId)
          (·.project (if status = .completed then .dispatched else .failed) status)).setSchedule
            (schedule.projectManual taskId status completedAt limit),
          some (report schedule (schedule.projectManual taskId status completedAt limit))) := by
  unfold projectManualTerminalResult
  split
  · exact .inl rfl
  · rename_i hterminal
    split
    · exact .inl rfl
    · rename_i fire hfire
      split
      · exact .inl rfl
      · rename_i hopen
        split
        · exact .inl rfl
        · rename_i schedule hschedule
          exact .inr ⟨fire, schedule, not_not.mp hterminal, hfire, Bool.eq_false_iff.mpr hopen,
            hschedule, rfl⟩

theorem projectRecurringTerminalResult_cases (db : Database) (taskId : FireKey)
    (status : TaskStatus) (next : Option Int) (limit : Nat) :
    projectRecurringTerminalResult db taskId status next limit = (db, none) ∨
    ∃ fire schedule, status.Terminal ∧
      db.fires.find? (fun f => f.taskId = some taskId ∧ f.fireKind = .recurring) = some fire ∧
      fire.settled = false ∧ db.schedule = some schedule ∧
      projectRecurringTerminalResult db taskId status next limit =
        ((db.updateFires (·.fireId = fire.fireId)
          (·.project (if status = .failed then .failed else .dispatched) status)).setSchedule
            (schedule.projectRecurring taskId status next limit),
          some (report schedule (schedule.projectRecurring taskId status next limit))) := by
  unfold projectRecurringTerminalResult
  split
  · exact .inl rfl
  · rename_i hterminal
    split
    · exact .inl rfl
    · rename_i fire hfire
      split
      · exact .inl rfl
      · rename_i schedule hschedule
        split
        · exact .inl rfl
        · rename_i hopen
          exact .inr ⟨fire, schedule, not_not.mp hterminal, hfire, Bool.eq_false_iff.mpr hopen,
            hschedule, rfl⟩

theorem submit_cases (db : Database) (taskId : FireKey) (scheduledFor : Int) (status : TaskStatus) :
    (db.getTask taskId).isSome ∧ submit db taskId scheduledFor status = (db, false) ∨
    db.getTask taskId = none ∧ submit db taskId scheduledFor status =
      ({ db with tasks := db.tasks ++ [⟨taskId, status, scheduledFor, none⟩] }, true) := by
  unfold submit
  split
  · rename_i hsome
    exact .inl ⟨hsome, rfl⟩
  · rename_i hnone
    exact .inr ⟨by simpa using hnone, rfl⟩

theorem submitExisting_cases (db : Database) (taskId : FireKey) :
    submitExisting db taskId = (db, false) ∨
    ∃ t, db.getTask taskId = some t ∧ t.status = .draft ∧ submitExisting db taskId =
      (db.updateTasks (·.taskId = taskId) fun t => { t with status := .queued }, true) := by
  unfold submitExisting
  cases hget : db.getTask taskId with
  | none => exact .inl rfl
  | some t =>
    by_cases hdraft : t.status = .draft
    · have hany : (some t).any (·.status = .draft) := by simp [hdraft]
      rw [if_pos hany]
      exact .inr ⟨t, rfl, hdraft, rfl⟩
    · have hany : ¬ (some t).any (·.status = .draft) := by simp [hdraft]
      rw [if_neg hany]
      exact .inl rfl

theorem updateNextFireAt_frame (db : Database) (next : Int) :
    (updateNextFireAt db next).1.tasks = db.tasks ∧
      (updateNextFireAt db next).1.leases = db.leases ∧
      (updateNextFireAt db next).1.fires = db.fires := by
  unfold updateNextFireAt
  split <;> exact ⟨rfl, rfl, rfl⟩

variable (sc : Scheduler)

theorem initialiseNextFireTimes_frame (db : Database) :
    (initialiseNextFireTimes sc db).tasks = db.tasks ∧
      (initialiseNextFireTimes sc db).leases = db.leases ∧
      (initialiseNextFireTimes sc db).fires = db.fires := by
  unfold initialiseNextFireTimes
  split
  · exact ⟨rfl, rfl, rfl⟩
  · split
    · split <;> exact ⟨rfl, rfl, rfl⟩
    · exact ⟨rfl, rfl, rfl⟩

theorem moveTask_movesTo (taskId : FireKey) (status : TaskStatus) (summary : Option String)
    (t : TaskRow) :
    t.MovesTo (if (decide (t.taskId = taskId ∧ t.status.MovesTo status)) = true then
      { t with status := status, resultSummary := summary } else t) := by
  split
  · rename_i h
    exact .inr ⟨rfl, (of_decide_eq_true h).2⟩
  · exact .inl rfl

/-- The calls that write neither the tasks nor the leases. -/
def Call.keepsRest : Call → Bool
  | .claim .. | .submit .. | .submitExisting .. | .moveTask .. | .lease .. => false
  | _ => true

theorem perform_frame (db : Database) {call : Call} (h : call.keepsRest) :
    (perform sc db call).1.tasks = db.tasks ∧ (perform sc db call).1.leases = db.leases := by
  cases call with
  | claim | submit | submitExisting | moveTask | lease => cases h
  | claimManual lease => exact claimManual_frame lease
  | linkManualTask c lease =>
    exact And.imp_right And.left (linkManualTask_frame c lease)
  | markDispatched c lease =>
    exact And.imp_right And.left (markDispatched_frame c lease)
  | settleManualDispatched c lease status =>
      exact settleManualDispatched_frame sc.config c lease status
  | markFailed c lease error next errors reason =>
    simp only [perform]
    obtain h | ⟨schedule, -, -, -, h⟩ := markFailed_cases db c lease error next errors reason <;>
      rw [h] <;> exact ⟨rfl, rfl⟩
  | markManualFailed c lease error =>
    exact And.imp_right And.left (markManualFailed_frame c lease error)
  | advanceSchedule scheduledFireAt next status errors lease =>
    simp only [perform]
    obtain h | ⟨schedule, -, -, h⟩ :=
      advanceSchedule_cases db scheduledFireAt next status errors lease <;>
      rw [h] <;> exact ⟨rfl, rfl⟩
  | projectManual taskId status completedAt =>
    simp only [perform]
    obtain h | ⟨fire, schedule, -, -, -, -, h⟩ :=
      projectManualTerminalResult_cases db taskId status completedAt sc.maxConsecutiveErrors <;>
      rw [h] <;> exact ⟨rfl, rfl⟩
  | projectRecurring taskId status next =>
    simp only [perform]
    obtain h | ⟨fire, schedule, -, -, -, -, h⟩ :=
      projectRecurringTerminalResult_cases db taskId status next sc.maxConsecutiveErrors <;>
      rw [h] <;> exact ⟨rfl, rfl⟩
  | updateNextFireAt next =>
    obtain ⟨htasks, hleases, -⟩ := updateNextFireAt_frame db next
    exact ⟨htasks, hleases⟩
  | initialiseNextFireTimes =>
    obtain ⟨htasks, hleases, -⟩ := initialiseNextFireTimes_frame sc db
    exact ⟨htasks, hleases⟩
  | deleteSchedule => exact ⟨rfl, rfl⟩

theorem perform_tasksChange (db : Database) (call : Call) :
    TasksChange db call (perform sc db call).1.tasks := by
  cases call with
  | claim scheduledFireAt lease => exact claim_tasksChange scheduledFireAt lease
  | submit taskId scheduledFor status =>
    simp only [perform]
    obtain ⟨-, h⟩ | ⟨hnone, h⟩ := submit_cases db taskId scheduledFor status
    · rw [h]
      exact .same _
    · rw [h]
      exact .create taskId scheduledFor status rfl hnone
  | submitExisting taskId =>
    simp only [perform]
    obtain h | ⟨t, ht, hdraft, h⟩ := submitExisting_cases db taskId
    · rw [h]
      exact .same _
    · rw [h]
      have hchange := TasksChange.enqueue taskId rfl t ht hdraft
      simpa [Database.updateTasks] using hchange
  | lease => exact .same _
  | moveTask taskId status summary => exact .move _ (moveTask_movesTo taskId status summary)
  | _ =>
    rw [(perform_frame sc db rfl).1]
    exact .same _

theorem perform_leases (db : Database) (call : Call) :
    (perform sc db call).1.leases = db.leases ∨
    ∃ c, call = .lease c ∧ (perform sc db call).1.leases = (db.leases.perform c).1 := by
  cases call with
  | claim scheduledFireAt lease =>
    left
    have hresult := claim_result sc.config db scheduledFireAt lease sc.maxConsecutiveErrors
    simp only [perform]
    generalize claim sc.config db scheduledFireAt lease sc.maxConsecutiveErrors = r at hresult ⊢
    cases hresult with
    | refused => rfl
    | settled | existing => exact insertFire_leases scheduledFireAt
    | fresh schedule =>
      rw [claimFresh]
      split <;> exact (replacement_leases schedule _).trans (insertFire_leases scheduledFireAt)
  | submit taskId scheduledFor status =>
    left
    simp only [perform]
    obtain ⟨-, h⟩ | ⟨-, h⟩ := submit_cases db taskId scheduledFor status <;> rw [h]
  | submitExisting taskId =>
    left
    simp only [perform]
    obtain h | ⟨t, -, -, h⟩ := submitExisting_cases db taskId
    · rw [h]
    · rw [h]
      rfl
  | moveTask => exact .inl rfl
  | lease call => exact .inr ⟨call, rfl, rfl⟩
  | _ => exact .inl (perform_frame sc db rfl).2

theorem perform_now (db : Database) (call : Call) :
    (perform sc db call).1.now = db.now := by
  obtain h | ⟨c, -, h⟩ := perform_leases sc db call
  · rw [Database.now, h, Database.now]
  · rw [Database.now, h, LeaseStore.perform_now, Database.now]

theorem perform_leaseRow (db : Database) (call : Call) (key : String) :
    RowChange db.now (db.leases.rows key) ((perform sc db call).1.leases.rows key) := by
  obtain h | ⟨c, -, h⟩ := perform_leases sc db call
  · rw [h]
    exact .keep _
  · rw [h]
    exact LeaseStore.perform_rowChange db.leases c key

theorem isCurrent_before {sc : Scheduler} {db : Database} {call : Call} {l : Lease}
    (hfence : l.fencingToken ≤ fence (db.leases.rows l.resourceKey))
    (h : (perform sc db call).1.leases.isCurrent l) : db.leases.isCurrent l := by
  have hnow := perform_now sc db call
  have hrow := perform_leaseRow sc db call l.resourceKey
  rw [isCurrent_iff] at h ⊢
  obtain ⟨row, hafter, hholds, hlive⟩ := h
  rw [← Database.now, hnow] at hlive
  rw [hafter] at hrow
  generalize hbefore : db.leases.rows l.resourceKey = before at hrow hfence
  cases hrow with
  | keep => exact ⟨row, rfl, hholds, hlive⟩
  | advance =>
    have htoken := hholds.2
    omega
  | extend old expires hold => exact ⟨old, rfl, hholds, hold⟩
  | expire old =>
    exact absurd hlive (lt_irrefl _)

end

end Cognis.Schedule
