import Cognis.Coordination.Lease

namespace Cognis.Schedule

open Coordination

inductive ScheduleType where
  | cron
  | interval
  | oneShot
  deriving DecidableEq

inductive FireKind where
  | recurring
  | manual
  deriving DecidableEq

inductive FireStatus where
  | claimed
  | dispatched
  | skipped
  | failed
  deriving DecidableEq

inductive TaskStatus where
  | draft
  | queued
  | ready
  | running
  | paused
  | completed
  | failed
  | cancelled
  deriving DecidableEq

/-- The statuses `claim` counts against the cap. -/
def TaskStatus.Active (s : TaskStatus) : Prop :=
  s = .queued ∨ s = .ready ∨ s = .running ∨ s = .paused

instance (s : TaskStatus) : Decidable s.Active := inferInstanceAs (Decidable (_ ∨ _))

def TaskStatus.Terminal (s : TaskStatus) : Prop := s = .completed ∨ s = .failed ∨ s = .cancelled

instance (s : TaskStatus) : Decidable s.Terminal := inferInstanceAs (Decidable (_ ∨ _))

inductive RunStatus where
  | success
  | failed
  | skipped
  | cancelled
  deriving DecidableEq

/-- `last_error`: the `terminal:` marker of a projected result, or the text of
a failed dispatch. -/
inductive FireError where
  | terminal (status : TaskStatus)
  | dispatch (text : String)
  deriving DecidableEq

inductive DisabledReason where
  | autoConsecutiveFailures (errors : Nat)
  | other (text : String)
  deriving DecidableEq

/-- The columns of a schedule that only an edit by its owner changes. -/
structure ScheduleConfig where
  scheduleId : String
  scheduleType : ScheduleType
  cronExpr : Option String := none
  intervalSeconds : Option Int := none
  oneShotAt : Option Int := none
  timezone : String := "UTC"
  maxConcurrentRuns : Int := 1
  deleteAfterRun : Bool := false
  retryFailedTasks : Bool := false
  failPausedTaskOnNextFire : Bool := true
  deriving DecidableEq

/-- The identity of a fire and of its task: both are digests of the kind of the
fire and its time, and stand here for what they digest. -/
abbrev FireKey := FireKind × Int

def scheduleFireId (scheduledFireAt : Int) : FireKey := (.recurring, scheduledFireAt)

def scheduleTaskId (scheduledFireAt : Int) : FireKey := (.recurring, scheduledFireAt)

def manualScheduleFireId (scheduledFireAt : Int) : FireKey := (.manual, scheduledFireAt)

def manualScheduleTaskId (scheduledFireAt : Int) : FireKey := (.manual, scheduledFireAt)

structure ScheduleRow where
  enabled : Bool := true
  lastFiredAt : Option Int := none
  nextFireAt : Option Int := none
  lastRunStatus : Option RunStatus := none
  lastTerminalTaskId : Option FireKey := none
  consecutiveErrors : Nat := 0
  disabledReason : Option DisabledReason := none
  deriving DecidableEq

structure ScheduleFireRow where
  fireId : FireKey
  fireKind : FireKind
  scheduledFireAt : Int
  scheduleTimezone : String
  taskId : Option FireKey := none
  status : FireStatus := .claimed
  attemptCount : Nat := 0
  lastError : Option FireError := none
  createdAt : Int
  dispatchedAt : Option Int := none
  deriving DecidableEq

/-- `str(fire.last_error or "").startswith("terminal:")`. -/
def ScheduleFireRow.settled (f : ScheduleFireRow) : Bool :=
  match f.lastError with
  | some (.terminal _) => true
  | _ => false

/-- `str(schedule.disabled_reason or "").startswith("auto_consecutive_failures:")`. -/
def ScheduleRow.autoDisabled (s : ScheduleRow) : Bool :=
  match s.disabledReason with
  | some (.autoConsecutiveFailures _) => true
  | _ => false

structure TaskRow where
  taskId : FireKey
  status : TaskStatus
  scheduledFor : Int
  resultSummary : Option String := none
  deriving DecidableEq

/-- The rows of one schedule: its own, its fires and its tasks in the order of
their creation, and the leases, whose clock is the database's. -/
structure Database where
  schedule : Option ScheduleRow
  fires : List ScheduleFireRow
  tasks : List TaskRow
  leases : LeaseStore

namespace Database

variable (db : Database)

def now : Int := db.leases.now

def wait (elapsed : Nat) : Database := { db with leases := db.leases.wait elapsed }

def findFire (fireId : FireKey) : Option ScheduleFireRow := db.fires.find? (·.fireId = fireId)

def getTask (taskId : FireKey) : Option TaskRow := db.tasks.find? (·.taskId = taskId)

def activeCount : Nat := db.tasks.countP (·.status.Active)

def updateFires (p : ScheduleFireRow → Bool) (f : ScheduleFireRow → ScheduleFireRow) : Database :=
  { db with fires := db.fires.map fun fire => if p fire then f fire else fire }

def updateTasks (p : TaskRow → Bool) (f : TaskRow → TaskRow) : Database :=
  { db with tasks := db.tasks.map fun task => if p task then f task else task }

def setSchedule (row : ScheduleRow) : Database := { db with schedule := some row }

def deleteSchedule : Database := { db with schedule := none, fires := [] }

end Database

structure ScheduleFireClaim where
  fireId : FireKey
  scheduledFireAt : Int
  taskId : FireKey
  status : FireStatus
  shouldDispatch : Bool
  schedule : ScheduleRow
  replacedPausedTaskIds : List FireKey := []
  deriving DecidableEq

structure Projection where
  errors : Nat
  autoDisabled : Bool
  autoDisabledState : Bool
  currentEnabled : Bool
  disabledReason : Option DisabledReason
  deriving DecidableEq

/-- `reason` of a paused task that the next firing replaces. -/
def replacedReason : String := "Replaced at the next scheduled firing while still paused."

section

variable (cfg : ScheduleConfig) (db : Database)

def lockLease (lease : Lease) : Bool := db.leases.isCurrent lease

def newFire (kind : FireKind) (fireId : FireKey) (scheduledFireAt : Int) : ScheduleFireRow where
  fireId := fireId
  fireKind := kind
  scheduledFireAt := scheduledFireAt
  scheduleTimezone := cfg.timezone
  createdAt := db.now

/-- The insert of `claim`, which does nothing where the fire already exists. -/
def insertFire (scheduledFireAt : Int) : Database :=
  if db.fires.any (fun f => f.fireKind = .recurring ∧ f.scheduledFireAt = scheduledFireAt) then db
  else
    { db with
      fires := db.fires ++
        [newFire cfg db .recurring (scheduleFireId scheduledFireAt) scheduledFireAt] }

def pausedTaskIds : List FireKey := (db.tasks.filter (·.status = .paused)).map (·.taskId)

def ScheduleRow.countFailures (row : ScheduleRow) (errors : Nat) (lastTaskId : Option FireKey)
    (maxConsecutiveErrors : Nat) : ScheduleRow :=
  let failed :=
    { row with
      consecutiveErrors := errors
      lastRunStatus := some .failed
      lastTerminalTaskId := lastTaskId }
  if maxConsecutiveErrors ≤ errors then
    { failed with
      enabled := false
      nextFireAt := none
      disabledReason := some (.autoConsecutiveFailures errors) }
  else failed

def failPausedRows : Database :=
  let failTasks := db.updateTasks (·.status = .paused)
    fun t => { t with status := .failed, resultSummary := some replacedReason }
  failTasks.updateFires (fun f => f.taskId.any (· ∈ pausedTaskIds db) ∧ f.settled = false)
    fun f => { f with status := .failed, lastError := some (.terminal .failed) }

def replacePaused (row : ScheduleRow) (maxConsecutiveErrors : Nat) :
    Database × ScheduleRow × List FireKey :=
  let ids := pausedTaskIds db
  if ids = [] then (db, row, [])
  else
    let row' := row.countFailures (row.consecutiveErrors + ids.length) ids.getLast?
      maxConsecutiveErrors
    ((failPausedRows db).setSchedule row', row', ids)

def replacement (row : ScheduleRow) (maxConsecutiveErrors : Nat) :
    Database × ScheduleRow × List FireKey :=
  if cfg.failPausedTaskOnNextFire then replacePaused db row maxConsecutiveErrors
  else (db, row, [])

/-- A claim of a fire none of whose tasks exists: under the cap it is to be
dispatched, else it is skipped. -/
def claimFresh (scheduledFireAt : Int) (replaced : Database × ScheduleRow × List FireKey) :
    Database × Option ScheduleFireClaim :=
  let fireId := scheduleFireId scheduledFireAt
  let taskId := scheduleTaskId scheduledFireAt
  if cfg.maxConcurrentRuns ≤ replaced.1.activeCount then
    (replaced.1.updateFires (·.fireId = fireId) fun f => { f with status := .skipped },
      some ⟨fireId, scheduledFireAt, taskId, .skipped, false, replaced.2.1, replaced.2.2⟩)
  else
    (replaced.1.updateFires (·.fireId = fireId) fun f =>
        { f with
          status := .claimed
          attemptCount := f.attemptCount + 1
          lastError := none },
      some ⟨fireId, scheduledFireAt, taskId, .claimed, true, replaced.2.1, replaced.2.2⟩)

def claimExisting (scheduledFireAt : Int) (schedule : ScheduleRow) :
    Database × Option ScheduleFireClaim :=
  let fireId := scheduleFireId scheduledFireAt
  let taskId := scheduleTaskId scheduledFireAt
  (db.updateFires (·.fireId = fireId) fun f =>
      { f with
        status := .claimed
        taskId := some taskId
        attemptCount := f.attemptCount + 1
        lastError := none },
    some ⟨fireId, scheduledFireAt, taskId, .claimed, true, schedule, []⟩)

def claim (scheduledFireAt : Int) (lease : Lease) (maxConsecutiveErrors : Nat) :
    Database × Option ScheduleFireClaim :=
  if lockLease db lease = false then (db, none)
  else
    match db.schedule with
    | none => (db, none)
    | some schedule =>
      if schedule.enabled = false ∨ schedule.nextFireAt ≠ some scheduledFireAt then (db, none)
      else
        let fireId := scheduleFireId scheduledFireAt
        let taskId := scheduleTaskId scheduledFireAt
        let db₁ := insertFire cfg db scheduledFireAt
        match db₁.findFire fireId with
        | none => (db, none)
        | some fire =>
          if fire.status = .dispatched ∨ fire.status = .skipped then
            (db₁, some ⟨fireId, scheduledFireAt, fire.taskId.getD taskId, fire.status, false,
              schedule, []⟩)
          else if (db₁.getTask taskId).isSome then claimExisting db₁ scheduledFireAt schedule
          else claimFresh cfg scheduledFireAt (replacement cfg db₁ schedule maxConsecutiveErrors)

/-- The loop of `_manual_fire_at`, over at most as many steps as there are times
taken. -/
def freeTime (taken : List Int) : Nat → Int → Int
  | 0, candidate => candidate
  | n + 1, candidate => if candidate ∈ taken then freeTime taken n (candidate + 1) else candidate

/-- `_manual_fire_at`: an identity outside the recurring timestamps. -/
def manualFireAt (recurringFireAt : Option Int) : Int :=
  let candidate := if db.now % 1000000 = 0 then db.now + 1 else db.now
  let taken := recurringFireAt.toList ++ db.fires.map (·.scheduledFireAt)
  freeTime taken taken.length candidate

/-- The first fire in descending order of the given time. -/
def newestOf (by_ : ScheduleFireRow → Option Int) : List ScheduleFireRow → Option ScheduleFireRow
  | [] => none
  | f :: fires =>
    match newestOf by_ fires with
    | none => some f
    | some newest => if (by_ newest).any fun t => (by_ f).all (· < t) then some newest else some f

def newestManual (p : ScheduleFireRow → Bool) (by_ : ScheduleFireRow → Option Int) :
    Option ScheduleFireRow :=
  newestOf by_ (db.fires.filter fun f => f.fireKind = .manual ∧ p f)

def dispatchedManual : Option ScheduleFireRow :=
  newestManual db (fun f => f.status = .dispatched ∧ f.taskId.isSome) (·.dispatchedAt)

def pendingManual : Option ScheduleFireRow :=
  newestManual db (·.status = .claimed) (fun f => f.createdAt)

/-- The fresh branch of `claim_manual`. -/
def claimFreshManual (schedule : ScheduleRow) : Database × Option ScheduleFireClaim :=
  let scheduledFireAt := manualFireAt db schedule.nextFireAt
  let fireId := manualScheduleFireId scheduledFireAt
  let taskId := manualScheduleTaskId scheduledFireAt
  let fire := newFire cfg db .manual fireId scheduledFireAt
  if cfg.maxConcurrentRuns ≤ db.activeCount then
    let row :=
      { schedule with
        lastFiredAt := some scheduledFireAt
        nextFireAt := none
        lastRunStatus := some .skipped }
    let skipped := { db with fires := db.fires ++ [{ fire with status := .skipped }] }
    let db' :=
      if cfg.scheduleType = .oneShot then
        if cfg.deleteAfterRun then skipped.deleteSchedule else skipped.setSchedule row
      else skipped
    let seen := if cfg.scheduleType = .oneShot ∧ cfg.deleteAfterRun = false then row else schedule
    (db', some ⟨fireId, scheduledFireAt, taskId, .skipped, false, seen, []⟩)
  else
    ({ db with fires := db.fires ++ [{ fire with attemptCount := 1 }] },
      some ⟨fireId, scheduledFireAt, taskId, .claimed, true, schedule, []⟩)

def claimManual (lease : Lease) : Database × Option ScheduleFireClaim :=
  if lockLease db lease = false then (db, none)
  else
    match db.schedule with
    | none => (db, none)
    | some schedule =>
      let recoveryAllowed := cfg.scheduleType ≠ .oneShot ∧ schedule.autoDisabled
      if schedule.enabled = false ∧ ¬ recoveryAllowed then (db, none)
      else if cfg.scheduleType = .oneShot ∧ schedule.nextFireAt = none then
        match dispatchedManual db with
        | none => (db, none)
        | some fire =>
          (db, some ⟨fire.fireId, fire.scheduledFireAt, fire.taskId.getD fire.fireId, .dispatched,
            false, schedule, []⟩)
      else
        match pendingManual db with
        | some pending =>
          (db.updateFires (·.fireId = pending.fireId)
            fun f => { f with attemptCount := f.attemptCount + 1, lastError := none },
            some ⟨pending.fireId, pending.scheduledFireAt,
              pending.taskId.getD (manualScheduleTaskId pending.scheduledFireAt), .claimed, true,
              schedule, []⟩)
        | none => claimFreshManual cfg db schedule

variable (taskId : FireKey)

def isManualTask : Bool :=
  db.fires.any fun f => f.taskId = some taskId ∧ f.fireKind = .manual

/-- The schedule after a failed run: one error more, disabled at the limit
unless its owner disabled it. -/
def ScheduleRow.failRun (row : ScheduleRow) (taskId : FireKey) (maxConsecutiveErrors : Nat) :
    ScheduleRow :=
  let errors := row.consecutiveErrors + 1
  let failed :=
    { row with
      lastTerminalTaskId := some taskId
      lastRunStatus := some .failed
      consecutiveErrors := errors }
  if maxConsecutiveErrors ≤ errors ∧ (row.enabled ∨ row.autoDisabled) then
    { failed with
      enabled := false
      nextFireAt := none
      disabledReason := some (.autoConsecutiveFailures errors) }
  else failed

/-- The report on a projected row; `before` is the row it replaced. -/
def report (before after : ScheduleRow) : Projection where
  errors := after.consecutiveErrors
  autoDisabled := before.enabled && !after.enabled
  autoDisabledState := before.autoDisabled || after.autoDisabled
  currentEnabled := after.enabled
  disabledReason := after.disabledReason

def ScheduleRow.projectManual (schedule : ScheduleRow) (taskId : FireKey) (status : TaskStatus)
    (completedAt : Int) (maxConsecutiveErrors : Nat) : ScheduleRow :=
  let fired := { schedule with lastFiredAt := some completedAt }
  if status = .failed then fired.failRun taskId maxConsecutiveErrors
  else
    { fired with
      lastTerminalTaskId := some taskId
      lastRunStatus := some (if status = .completed then .success else .cancelled)
      consecutiveErrors := 0 }

def ScheduleRow.projectRecurring (schedule : ScheduleRow) (taskId : FireKey) (status : TaskStatus)
    (nextFireAt : Option Int) (maxConsecutiveErrors : Nat) : ScheduleRow :=
  if status = .failed then
    let failed := schedule.failRun taskId maxConsecutiveErrors
    if failed.enabled then { failed with nextFireAt := nextFireAt } else failed
  else
    { schedule with
      lastTerminalTaskId := some taskId
      lastRunStatus := some (if status = .completed then .success else .cancelled)
      consecutiveErrors := 0
      disabledReason := if schedule.enabled then none else schedule.disabledReason }

def ScheduleFireRow.project (f : ScheduleFireRow) (fireStatus : FireStatus)
    (status : TaskStatus) : ScheduleFireRow :=
  { f with status := fireStatus, lastError := some (.terminal status) }

def projectManualTerminalResult (status : TaskStatus) (completedAt : Int)
    (maxConsecutiveErrors : Nat) : Database × Option Projection :=
  if ¬ status.Terminal then (db, none)
  else
    match db.fires.find? (fun f => f.taskId = some taskId ∧ f.fireKind = .manual) with
    | none => (db, none)
    | some fire =>
      if fire.settled then (db, none)
      else
        match db.schedule with
        | none => (db, none)
        | some schedule =>
          let row := schedule.projectManual taskId status completedAt maxConsecutiveErrors
          let fireStatus := if status = .completed then .dispatched else .failed
          ((db.updateFires (·.fireId = fire.fireId) (·.project fireStatus status)).setSchedule row,
            some (report schedule row))

def projectRecurringTerminalResult (status : TaskStatus)
    (nextFireAt : Option Int) (maxConsecutiveErrors : Nat) : Database × Option Projection :=
  if ¬ status.Terminal then (db, none)
  else
    match db.fires.find? (fun f => f.taskId = some taskId ∧ f.fireKind = .recurring) with
    | none => (db, none)
    | some fire =>
      match db.schedule with
      | none => (db, none)
      | some schedule =>
        if fire.settled then (db, none)
        else
          let row := schedule.projectRecurring taskId status nextFireAt maxConsecutiveErrors
          let fireStatus := if status = .failed then .failed else .dispatched
          ((db.updateFires (·.fireId = fire.fireId) (·.project fireStatus status)).setSchedule row,
            some (report schedule row))

variable (c : ScheduleFireClaim)

def Claimed (f : ScheduleFireRow) : Prop :=
  f.fireId = c.fireId ∧ f.status = .claimed

instance (c : ScheduleFireClaim) (f : ScheduleFireRow) : Decidable (Claimed c f) :=
  inferInstanceAs (Decidable (_ ∧ _))

def linkManualTask (lease : Lease) : Database × Bool :=
  if lockLease db lease = false then (db, false)
  else if db.fires.any (fun f => Claimed c f ∧ f.fireKind = .manual ∧ f.taskId = none) then
    (db.updateFires (fun f => Claimed c f ∧ f.fireKind = .manual ∧ f.taskId = none)
      fun f => { f with taskId := some c.taskId }, true)
  else
    (db, (db.fires.find? (fun f => Claimed c f ∧ f.fireKind = .manual)).any
      (·.taskId = some c.taskId))

/-- The update of `mark_dispatched` and `settle_manual_dispatched`. -/
def dispatchFire : Database :=
  db.updateFires (fun f => Claimed c f) fun f =>
      { f with status := .dispatched, taskId := some c.taskId, dispatchedAt := some db.now }

def markDispatched (lease : Lease) : Database × Bool :=
  if lockLease db lease = false then (db, false)
  else (dispatchFire db c, db.fires.any (fun f => Claimed c f))

def settleManualDispatched (lease : Lease) (oneShotStatus : RunStatus) :
    Database × Bool :=
  if lockLease db lease = false then (db, false)
  else
    let dispatched := db.fires.any (fun f => Claimed c f)
    let terminal := db.fires.any fun f =>
      f.fireId = c.fireId ∧ f.taskId = some c.taskId ∧ f.settled
    if dispatched = false ∧ terminal = false then (db, false)
    else
      let db₁ := dispatchFire db c
      match db₁.schedule with
      | none => (db₁, true)
      | some schedule =>
        if cfg.scheduleType = .oneShot then
          if cfg.deleteAfterRun then (db₁.deleteSchedule, true)
          else
            (db₁.setSchedule { schedule with
                lastFiredAt := some c.scheduledFireAt
                nextFireAt := none
                lastRunStatus :=
                  if dispatched then some oneShotStatus else schedule.lastRunStatus },
              true)
        else (db₁, true)

def failFire (error : String) : Database :=
  db.updateFires (fun f => Claimed c f)
    fun f => { f with status := .failed, lastError := some (.dispatch error) }

def ScheduleRow.failDispatch (schedule : ScheduleRow) (scheduledFireAt : Int)
    (nextFireAt : Option Int) (consecutiveErrors : Nat) (disabledReason : Option DisabledReason) :
    ScheduleRow :=
  { schedule with
    lastFiredAt := some scheduledFireAt
    nextFireAt := nextFireAt
    lastRunStatus := some .failed
    lastTerminalTaskId := none
    consecutiveErrors := consecutiveErrors
    disabledReason := disabledReason
    enabled := disabledReason.isNone }

def markFailed (lease : Lease) (error : String)
    (nextFireAt : Option Int) (consecutiveErrors : Nat)
    (disabledReason : Option DisabledReason) : Database × Bool :=
  if lockLease db lease = false then (db, false)
  else
    match db.schedule with
    | none => (db, false)
    | some schedule =>
      if schedule.nextFireAt = some c.scheduledFireAt ∧ schedule.enabled then
        ((failFire db c error).setSchedule
          (schedule.failDispatch c.scheduledFireAt nextFireAt consecutiveErrors disabledReason),
          db.fires.any (fun f => Claimed c f))
      else (db, false)

def markManualFailed (lease : Lease) (error : String) : Database × Bool :=
  if lockLease db lease = false then (db, false)
  else (failFire db c error, db.fires.any (fun f => Claimed c f))

def ScheduleRow.moveOn (schedule : ScheduleRow) (scheduledFireAt : Int) (nextFireAt : Option Int)
    (status : RunStatus) (consecutiveErrors : Nat) : ScheduleRow :=
  { schedule with
    lastFiredAt := some scheduledFireAt
    nextFireAt := nextFireAt
    lastRunStatus := some status
    consecutiveErrors := consecutiveErrors }

def advanceSchedule (scheduledFireAt : Int) (nextFireAt : Option Int) (status : RunStatus)
    (consecutiveErrors : Nat) (lease : Lease) : Database × Bool :=
  if lockLease db lease = false then (db, false)
  else
    match db.schedule with
    | none => (db, false)
    | some schedule =>
      if schedule.nextFireAt = some scheduledFireAt then
        (db.setSchedule (schedule.moveOn scheduledFireAt nextFireAt status consecutiveErrors), true)
      else (db, false)

end

section

variable {taken : List Int}

theorem freeTime_not_mem (n : Nat) (candidate : Int)
    (h : (taken.filter (candidate ≤ ·)).length ≤ n) : freeTime taken n candidate ∉ taken := by
  induction n generalizing candidate with
  | zero =>
    rw [freeTime]
    intro hmem
    have hin : candidate ∈ taken.filter (candidate ≤ ·) := by simp [hmem]
    have hpos := List.length_pos_of_mem hin
    omega
  | succ n ih =>
    rw [freeTime]
    by_cases hmem : candidate ∈ taken
    · rw [if_pos hmem]
      apply ih
      have hsub : (taken.filter (candidate + 1 ≤ ·)).length <
          (taken.filter (candidate ≤ ·)).length := by
        have hle : (taken.filter (candidate + 1 ≤ ·)) =
            (taken.filter (candidate ≤ ·)).filter (candidate + 1 ≤ ·) := by
          rw [List.filter_filter]
          apply List.filter_congr
          intro t _
          rw [← Bool.decide_and, decide_eq_decide]
          omega
        rw [hle]
        apply List.length_filter_lt_length_iff_exists.mpr
        refine ⟨candidate, by simp [hmem], ?_⟩
        rw [decide_eq_true_iff]
        omega
      omega
    · rw [if_neg hmem]
      exact hmem

theorem manualFireAt_not_mem (db : Database) (recurringFireAt : Option Int) :
    manualFireAt db recurringFireAt ∉ recurringFireAt.toList ++ db.fires.map (·.scheduledFireAt) :=
  freeTime_not_mem _ _ (List.length_filter_le _ _)

end

end Cognis.Schedule
