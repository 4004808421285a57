import Cognis.Library.Pool
import Cognis.Schedule.FireStore

namespace Cognis.Schedule

open Coordination

/-- A scheduler for one schedule. `nextCron expr timezone after` is the cron
library's next occurrence. -/
structure Scheduler where
  config : ScheduleConfig
  maxConsecutiveErrors : Nat
  nextCron : String → String → Int → Int

def second : Int := 1000000

/-- The time to live of the leases of fires. -/
def fireLease : Int := 60 * second

def backoffSchedule : List Int := [30, 60, 300, 900, 3600]

/-- `_compute_backoff_delay`, in microseconds. -/
def computeBackoffDelay (consecutiveErrors : Nat) : Int :=
  backoffSchedule.getD (min (consecutiveErrors - 1) (backoffSchedule.length - 1)) 0 * second

theorem computeBackoffDelay_pos (consecutiveErrors : Nat) :
    0 < computeBackoffDelay consecutiveErrors := by
  have hidx : min (consecutiveErrors - 1) 4 < 5 := by omega
  have htable : ∀ i < 5, 0 < backoffSchedule.getD i 0 * second := by decide
  exact htable _ hidx

namespace Scheduler

variable (sc : Scheduler)

def leaseKey : String := "schedule:" ++ sc.config.scheduleId

def computeNextFire (schedule : ScheduleRow) (after : Int) : Option Int :=
  match sc.config.scheduleType with
  | .cron =>
    (sc.config.cronExpr.filter (· ≠ "")).map fun expr => sc.nextCron expr sc.config.timezone after
  | .interval =>
    match sc.config.intervalSeconds with
    | some seconds => if seconds = 0 then none else some (after + seconds * second)
    | none => none
  | .oneShot =>
    if schedule.lastFiredAt.isSome then none
    else
      match sc.config.oneShotAt with
      | some t => if after < t then some t else some after
      | none => some after

end Scheduler

/-- One atomic statement on the tables. -/
inductive Call where
  | claim (scheduledFireAt : Int) (lease : Lease)
  | claimManual (lease : Lease)
  | linkManualTask (c : ScheduleFireClaim) (lease : Lease)
  | markDispatched (c : ScheduleFireClaim) (lease : Lease)
  | settleManualDispatched (c : ScheduleFireClaim) (lease : Lease) (oneShotStatus : RunStatus)
  | markFailed (c : ScheduleFireClaim) (lease : Lease) (error : String) (nextFireAt : Option Int)
      (consecutiveErrors : Nat) (disabledReason : Option DisabledReason)
  | markManualFailed (c : ScheduleFireClaim) (lease : Lease) (error : String)
  | advanceSchedule (scheduledFireAt : Int) (nextFireAt : Option Int) (status : RunStatus)
      (consecutiveErrors : Nat) (lease : Lease)
  | projectManual (taskId : FireKey) (status : TaskStatus) (completedAt : Int)
  | projectRecurring (taskId : FireKey) (status : TaskStatus) (nextFireAt : Option Int)
  | submit (taskId : FireKey) (scheduledFor : Int) (status : TaskStatus)
  | submitExisting (taskId : FireKey)
  | updateNextFireAt (nextFireAt : Int)
  | initialiseNextFireTimes
  | deleteSchedule
  | moveTask (taskId : FireKey) (status : TaskStatus) (resultSummary : Option String)
  | lease (call : LeaseCall)

structure Reply where
  claim : Option ScheduleFireClaim := none
  ok : Bool := true
  lease : Option Lease := none

/-- The moves a task makes on its own: among the active statuses, to its end, or
from a draft to its cancellation. -/
def TaskStatus.MovesTo (s s' : TaskStatus) : Prop :=
  (s.Active ∧ (s'.Active ∨ s'.Terminal)) ∨ (s = .draft ∧ s' = .cancelled)

instance (s s' : TaskStatus) : Decidable (s.MovesTo s') := inferInstanceAs (Decidable (_ ∨ _))

section

variable (db : Database) (taskId : FireKey)

/-- `create_task` of `submit`, which an existing identity makes fail. -/
def submit (scheduledFor : Int) (status : TaskStatus) : Database × Bool :=
  if (db.getTask taskId).isSome then (db, false)
  else ({ db with tasks := db.tasks ++ [⟨taskId, status, scheduledFor, none⟩] }, true)

/-- `submit_existing`: a draft joins the queue. -/
def submitExisting : Database × Bool :=
  if (db.getTask taskId).any (·.status = .draft) then
    (db.updateTasks (·.taskId = taskId) fun t => { t with status := .queued }, true)
  else (db, false)

def moveTask (status : TaskStatus) (resultSummary : Option String) : Database :=
  db.updateTasks (fun t => t.taskId = taskId ∧ t.status.MovesTo status)
    fun t => { t with status := status, resultSummary := resultSummary }

end

section

variable (sc : Scheduler) (db : Database)

/-- `update_schedule` of the next fire alone. -/
def updateNextFireAt (nextFireAt : Int) : Database × Bool :=
  match db.schedule with
  | none => (db, false)
  | some row => (db.setSchedule { row with nextFireAt := some nextFireAt }, row.enabled)

def initialiseNextFireTimes : Database :=
  match db.schedule with
  | none => db
  | some row =>
    if row.enabled ∧ row.nextFireAt = none then
      match sc.computeNextFire row db.now with
      | some next => db.setSchedule { row with nextFireAt := some next }
      | none => db
    else db

def perform : Call → Database × Reply
  | .claim scheduledFireAt lease =>
    let (db', c) := claim sc.config db scheduledFireAt lease sc.maxConsecutiveErrors
    (db', { claim := c })
  | .claimManual lease =>
    let (db', c) := claimManual sc.config db lease
    (db', { claim := c })
  | .linkManualTask c lease =>
    let (db', ok) := linkManualTask db c lease
    (db', { ok := ok })
  | .markDispatched c lease =>
    let (db', ok) := markDispatched db c lease
    (db', { ok := ok })
  | .settleManualDispatched c lease status =>
    let (db', ok) := settleManualDispatched sc.config db c lease status
    (db', { ok := ok })
  | .markFailed c lease error next errors reason =>
    let (db', ok) := markFailed db c lease error next errors reason
    (db', { ok := ok })
  | .markManualFailed c lease error =>
    let (db', ok) := markManualFailed db c lease error
    (db', { ok := ok })
  | .advanceSchedule scheduledFireAt next status errors lease =>
    let (db', ok) := advanceSchedule db scheduledFireAt next status errors lease
    (db', { ok := ok })
  | .projectManual taskId status completedAt =>
    let (db', p) :=
      projectManualTerminalResult db taskId status completedAt sc.maxConsecutiveErrors
    (db', { ok := p.isSome })
  | .projectRecurring taskId status next =>
    let (db', p) := projectRecurringTerminalResult db taskId status next sc.maxConsecutiveErrors
    (db', { ok := p.isSome })
  | .submit taskId scheduledFor status =>
    let (db', ok) := submit db taskId scheduledFor status
    (db', { ok := ok })
  | .submitExisting taskId =>
    let (db', ok) := submitExisting db taskId
    (db', { ok := ok })
  | .updateNextFireAt next =>
    let (db', ok) := updateNextFireAt db next
    (db', { ok := ok })
  | .initialiseNextFireTimes => (initialiseNextFireTimes sc db, {})
  | .deleteSchedule => (db.deleteSchedule, {})
  | .moveTask taskId status resultSummary => (moveTask db taskId status resultSummary, {})
  | .lease call =>
    let (leases, lease) := db.leases.perform call
    ({ db with leases := leases }, { lease := lease })

end

/-- Where an activity of a controller stands between two of its statements: a
recurring fire, a manual trigger, the handling of a terminal event, or the skip
of a missed backlog. -/
inductive Stage where
  | fireAcquired (lease : Lease)
  | fireUnset (lease : Lease)
  | fireInitialising (lease : Lease) (now : Int)
  | fireReread (lease : Lease)
  | fireReady (lease : Lease) (scheduledFireAt : Int)
  | fireReplaced (lease : Lease) (c : ScheduleFireClaim)
  | fireLooking (lease : Lease) (c : ScheduleFireClaim)
  | fireDispatching (lease : Lease) (c : ScheduleFireClaim)
  | fireReconciling (lease : Lease) (c : ScheduleFireClaim)
  | fireMarking (lease : Lease) (c : ScheduleFireClaim)
  | fireAdvancing (lease : Lease) (c : ScheduleFireClaim) (status : RunStatus) (dispatched : Bool)
  | fireDeleting (lease : Lease) (c : ScheduleFireClaim) (dispatched : Bool)
  | fireFailing (lease : Lease) (c : ScheduleFireClaim) (error : String)
  | fireSettlingFailure (lease : Lease) (c : ScheduleFireClaim) (error : String) (now : Int)
  | manualReady (lease : Lease)
  | manualLooking (lease : Lease) (c : ScheduleFireClaim)
  | manualDispatching (lease : Lease) (c : ScheduleFireClaim)
  | manualLinking (lease : Lease) (c : ScheduleFireClaim) (status : TaskStatus)
  | manualReconciling (lease : Lease) (c : ScheduleFireClaim) (status : TaskStatus)
  | manualActivating (lease : Lease) (c : ScheduleFireClaim) (settle : Bool)
  | manualSubmitting (lease : Lease) (c : ScheduleFireClaim) (settle : Bool)
  | manualSettling (lease : Lease) (c : ScheduleFireClaim)
  | manualFailing (lease : Lease) (c : ScheduleFireClaim) (error : String)
  | manualMarkingFailed (lease : Lease) (c : ScheduleFireClaim) (error : String)
  | terminalReceived (taskId : FireKey) (suppressRetry : Bool)
  | terminalTask (task : TaskRow) (suppressRetry : Bool)
  | terminalKind (task : TaskRow) (suppressRetry manual : Bool)
  | terminalRead (task : TaskRow) (suppressRetry : Bool) (schedule : ScheduleRow)
  | projectingManual (taskId : FireKey) (status : TaskStatus) (completedAt : Int)
  | projectingRecurring (taskId : FireKey) (status : TaskStatus) (nextFireAt : Option Int)
  | backlogListed (ownerId : String) (now : Int)
  | backlogAcquired (lease : Lease) (now : Int)
  | backlogAdvancing (lease : Lease) (now scheduledFireAt : Int) (schedule : ScheduleRow)
  | releasing (lease : Lease)

/-- What may happen to a statement: it returns; the renewal loop has reported
the lease lost; it raises before or after its commit. -/
inductive Choice where
  | proceed
  | leaseLost
  | raises (error : String)
  | raisesCommitted (error : String)
  deriving DecidableEq

def Choice.commits : Choice → Bool
  | .proceed | .raisesCommitted _ => true
  | _ => false

namespace Stage

variable (sc : Scheduler)

/-- The `mark_failed` of `_fire_schedule`. -/
def failure (lease : Lease) (c : ScheduleFireClaim) (error : String) (now : Int) : Call :=
  let errors := c.schedule.consecutiveErrors + 1
  let disabled := sc.maxConsecutiveErrors ≤ errors
  .markFailed c lease error (if disabled then none else some (now + computeBackoffDelay errors))
    errors (if disabled then some (.autoConsecutiveFailures errors) else none)

/-- The next fire that `_advance_claimed_fire` writes. -/
def nextFire (c : ScheduleFireClaim) : Option Int :=
  if sc.config.scheduleType = .oneShot then none
  else sc.computeNextFire c.schedule c.scheduledFireAt

/-- The statement an activity makes next, if its step makes one. -/
def request : Stage → Option Call
  | .fireInitialising _ now => some (.updateNextFireAt now)
  | .fireReady lease scheduledFireAt => some (.claim scheduledFireAt lease)
  | .fireDispatching _ c => some (.submit c.taskId c.scheduledFireAt .queued)
  | .fireMarking lease c => some (.markDispatched c lease)
  | .fireAdvancing lease c status _ =>
    some (.advanceSchedule c.scheduledFireAt (nextFire sc c) status c.schedule.consecutiveErrors
      lease)
  | .fireDeleting .. => some .deleteSchedule
  | .fireSettlingFailure lease c error now => some (failure sc lease c error now)
  | .manualReady lease => some (.claimManual lease)
  | .manualDispatching _ c => some (.submit c.taskId c.scheduledFireAt .draft)
  | .manualLinking lease c _ => some (.linkManualTask c lease)
  | .manualSubmitting _ c _ => some (.submitExisting c.taskId)
  | .manualSettling lease c => some (.settleManualDispatched c lease .success)
  | .manualMarkingFailed lease c error => some (.markManualFailed c lease error)
  | .projectingManual taskId status completedAt => some (.projectManual taskId status completedAt)
  | .projectingRecurring taskId status next => some (.projectRecurring taskId status next)
  | .backlogListed ownerId _ => some (.lease (.acquire sc.leaseKey ownerId fireLease))
  | .backlogAdvancing lease now scheduledFireAt schedule =>
    some (.advanceSchedule scheduledFireAt (sc.computeNextFire schedule now)
      (schedule.lastRunStatus.getD .skipped) schedule.consecutiveErrors lease)
  | .releasing lease => some (.lease (.release lease))
  | _ => none

/-- The branch of `_fire_schedule` a claim leads to. -/
def afterClaim (lease : Lease) (c : ScheduleFireClaim) : Stage :=
  if c.status = .skipped then .fireAdvancing lease c .skipped false
  else if c.shouldDispatch = false then .fireAdvancing lease c .success false
  else .fireLooking lease c

/-- The branch of `_trigger_now_owned` a claim leads to. -/
def afterManualClaim (lease : Lease) (c : ScheduleFireClaim) : Stage :=
  if c.status = .skipped then .releasing lease
  else if c.status = .dispatched then .manualActivating lease c false
  else .manualLooking lease c

/-- The next fire a terminal event asks for: a retry of the failed task, or the
one its handler has read. -/
def eventNextFire (task : TaskRow) (suppressRetry : Bool) (schedule : ScheduleRow) (now : Int) :
    Option Int :=
  let errors := schedule.consecutiveErrors + 1
  if task.status = .failed ∧ sc.config.retryFailedTasks ∧ suppressRetry = false ∧
      ¬ sc.maxConsecutiveErrors ≤ errors then
    some (now + computeBackoffDelay errors)
  else schedule.nextFireAt

/-- Where an activity stands after its statement returned; `none` ends it. Its
reads are of the tables the statement found. -/
def proceed (db : Database) (reply : Reply) : Stage → Option Stage
  | .fireAcquired lease =>
    match db.schedule with
    | none => some (.releasing lease)
    | some row =>
      if row.enabled = false then some (.releasing lease)
      else
        match row.nextFireAt with
        | none => some (.fireUnset lease)
        | some t => some (.fireReady lease t)
  | .fireUnset lease => some (.fireInitialising lease db.now)
  | .fireInitialising lease _ =>
    if reply.ok then some (.fireReread lease) else some (.releasing lease)
  | .fireReread lease =>
    match db.schedule.bind (·.nextFireAt) with
    | none => some (.releasing lease)
    | some t => some (.fireReady lease t)
  | .fireReady lease _ =>
    match reply.claim with
    | none => some (.releasing lease)
    | some c =>
      if c.replacedPausedTaskIds = [] then some (afterClaim lease c)
      else some (.fireReplaced lease c)
  | .fireReplaced lease c =>
    if db.schedule.any (·.enabled) then some (afterClaim lease c) else some (.releasing lease)
  | .fireLooking lease c =>
    if (db.getTask c.taskId).isSome then some (.fireReconciling lease c)
    else some (.fireDispatching lease c)
  | .fireDispatching lease c => some (.fireReconciling lease c)
  | .fireReconciling lease c => some (.fireMarking lease c)
  | .fireMarking lease c =>
    if reply.ok then some (.fireAdvancing lease c .success true) else some (.releasing lease)
  | .fireAdvancing lease c _ dispatched =>
    if reply.ok ∧ sc.config.deleteAfterRun ∧ sc.config.scheduleType = .oneShot then
      some (.fireDeleting lease c dispatched)
    else some (.releasing lease)
  | .fireDeleting lease _ _ => some (.releasing lease)
  | .fireFailing lease c error => some (.fireSettlingFailure lease c error db.now)
  | .fireSettlingFailure lease _ _ _ => some (.releasing lease)
  | .manualReady lease =>
    match reply.claim with
    | none => some (.releasing lease)
    | some c => some (afterManualClaim lease c)
  | .manualLooking lease c =>
    match db.getTask c.taskId with
    | none => some (.manualDispatching lease c)
    | some task => some (.manualLinking lease c task.status)
  | .manualDispatching lease c =>
    match db.getTask c.taskId with
    | none => some (.manualLinking lease c .draft)
    | some task => some (.manualLinking lease c task.status)
  | .manualLinking lease c status =>
    if reply.ok then some (.manualReconciling lease c status) else some (.releasing lease)
  | .manualReconciling lease c status =>
    if ((db.getTask c.taskId).map (·.status)).getD status = .draft then
      some (.manualActivating lease c true)
    else some (.manualSettling lease c)
  | .manualActivating lease c settle =>
    match db.getTask c.taskId with
    | none => some (.manualFailing lease c "RuntimeError: Reserved manual task does not exist")
    | some task =>
      if task.status = .draft then some (.manualSubmitting lease c settle)
      else if settle then some (.manualSettling lease c)
      else some (.releasing lease)
  | .manualSubmitting lease c settle =>
    if reply.ok = false then some
      (.manualFailing lease c "ValueError: Only draft tasks can be submitted")
    else if settle then some (.manualSettling lease c)
    else some (.releasing lease)
  | .manualSettling lease _ => some (.releasing lease)
  | .manualFailing lease c error =>
    if (db.getTask c.taskId).isSome then some (.releasing lease)
    else some (.manualMarkingFailed lease c error)
  | .manualMarkingFailed lease _ _ => some (.releasing lease)
  | .terminalReceived taskId suppressRetry =>
    (db.getTask taskId).map fun task => .terminalTask task suppressRetry
  | .terminalTask task suppressRetry =>
    some (.terminalKind task suppressRetry (isManualTask db task.taskId))
  | .terminalKind task suppressRetry manual =>
    match db.schedule with
    | none => none
    | some row =>
      if manual then some (.projectingManual task.taskId task.status task.scheduledFor)
      else if task.status.Terminal then some (.terminalRead task suppressRetry row)
      else none
  | .terminalRead task suppressRetry schedule =>
    some (.projectingRecurring task.taskId task.status
      (eventNextFire sc task suppressRetry schedule db.now))
  | .projectingManual .. => none
  | .projectingRecurring .. => none
  | .backlogListed _ now => reply.lease.map fun lease => .backlogAcquired lease now
  | .backlogAcquired lease now =>
    match db.schedule with
    | none => some (.releasing lease)
    | some row =>
      match row.nextFireAt with
      | none => some (.releasing lease)
      | some t =>
        if row.enabled = false ∨ now < t ∨ sc.config.scheduleType = .oneShot then
          some (.releasing lease)
        else some (.backlogAdvancing lease now t row)
  | .backlogAdvancing lease _ _ _ => some (.releasing lease)
  | .releasing _ => none

def raised (error : String) : Stage → Option Stage
  | .fireReady lease _ | .manualReady lease | .fireFailing lease _ _
  | .fireSettlingFailure lease _ _ _ | .manualFailing lease _ _ | .manualMarkingFailed lease _ _
  | .backlogAcquired lease _ | .backlogAdvancing lease _ _ _ => some (.releasing lease)
  | .fireReplaced lease c | .fireLooking lease c | .fireDispatching lease c
  | .fireReconciling lease c | .fireMarking lease c => some (.fireFailing lease c error)
  | .fireAdvancing lease c _ dispatched | .fireDeleting lease c dispatched =>
    if dispatched then some (.releasing lease) else some (.fireFailing lease c error)
  | .manualLooking lease c | .manualDispatching lease c | .manualLinking lease c _
  | .manualReconciling lease c _ | .manualActivating lease c _ | .manualSubmitting lease c _
  | .manualSettling lease c => some (.manualFailing lease c error)
  | _ => none

def leaseLost : Stage → Option Stage
  | .fireDispatching lease _ | .manualDispatching lease _ => some (.releasing lease)
  | stage => some stage

def next (db : Database) (reply : Reply) (stage : Stage) : Choice → Option Stage
  | .proceed => stage.proceed sc db reply
  | .leaseLost => stage.leaseLost
  | .raises error | .raisesCommitted error => stage.raised error

end Stage

inductive Action where
  | fire (ownerId : String)
  | trigger (ownerId : String)
  | terminalEvent (taskId : FireKey) (suppressRetry : Bool)
  | skipBacklog (ownerId : String)
  | initialise
  | moveTask (taskId : FireKey) (status : TaskStatus) (resultSummary : Option String)
  | lease (call : LeaseCall)
  | advance (index : Nat) (choice : Choice)
  | crash (index : Nat)

/-- One atomic step of the cluster, `elapsed` after the one before it. -/
structure Event where
  elapsed : Nat
  action : Action

structure System where
  db : Database
  activities : List Stage

namespace System

variable (sc : Scheduler) (s : System)

def call : Action → Option Call
  | .fire ownerId | .trigger ownerId => some (.lease (.acquire sc.leaseKey ownerId fireLease))
  | .initialise => some .initialiseNextFireTimes
  | .moveTask taskId status resultSummary => some (.moveTask taskId status resultSummary)
  | .lease call => some (.lease call)
  | .advance index choice =>
    if choice.commits then s.activities[index]?.bind (Stage.request sc) else none
  | .terminalEvent .. | .skipBacklog _ | .crash _ => none

/-- The tables and the reply after an action's statement, if it makes one. -/
def result (db : Database) (call : Option Call) : Database × Reply :=
  match call with
  | some call => perform sc db call
  | none => (db, {})

def activitiesAfter (db : Database) (reply : Reply) : Action → List Stage
  | .fire _ => s.activities ++ (reply.lease.map Stage.fireAcquired).toList
  | .trigger _ => s.activities ++ (reply.lease.map Stage.manualReady).toList
  | .terminalEvent taskId suppressRetry =>
    s.activities ++ [.terminalReceived taskId suppressRetry]
  | .skipBacklog ownerId => s.activities ++ [.backlogListed ownerId db.now]
  | .advance index choice =>
    match s.activities[index]? with
    | none => s.activities
    | some stage => Pool.update s.activities index (stage.next sc db reply choice)
  | .crash index => s.activities.eraseIdx index
  | .initialise | .moveTask .. | .lease _ => s.activities

def step (e : Event) : System :=
  let db := s.db.wait e.elapsed
  let (db', reply) := result sc db (s.call sc e.action)
  ⟨db', s.activitiesAfter sc db reply e.action⟩

end System

end Cognis.Schedule
