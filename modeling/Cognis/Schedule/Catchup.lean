import Cognis.Library.SortByKey
import Cognis.Schedule.NextFire

namespace Cognis.Schedule

open Coordination

inductive CatchupStatus where
  | active
  | completed
  deriving DecidableEq

structure CatchupStateRow where
  cutoffAt : Int
  remainingBudget : Int
  status : CatchupStatus
  deriving DecidableEq

/-- What stands since the catch-up was last made active: its budget, and the
occurrences that fires made from the loop have settled since. -/
structure Epoch where
  number : Nat := 0
  initialBudget : Nat := 0
  settled : List (String × Int) := []
  deriving DecidableEq

structure CatchupStore where
  state : Option CatchupStateRow := none
  leases : LeaseStore
  epoch : Epoch := {}

def catchupKey : String := "scheduler:startup-catchup"

namespace CatchupStore

variable (s : CatchupStore)

def catchupActive : Bool := s.state.any (·.status = .active)

def remaining : Int := (s.state.map (·.remainingBudget)).getD 0

def startEpoch (cutoffAt : Int) (budget : Nat) : CatchupStore :=
  { s with
    state := some ⟨cutoffAt, budget, .active⟩
    epoch := ⟨s.epoch.number + 1, budget, []⟩ }

variable (lease : Lease)

def prepareCatchup (cutoffAt : Int) (budget : Nat) (startNew : Bool) :
    CatchupStore × Option (Int × Int) :=
  if s.leases.isCurrent lease = false then (s, none)
  else
    match s.state with
    | none => (s.startEpoch cutoffAt budget, some (cutoffAt, budget))
    | some row =>
      if row.status = .completed ∧ startNew then
        (s.startEpoch cutoffAt budget, some (cutoffAt, budget))
      else if row.status = .completed then (s, none)
      else (s, some (row.cutoffAt, row.remainingBudget))

def setBudget (row : CatchupStateRow) (remainingBudget : Int) : CatchupStore :=
  { s with state := some { row with remainingBudget := remainingBudget } }

def reserveCatchupFire : CatchupStore × Option (Int × Int) :=
  if s.leases.isCurrent lease = false then (s, none)
  else
    match s.state with
    | none => (s, none)
    | some row =>
      if row.status ≠ .active ∨ row.remainingBudget ≤ 0 then (s, none)
      else
        (s.setBudget row (row.remainingBudget - 1), some (row.cutoffAt, row.remainingBudget - 1))

def restoreCatchupFire : CatchupStore × Option Int :=
  if s.leases.isCurrent lease = false then (s, none)
  else
    match s.state with
    | none => (s, none)
    | some row =>
      if row.status ≠ .active then (s, none)
      else (s.setBudget row (row.remainingBudget + 1), some (row.remainingBudget + 1))

def completeCatchup : CatchupStore × Bool :=
  if s.leases.isCurrent lease = false then (s, false)
  else
    match s.state with
    | none => (s, false)
    | some row =>
      if row.status ≠ .active then (s, false)
      else ({ s with state := some { row with status := .completed } }, true)

def record (scheduleId : String) (scheduledFireAt : Int) : CatchupStore :=
  if s.catchupActive then
    { s with
      epoch := { s.epoch with settled := s.epoch.settled.insert (scheduleId, scheduledFireAt) } }
  else s

end CatchupStore

/-- A slot taken for the fire of a listed schedule. The epoch it was taken in and
the occurrence its fire has settled are not the loop's to see. -/
structure Reservation where
  scheduleId : String
  originalFire : Int
  epoch : Nat
  settledAt : Option Int := none

/-- Where a run of `_catch_up_missed` stands between two of its statements. The
due schedules yet to be served come with the next fire they were listed with. -/
inductive CatchupStage where
  | acquired
  | preparing (proposedCutoff : Int)
  | refused
  | listing
  | serving (due : List (String × Int))
  | starting (r : Reservation) (due : List (String × Int))
  | firing (r : Reservation) (due : List (String × Int)) (stage : Stage)
  | looking (r : Reservation) (due : List (String × Int))
  | restoring (r : Reservation) (due : List (String × Int))
  | skipListing
  | skipping (now : Int) (due : List String) (pending : Bool)
  | skippingOne (now : Int) (due : List String) (pending : Bool) (scheduleId : String)
      (stage : Stage)
  | skipRereading (now : Int) (due : List String) (pending : Bool) (scheduleId : String)
      (lease : Lease)
  | skipUnwinding (scheduleId : String) (lease : Lease)
  | completing
  | releasing

/-- A run of `_catch_up_missed` with its local variables. -/
structure CatchupLoop where
  lease : Lease
  budget : Nat
  resumeOnly : Bool
  cutoff : Int := 0
  remainingBudget : Int := 0
  leaseLost : Bool := false
  stage : CatchupStage := .acquired

inductive CatchupCall where
  | prepare (lease : Lease) (cutoffAt : Int) (budget : Nat) (startNew : Bool)
  | reserve (lease : Lease)
  | restore (lease : Lease)
  | complete (lease : Lease)
  | release (lease : Lease)
  | schedule (scheduleId : String) (call : Call)

structure CatchupReply where
  state : Option (Int × Int) := none
  restored : Option Int := none
  ok : Bool := true
  schedule : Reply := {}

/-- The schedules of a cluster, each with its own tables and activities, and the
controllers in `_catch_up_missed`. -/
structure Cluster where
  store : CatchupStore
  scheduleIds : List String
  systems : String → System
  loops : List CatchupLoop

namespace Cluster

variable (sc : String → Scheduler) (c : Cluster)

def db (scheduleId : String) : Database := (c.systems scheduleId).db

def setDb (scheduleId : String) (db : Database) : Cluster :=
  { c with
    systems := Function.update c.systems scheduleId { c.systems scheduleId with db := db } }

/-- The listed next fire of a schedule due at `now`. -/
def dueAt (now : Int) (scheduleId : String) : Option (String × Int) :=
  (c.db scheduleId).schedule.bind fun row =>
    if row.enabled then (row.nextFireAt.filter (· ≤ now)).map fun t => (scheduleId, t) else none

def listDueSchedules (now : Int) : List (String × Int) :=
  SortByKey.sortBy Prod.snd (c.scheduleIds.filterMap (c.dueAt now))

/-- `settled`: the schedule is gone, disabled or past its listed next fire. -/
def looksSettled (r : Reservation) : Bool :=
  (c.db r.scheduleId).schedule.all fun row =>
    !row.enabled || row.nextFireAt ≠ some r.originalFire

def perform : CatchupCall → Cluster × CatchupReply
  | .prepare lease cutoffAt budget startNew =>
    let (store, state) := c.store.prepareCatchup lease cutoffAt budget startNew
    ({ c with store := store }, { state := state })
  | .reserve lease =>
    let (store, state) := c.store.reserveCatchupFire lease
    ({ c with store := store }, { state := state })
  | .restore lease =>
    let (store, restored) := c.store.restoreCatchupFire lease
    ({ c with store := store }, { restored := restored })
  | .complete lease =>
    let (store, ok) := c.store.completeCatchup lease
    ({ c with store := store }, { ok := ok })
  | .release lease =>
    ({ c with store := { c.store with leases := (c.store.leases.release lease).1 } }, {})
  | .schedule scheduleId call =>
    let (db, reply) := Schedule.perform (sc scheduleId) (c.db scheduleId) call
    (c.setDb scheduleId db, { schedule := reply })

end Cluster

namespace CatchupLoop

variable (sc : String → Scheduler) (loop : CatchupLoop)

/-- The statement a run makes next, if its step makes one. -/
def request : Option CatchupCall :=
  match loop.stage with
  | .preparing proposedCutoff =>
    some (.prepare loop.lease proposedCutoff loop.budget (!loop.resumeOnly))
  | .serving (_ :: _) =>
    if loop.remainingBudget ≤ 0 ∨ loop.leaseLost then none else some (.reserve loop.lease)
  | .starting r _ =>
    some (.schedule r.scheduleId
      (.lease (.acquire (sc r.scheduleId).leaseKey loop.lease.ownerId fireLease)))
  | .firing r _ stage => (stage.request (sc r.scheduleId)).map (.schedule r.scheduleId)
  | .restoring _ _ => some (.restore loop.lease)
  | .skippingOne _ _ _ scheduleId stage =>
    (stage.request (sc scheduleId)).map (.schedule scheduleId)
  | .skipUnwinding scheduleId lease => some (.schedule scheduleId (.lease (.release lease)))
  | .completing => some (.complete loop.lease)
  | .releasing => some (.release loop.lease)
  | _ => none

def goto (stage : CatchupStage) : CatchupLoop := { loop with stage := stage }

def lose : CatchupLoop := { loop with leaseLost := true }

variable (c : Cluster)

/-- `_skip_missed_backlog` of one schedule: without its lease the schedule stays
pending, and a refused advance is looked at again. -/
def proceedSkip (reply : Reply) (now : Int) (due : List String) (pending : Bool)
    (scheduleId : String) (stage : Stage) : CatchupStage :=
  match stage, reply.lease, reply.ok with
  | .backlogListed .., none, _ => .skipping now due true
  | .backlogAdvancing lease _ _ _, _, false => .skipRereading now due pending scheduleId lease
  | _, _, _ =>
    match stage.proceed (sc scheduleId) (c.db scheduleId) reply with
    | some stage' => .skippingOne now due pending scheduleId stage'
    | none => .skipping now due pending

/-- Where a run stands after its statement returned; its reads are of the tables
the statement found. -/
def proceed (reply : CatchupReply) : Option CatchupLoop :=
  match loop.stage with
  | .acquired => some (loop.goto (.preparing c.store.leases.now))
  | .preparing _ =>
    match reply.state with
    | none => some (loop.goto .refused)
    | some (cutoff, remaining) =>
      some { loop with cutoff := cutoff, remainingBudget := remaining, stage := .listing }
  | .refused =>
    if c.store.catchupActive then some (loop.lose.goto .releasing) else some (loop.goto .releasing)
  | .listing =>
    if loop.leaseLost then some (loop.goto .releasing)
    else if loop.remainingBudget ≤ 0 ∨ c.listDueSchedules loop.cutoff = [] then
      some (loop.goto .skipListing)
    else some (loop.goto (.serving (c.listDueSchedules loop.cutoff)))
  | .serving [] => some (loop.goto .listing)
  | .serving ((scheduleId, originalFire) :: due) =>
    if loop.remainingBudget ≤ 0 ∨ loop.leaseLost then some (loop.goto .listing)
    else
      match reply.state with
      | none => some (loop.lose.goto .listing)
      | some (cutoff, remaining) =>
        some { loop with
            cutoff := cutoff
            remainingBudget := remaining
            stage := .starting ⟨scheduleId, originalFire, c.store.epoch.number, none⟩ due }
  | .starting r due =>
    match reply.schedule.lease with
    | none => some (loop.goto (.looking r due))
    | some lease => some (loop.goto (.firing r due (.fireAcquired lease)))
  | .firing r due stage =>
    match stage.proceed (sc r.scheduleId) (c.db r.scheduleId) reply.schedule with
    | some stage' => some (loop.goto (.firing r due stage'))
    | none => some (loop.goto (.looking r due))
  | .looking r due =>
    if c.looksSettled r then some (loop.goto (.serving due)) else some
      (loop.goto (.restoring r due))
  | .restoring _ due =>
    match reply.restored with
    | none => some (loop.lose.goto .listing)
    | some remaining => some { loop with remainingBudget := remaining, stage := .serving due }
  | .skipListing =>
    if loop.leaseLost then some (loop.goto .releasing)
    else
      let now := c.store.leases.now
      some (loop.goto (.skipping now ((c.listDueSchedules now).map Prod.fst) false))
  | .skipping _ [] pending =>
    if pending then some (loop.goto .skipListing) else some (loop.goto .completing)
  | .skipping now (scheduleId :: due) pending =>
    some
      (loop.goto (.skippingOne now due pending scheduleId (.backlogListed loop.lease.ownerId now)))
  | .skippingOne now due pending scheduleId stage =>
    some (loop.goto (proceedSkip sc c reply.schedule now due pending scheduleId stage))
  | .skipRereading now due pending scheduleId lease =>
    let normalized := (c.db scheduleId).schedule.all fun row =>
      !row.enabled || row.nextFireAt.all (now < ·)
    some (loop.goto (.skippingOne now due (pending || !normalized) scheduleId (.releasing lease)))
  | .skipUnwinding .. => some (loop.goto .releasing)
  | .completing =>
    if reply.ok then some (loop.goto .releasing) else some (loop.lose.goto .releasing)
  | .releasing => none

/-- An exception inside a fire is the fire's to handle; any other ends the run,
after the leases it holds have been released. -/
def raised (error : String) : Option CatchupLoop :=
  match loop.stage with
  | .firing r due stage =>
    match stage.raised error with
    | some stage' => some (loop.goto (.firing r due stage'))
    | none => some (loop.goto .releasing)
  | .skippingOne _ _ _ scheduleId stage =>
    match stage.raised error with
    | some (.releasing lease) => some (loop.goto (.skipUnwinding scheduleId lease))
    | _ => some (loop.goto .releasing)
  | .skipRereading _ _ _ scheduleId lease => some (loop.goto (.skipUnwinding scheduleId lease))
  | .releasing => none
  | _ => some (loop.goto .releasing)

def fireLeaseLost : Option CatchupLoop :=
  match loop.stage with
  | .firing r due stage => stage.leaseLost.map fun stage' => loop.goto (.firing r due stage')
  | _ => some loop

def next (reply : CatchupReply) : Choice → Option CatchupLoop
  | .proceed => loop.proceed sc c reply
  | .leaseLost => loop.fireLeaseLost
  | .raises error | .raisesCommitted error => loop.raised error

def settles (choice : Choice) : Option (String × Int) :=
  match loop.stage with
  | .firing r _ stage =>
    if choice.commits then
      ((stage.request (sc r.scheduleId)).bind (settledOccurrence (c.db r.scheduleId))).map
        fun t => (r.scheduleId, t)
    else none
  | _ => none

def mark : Option (String × Int) → CatchupLoop
  | none => loop
  | some occurrence =>
    match loop.stage with
    | .firing r due stage =>
      loop.goto (.firing { r with settledAt := some occurrence.2 } due stage)
    | _ => loop

end CatchupLoop

/-- One step of the cluster. The schedules' own activities, those of the timers
and of the event handlers among them, are steps of their systems; an entry into
`_catch_up_missed` is one attempt to acquire its lease. -/
inductive CatchupEvent where
  | wait (elapsed : Nat)
  | schedule (scheduleId : String) (action : Action)
  | lease (call : LeaseCall)
  | enter (ownerId : String) (budget : Nat) (resumeOnly : Bool)
  | advance (index : Nat) (choice : Choice)
  | lose (index : Nat)
  | crash (index : Nat)

namespace Cluster

variable (sc : String → Scheduler) (c : Cluster)

def result (call : Option CatchupCall) : Cluster × CatchupReply :=
  match call with
  | some call => c.perform sc call
  | none => (c, {})

def wait (elapsed : Nat) : Cluster :=
  { c with
    store := { c.store with leases := c.store.leases.wait elapsed }
    systems := fun scheduleId =>
      { c.systems scheduleId with db := (c.db scheduleId).wait elapsed } }

def setLeases (leases : LeaseStore) : Cluster :=
  { c with store := { c.store with leases := leases } }

def enter (ownerId : String) (budget : Nat) (resumeOnly : Bool) : Cluster :=
  match c.store.leases.acquire catchupKey ownerId fireLease with
  | (_, none) => c
  | (leases, some lease) =>
    { c.setLeases leases with
      loops := c.loops ++ [{ lease := lease, budget := budget, resumeOnly := resumeOnly }] }

def record (occurrence : Option (String × Int)) : Cluster :=
  match occurrence with
  | none => c
  | some (scheduleId, t) => { c with store := c.store.record scheduleId t }

def advance (index : Nat) (loop : CatchupLoop) (choice : Choice) : Cluster :=
  let occurrence := loop.settles sc c choice
  let (after, reply) := c.result sc (if choice.commits then loop.request sc else none)
  { after.record occurrence with
    loops := Pool.update c.loops index ((loop.mark occurrence).next sc c reply choice) }

def step : CatchupEvent → Cluster
  | .wait elapsed => c.wait elapsed
  | .schedule scheduleId action =>
    { c with
      systems := Function.update c.systems scheduleId
        ((c.systems scheduleId).step (sc scheduleId) ⟨0, action⟩) }
  | .lease call => c.setLeases (c.store.leases.perform call).1
  | .enter ownerId budget resumeOnly => c.enter ownerId budget resumeOnly
  | .advance index choice =>
    match c.loops[index]? with
    | none => c
    | some loop => c.advance sc index loop choice
  | .lose index =>
    match c.loops[index]? with
    | none => c
    | some loop => { c with loops := Pool.update c.loops index (some loop.lose) }
  | .crash index => { c with loops := c.loops.eraseIdx index }

end Cluster

end Cognis.Schedule
