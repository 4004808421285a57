import Cognis.Library.DepthFirst
import Cognis.Library.Pool
import Cognis.Library.Runs

namespace Cognis.Tasks

open DepthFirst Runs

/-- A row of `task_dependencies`. -/
structure Dependency where
  taskId : String
  dependsOn : String
  required : Bool := true
  deriving DecidableEq

def Dependency.key (d : Dependency) : String × String := (d.taskId, d.dependsOn)

variable (s : System) (t : Transaction) (rows : List Dependency) (i : Nat)

def DependsOn (a b : String) : Prop :=
  ∃ d ∈ rows, d.taskId = a ∧ d.dependsOn = b

/-- `select(TaskDependency.depends_on).where(TaskDependency.task_id == current)`. -/
def dependenciesOf (current : String) : List String :=
  (rows.filter (·.taskId = current)).map (·.dependsOn)

/-- A write that a transaction has made. -/
inductive Edit where
  | insert (row : Dependency)
  | delete (key : String × String)
  deriving DecidableEq

def Edit.apply : Edit → List Dependency
  | .insert row => if (rows.map Dependency.key).contains row.key then rows else rows ++ [row]
  | .delete key => rows.filter (·.key ≠ key)

def Edit.inserts : Edit → Bool
  | .insert _ => true
  | .delete _ => false

/-- What a call of a dependency function ends with. -/
inductive Reply where
  | added (row : Dependency)
  | removed (found : Bool)
  /-- `ValueError("Task cannot depend on itself")`. -/
  | selfDependency
  /-- `ValueError(f"Adding dependency {task_id} -> {depends_on} would create a cycle")`. -/
  | wouldCreateCycle (taskId dependsOn : String)
  /-- The primary key is taken. -/
  | integrityError
  deriving DecidableEq

/-- Where a transaction stands: between two calls, or in the search of
`_would_create_cycle` for a row it is to insert. -/
inductive Stage where
  | idle
  | searching (row : Dependency) (search : Search String)
  deriving DecidableEq

structure Transaction where
  edits : List Edit := []
  stage : Stage := .idle
  /-- How many insertions had been committed when the transaction began. -/
  seen : Nat
  deriving DecidableEq

structure System where
  rows : List Dependency
  active : Nat → Option Transaction
  /-- How many transactions with an insertion have committed. -/
  insertions : Nat

def Transaction.view : List Dependency :=
  t.edits.foldl Edit.apply rows

/-- One pass of the search loop, and after the last one the insertion. An error
leaves the transaction to be rolled back. -/
def Transaction.proceed : Option Transaction × Option Reply :=
  match t.stage with
  | .idle => (some t, none)
  | .searching row ⟨_, []⟩ =>
    if ((t.view rows).map Dependency.key).contains row.key then (none, some .integrityError)
    else (some { t with edits := t.edits ++ [.insert row], stage := .idle }, some (.added row))
  | .searching row ⟨visited, current :: stack⟩ =>
    if current = row.taskId then (none, some (.wouldCreateCycle row.taskId row.dependsOn))
    else if visited.contains current then
      (some { t with stage := .searching row ⟨visited, stack⟩ }, none)
    else
      (some { t with
        stage := .searching row
          ⟨current :: visited, (dependenciesOf (t.view rows) current).reverse ++ stack⟩ }, none)

/-- `add_task_dependency`, up to its first statement. -/
def Transaction.addTaskDependency (row : Dependency) : Option Transaction × Option Reply :=
  if row.taskId = row.dependsOn then (none, some .selfDependency)
  else (some { t with stage := .searching row ⟨[], [row.dependsOn]⟩ }, none)

def Transaction.removeTaskDependency (key : String × String) : Option Transaction × Option Reply :=
  (some { t with edits := t.edits ++ [.delete key] },
    some (.removed (((t.view rows).map Dependency.key).contains key)))

inductive Event where
  | add (i : Nat) (row : Dependency)
  | remove (i : Nat) (key : String × String)
  | proceed (i : Nat)
  | commit (i : Nat)
  | rollback (i : Nat)
  deriving DecidableEq

def System.transaction : Transaction :=
  (s.active i).getD { seen := s.insertions }

def System.put (t : Option Transaction) : System :=
  { s with active := Function.update s.active i t }

theorem System.put_active_self (t : Option Transaction) : (s.put i t).active i = t := by
  simp [System.put]

theorem System.put_active_of_ne {i j : Nat} (t : Option Transaction) (h : j ≠ i) :
    (s.put i t).active j = s.active j := by
  simp [System.put, h]

def System.commit (t : Transaction) : System :=
  { rows := t.view s.rows
    active := Function.update s.active i none
    insertions := s.insertions + if t.edits.any Edit.inserts then 1 else 0 }

def step : Event → System
  | .add i row =>
    if (s.transaction i).stage = .idle then s.put i ((s.transaction i).addTaskDependency row).1
    else s
  | .remove i key =>
    if (s.transaction i).stage = .idle then
      s.put i ((s.transaction i).removeTaskDependency s.rows key).1
    else s
  | .proceed i =>
    match s.active i with
    | some t => s.put i (t.proceed s.rows).1
    | none => s
  | .commit i =>
    match s.active i with
    | some t => if t.stage = .idle then s.commit i t else s
    | none => s
  | .rollback i => s.put i none

/-- No transaction is open and nothing has been stored. -/
def System.empty : System where
  rows := []
  active _ := none
  insertions := 0

end Cognis.Tasks

namespace Cognis.Tasks.Queue

open Runs

inductive Status where
  | draft
  | queued
  | ready
  | running
  | paused
  | completed
  | failed
  | cancelled
  deriving DecidableEq

/-- `valid_transitions` of `update_task_status`. -/
def validTransitions : Status → List Status
  | .draft => [.queued, .cancelled]
  | .queued => [.ready, .cancelled]
  | .ready => [.running, .cancelled]
  | .running => [.queued, .paused, .completed, .failed, .cancelled]
  | .paused => [.queued, .running, .cancelled]
  | .failed => [.running]
  | .completed => []
  | .cancelled => []

/-- The compare-and-swap of `update_task_status` finds the row. -/
def allows (current : Option Status) (status : Status) : Bool :=
  current.any fun c => (validTransitions c).contains status

abbrev Statuses := String → Option Status

/-- The status writes a transaction has not committed yet, the last one first. -/
abbrev StatusEdits := List (String × Status)

/-- What a statement of the transaction sees. -/
def overlay (edits : StatusEdits) (status : Statuses) : Statuses :=
  fun taskId => (edits.lookup taskId).or (status taskId)

/-- `get_unmet_dependencies` with `required_only`. -/
def getUnmetDependencies (deps : List Dependency) (status : Statuses) (taskId : String) :
    List Dependency :=
  deps.filter fun d =>
    d.taskId = taskId && d.required && (status d.dependsOn).any (· ≠ .completed)

def getDependentTasks (deps : List Dependency) (completedTaskId : String) : List String :=
  (deps.filter (·.dependsOn = completedTaskId)).map (·.taskId)

/-- How a workflow ends. -/
inductive Outcome where
  | completed
  | failed
  | cancelled
  deriving DecidableEq

def Outcome.status : Outcome → Status
  | .completed => .completed
  | .failed => .failed
  | .cancelled => .cancelled

/-- An operation under way, by the statement that comes next. -/
inductive Activity where
  /-- `submit_existing`, having read a draft. -/
  | submitting (taskId : String)
  /-- `_try_transition_to_ready`, before and after it reads the dependencies. -/
  | submitted (taskId : String)
  | readying (taskId : String)
  /-- `_run_task`, in the workflow. -/
  | running (taskId : String)
  /-- `resolve_dependencies`, before it reads the dependents. -/
  | resolving (completedTaskId : String)
  /-- Its loop: before the next dependent, before a dependent without unmet
  dependencies is marked ready, in the loop over unmet ones, before the pause. -/
  | checking (todo : List String) (edits : StatusEdits)
  | marking (depId : String) (todo : List String) (edits : StatusEdits)
  | judging (depId : String) (failedRequired : List Dependency) (todo : List String)
      (edits : StatusEdits)
  | pausing (depId : String) (todo : List String) (edits : StatusEdits)
  deriving DecidableEq

def Activity.edits : Activity → StatusEdits
  | .checking _ edits | .marking _ _ edits | .judging _ _ _ edits | .pausing _ _ edits => edits
  | .submitting _ | .submitted _ | .readying _ | .running _ | .resolving _ => []

structure System where
  status : Statuses
  activities : List Activity

/-- Another transaction than the `i`-th has written the row and not committed. -/
def System.locked (s : System) (i : Nat) (taskId : String) : Bool :=
  s.activities.zipIdx.any fun p => p.2 ≠ i && (p.1.edits.map Prod.fst).contains taskId

/-- `update_task_status` with its commit: nothing happens to a row whose status does
not allow it. -/
def System.write (s : System) (taskId : String) (status : Status) : System :=
  if allows (s.status taskId) status then
    { s with status := Function.update s.status taskId (some status) }
  else s

/-- The `i`-th operation goes on as this one, or is over. -/
def System.become (s : System) (i : Nat) (x : Option Activity) : System :=
  { s with activities := Pool.update s.activities i x }

def System.start (s : System) (a : Activity) : System :=
  { s with activities := s.activities ++ [a] }

/-- `update_task_status` inside the transaction of `resolve_dependencies`. -/
def editStatus (status : Statuses) (edits : StatusEdits) (depId : String) (new : Status) :
    StatusEdits :=
  if allows (overlay edits status depId) new then (depId, new) :: edits else edits

/-- The next statement of an operation; one that writes a locked row waits. -/
def System.advance (deps : List Dependency) (s : System) (i : Nat) : Activity → System
  | .submitting taskId =>
    if s.locked i taskId then s
    else if allows (s.status taskId) .queued then
      (s.write taskId .queued).become i (some (.submitted taskId))
    else s.become i none
  | .submitted taskId =>
    if getUnmetDependencies deps s.status taskId = [] then s.become i (some (.readying taskId))
    else s.become i none
  | .readying taskId =>
    if s.locked i taskId then s else (s.write taskId .ready).become i none
  | .running _ => s
  | .resolving completedTaskId =>
    s.become i (some (.checking (getDependentTasks deps completedTaskId) []))
  | .checking [] edits => { s with status := overlay edits s.status }.become i none
  | .checking (depId :: todo) edits =>
    let unmet := getUnmetDependencies deps (overlay edits s.status) depId
    if unmet = [] then s.become i (some (.marking depId todo edits))
    else s.become i (some (.judging depId (unmet.filter (·.required)) todo edits))
  | .marking depId todo edits =>
    if s.locked i depId then s
    else s.become i (some (.checking todo (editStatus s.status edits depId .ready)))
  | .judging _ [] todo edits => s.become i (some (.checking todo edits))
  | .judging depId (d :: ds) todo edits =>
    if overlay edits s.status d.dependsOn = some .failed ∨
        overlay edits s.status d.dependsOn = some .cancelled then
      s.become i (some (.pausing depId todo edits))
    else s.become i (some (.judging depId ds todo edits))
  | .pausing depId todo edits =>
    if s.locked i depId then s
    else s.become i (some (.checking todo (editStatus s.status edits depId .paused)))

inductive Event where
  | submit (taskId : String)
  /-- `claim_ready`, and the run it launches. -/
  | claim (taskId : String)
  | advance (i : Nat)
  /-- The workflow of a run ends and its outcome is persisted. -/
  | finish (i : Nat) (outcome : Outcome)
  /-- An operation fails: a run by the exception path of `_run_task`, which resolves
  no dependencies, any other one where it stands. -/
  | raise (i : Nat)
  | cancel (taskId : String)
  deriving DecidableEq

def step (deps : List Dependency) (s : System) : Event → System
  | .submit taskId =>
    if s.status taskId = some .draft then s.start (.submitting taskId) else s
  | .claim taskId =>
    if s.status taskId = some .ready ∧ s.locked s.activities.length taskId = false then
      (s.write taskId .running).start (.running taskId)
    else s
  | .advance i =>
    match s.activities[i]? with
    | some a => s.advance deps i a
    | none => s
  | .finish i outcome =>
    match s.activities[i]? with
    | some (.running taskId) =>
      if s.locked i taskId then s
      else if allows (s.status taskId) outcome.status then
        (s.write taskId outcome.status).become i (some (.resolving taskId))
      else s.become i none
    | _ => s
  | .raise i =>
    match s.activities[i]? with
    | some (.running taskId) =>
      if s.locked i taskId then s else (s.write taskId .failed).become i none
    | some _ => s.become i none
    | none => s
  | .cancel taskId =>
    if s.locked s.activities.length taskId then s else s.write taskId .cancelled

def System.drafts (tasks : List String) : System where
  status taskId := if tasks.contains taskId then some .draft else none
  activities := []

end Cognis.Tasks.Queue
