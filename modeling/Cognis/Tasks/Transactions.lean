import Cognis.Tasks.Queue
import Cognis.WorkflowEngine.State

/-! Task rows under read-committed transactions: a select reads without a lock unless it
asks for one, an update locks the row it finds, and a commit writes all at once. -/

namespace Cognis.Tasks.Lifecycle

open Queue (Status validTransitions)
open WorkflowEngine (WorkflowStatus StepStatus)

inductive PauseType where
  | gate
  | stepInput
  | credentialRequest
  | authChallenge
  deriving DecidableEq

/-- The saved workflow state; `pauseId` is that of the pending pause's payload. -/
structure WorkflowState where
  currentStepIndex : Nat := 0
  status : WorkflowStatus := .running
  currentStepStatus : Option StepStatus := none
  pendingPauseType : Option PauseType := none
  pauseId : Option String := none
  lastConsumedGateId : Option String := none
  lastOperatorInstruction : Option String := none
  lastRevisionContext : Option String := none
  resumeFailedStep : Bool := false
  version : Nat := 0
  deriving DecidableEq

structure TaskRow where
  status : Status
  attemptNumber : Nat
  workflowState : Option WorkflowState
  workflowId : Option String
  startedAt : Option Nat
  completedAt : Option Nat
  scheduledFor : Option Nat
  resultSummary : Option String
  deriving DecidableEq

def column {α : Type} [DecidableEq α] (loaded changed current : α) : α :=
  if changed = loaded then current else changed

/-- What a flush of the session makes of the row: of an object that was loaded and
changed, the columns with another value are written. -/
def TaskRow.flushed (loaded changed row : TaskRow) : TaskRow where
  status := column loaded.status changed.status row.status
  attemptNumber := column loaded.attemptNumber changed.attemptNumber row.attemptNumber
  workflowState := column loaded.workflowState changed.workflowState row.workflowState
  workflowId := column loaded.workflowId changed.workflowId row.workflowId
  startedAt := column loaded.startedAt changed.startedAt row.startedAt
  completedAt := column loaded.completedAt changed.completedAt row.completedAt
  scheduledFor := column loaded.scheduledFor changed.scheduledFor row.scheduledFor
  resultSummary := column loaded.resultSummary changed.resultSummary row.resultSummary

inductive RowLock where
  | none
  | forUpdate
  | skipLocked
  deriving DecidableEq

/-- A statement of a session, or what an operation does between two of them. -/
inductive Stmt where
  | select (taskId : String) (where_ : TaskRow → Bool) (lock : RowLock)
  | update (taskId : String) (where_ : TaskRow → Bool) (values : TaskRow → TaskRow)
  /-- The flush of a changed object. -/
  | flush (taskId : String) (loaded changed : TaskRow)
  | commit
  | rollback
  /-- `async with self._pick_lock`, entered and left. -/
  | acquirePickLock
  | releasePickLock
  /-- What the task table does not decide: leases, capacity, registries, local runs. -/
  | ask

abbrev Stmt.Reply : Stmt → Type
  | .select _ _ _ => Option TaskRow
  | .update _ _ _ => Bool
  | .flush _ _ _ => Unit
  | .commit => Unit
  | .rollback => Unit
  | .acquirePickLock => Unit
  | .releasePickLock => Unit
  | .ask => Bool

abbrev Operation := Program Stmt Stmt.Reply

abbrev Rows := String → Option TaskRow

/-- An operation under way on a controller, with the rows its open transaction has
locked, as the transaction sees them. -/
structure Process where
  controller : Nat
  holdsPickLock : Bool
  locked : Rows
  rest : Operation Unit

structure System where
  tasks : Rows
  processes : List Process

/-- Some process other than the `i`-th satisfies `p`. -/
def System.others (s : System) (i : Nat) (p : Process → Bool) : Bool :=
  s.processes.zipIdx.any fun q => q.2 ≠ i && p q.1

def System.lockedElsewhere (s : System) (i : Nat) (taskId : String) : Bool :=
  s.others i fun p => (p.locked taskId).isSome

/-- What a statement leaves: the reply, the process's locked rows, whether it holds the
pick lock, and the committed rows. -/
structure Done (o : Stmt) where
  reply : o.Reply
  locked : Rows
  holdsPickLock : Bool
  tasks : Rows

section

variable (s : System) (i : Nat) (p : Process)

def System.write (taskId : String) (where_ : TaskRow → Bool) (values : TaskRow → TaskRow) :
    Option (Bool × Rows) :=
  match p.locked taskId with
  | some row =>
    if where_ row then some (true, Function.update p.locked taskId (some (values row)))
    else some (false, p.locked)
  | none =>
    match s.tasks taskId with
    | some row =>
      if !where_ row then some (false, p.locked)
      else if s.lockedElsewhere i taskId then none
      else some (true, Function.update p.locked taskId (some (values row)))
    | none => some (false, p.locked)

def System.read (taskId : String) (where_ : TaskRow → Bool) (lock : RowLock) :
    Option (Option TaskRow × Rows) :=
  match p.locked taskId with
  | some row => some (if where_ row then some row else none, p.locked)
  | none =>
    match s.tasks taskId with
    | some row =>
      if !where_ row then some (none, p.locked)
      else
        match lock with
        | .none => some (some row, p.locked)
        | .forUpdate =>
          if s.lockedElsewhere i taskId then none
          else some (some row, Function.update p.locked taskId (some row))
        | .skipLocked =>
          if s.lockedElsewhere i taskId then some (none, p.locked)
          else some (some row, Function.update p.locked taskId (some row))
    | none => some (none, p.locked)

/-- The next statement of the `i`-th process; `none` means that it waits. -/
def System.perform (answer : Bool) : (o : Stmt) → Option (Done o)
  | .select taskId where_ lock =>
    (s.read i p taskId where_ lock).map fun r => ⟨r.1, r.2, p.holdsPickLock, s.tasks⟩
  | .update taskId where_ values =>
    (s.write i p taskId where_ values).map fun r => ⟨r.1, r.2, p.holdsPickLock, s.tasks⟩
  | .flush taskId loaded changed =>
    (s.write i p taskId (fun _ => true) (loaded.flushed changed)).map fun r =>
      ⟨(), r.2, p.holdsPickLock, s.tasks⟩
  | .commit =>
    some ⟨(), fun _ => none, p.holdsPickLock, fun t => (p.locked t).or (s.tasks t)⟩
  | .rollback => some ⟨(), fun _ => none, p.holdsPickLock, s.tasks⟩
  | .acquirePickLock =>
    if s.others i fun q => q.controller == p.controller && q.holdsPickLock then none
    else some ⟨(), p.locked, true, s.tasks⟩
  | .releasePickLock => some ⟨(), p.locked, false, s.tasks⟩
  | .ask => some ⟨answer, p.locked, p.holdsPickLock, s.tasks⟩

end

/-- The `i`-th process goes on as this one, or is over and frees what it holds. -/
def System.become (s : System) (i : Nat) (x : Option Process) : System :=
  { s with processes := Pool.update s.processes i x }

def System.start (s : System) (controller : Nat) (operation : Operation Unit) : System :=
  { s with processes := s.processes ++ [⟨controller, false, fun _ => none, operation⟩] }

def System.proceed (s : System) (i : Nat) (answer : Bool) (p : Process) : System :=
  match p.rest with
  | .done _ => s.become i none
  | .call o k =>
    match s.perform i p answer o with
    | none => s
    | some d =>
      { s with tasks := d.tasks }.become i
        (some ⟨p.controller, d.holdsPickLock, d.locked, k d.reply⟩)

end Cognis.Tasks.Lifecycle
