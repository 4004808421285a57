import Cognis.Tasks.Transactions

namespace Cognis.Tasks.Lifecycle

open Queue (Status validTransitions)

def select (taskId : String) (where_ : TaskRow → Bool) (lock : RowLock) :
    Operation (Option TaskRow) :=
  Program.perform (Stmt.select taskId where_ lock)

def update (taskId : String) (where_ : TaskRow → Bool) (values : TaskRow → TaskRow) :
    Operation Bool :=
  Program.perform (Stmt.update taskId where_ values)

def flush (taskId : String) (loaded changed : TaskRow) : Operation Unit :=
  Program.perform (Stmt.flush taskId loaded changed)

def commit : Operation Unit := Program.perform Stmt.commit
def rollback : Operation Unit := Program.perform Stmt.rollback
def acquirePickLock : Operation Unit := Program.perform Stmt.acquirePickLock
def releasePickLock : Operation Unit := Program.perform Stmt.releasePickLock
def ask : Operation Bool := Program.perform Stmt.ask

variable (taskId : String) (state : WorkflowState) (now attempt : Nat) (targetIndex : Option Nat)
  (status : Status) (expectedAttempt : Option Nat) (v : StatusValues) (instruction : String)

def getTask : Operation (Option TaskRow) := select taskId (fun _ => true) .none

/-- `assert_task_attempt_current`: an update that changes nothing locks the row. -/
def assertTaskAttemptCurrent (expectedAttempt : Nat) : Operation Bool :=
  update taskId (fun row => row.attemptNumber == expectedAttempt) id

def checkAttempt : Operation Bool :=
  match expectedAttempt with
  | none => pure true
  | some attempt => assertTaskAttemptCurrent taskId attempt

/-- What `update_task_status` is given besides the status. -/
structure StatusValues where
  startedAt : Option Nat := none
  completedAt : Option Nat := none
  resultSummary : Option String := none
  expectedAttempt : Option Nat := none
  expectedStatus : Option Status := none
  expectedPauseId : Option String := none

def StatusValues.found (status : Status) (row : TaskRow) : Bool :=
  (validTransitions row.status).contains status && v.expectedStatus.all (row.status == ·) &&
    v.expectedPauseId.all (fun id => row.workflowState.bind (·.pauseId) == some id) &&
    v.expectedAttempt.all (row.attemptNumber == ·)

def StatusValues.apply (status : Status) (row : TaskRow) : TaskRow :=
  { row with
    status
    startedAt := v.startedAt.or row.startedAt
    completedAt := v.completedAt.or row.completedAt
    resultSummary := v.resultSummary.or row.resultSummary }

def updateTaskStatus : Operation Bool :=
  update taskId (v.found status) (v.apply status)

def deferRunningTask (scheduledFor : Nat) (state : Option WorkflowState)
    (resultSummary : Option String) : Operation Bool :=
  update taskId (fun row => row.status == .running) fun row =>
    { row with
      status := .ready
      scheduledFor := some scheduledFor
      workflowState := state.or row.workflowState
      resultSummary := resultSummary.or row.resultSummary }

def pauseRunningTaskForInfrastructure (resultSummary : String) : Operation Bool :=
  update taskId (fun row => row.status == .running) fun row =>
    { row with
      status := .paused, workflowState := some state, resultSummary := some resultSummary }

def updateTaskWorkflowState (expectedVersion : Option Nat) : Operation Bool :=
  update taskId
    (fun row => expectedVersion.all fun v => (row.workflowState.map (·.version)).getD 0 + 1 == v)
    fun row => { row with workflowState := some state }

/-- `claim_existing`; the reply is the attempt of the claim. -/
def claimExisting (statuses : List Status) : Operation (Option Nat) := do
  match ← select taskId (fun row => statuses.contains row.status) .skipLocked with
  | none =>
    rollback
    return none
  | some row =>
    if ← ask then
      commit
      return some row.attemptNumber
    else
      rollback
      return none

def claimPaused : Operation (Option Nat) := claimExisting taskId [.paused]

/-- `claim_ready`, once it has chosen its candidate. -/
def claimReady : Operation Unit := do
  match ← select taskId (fun row => row.status == .ready) .skipLocked with
  | none => rollback
  | some _ =>
    if ← ask then
      let claimed ← update taskId (fun row => row.status == .ready) fun row =>
        { row with status := .running, startedAt := some now }
      if claimed then commit else rollback
    else rollback

/-- `assert_current` of the fence of a claim. -/
def assertCurrent (terminalStatus : Option Status) : Operation Bool := do
  let allowed := [.running, .paused] ++ terminalStatus.toList
  match ← select taskId
      (fun row => row.attemptNumber == attempt && allowed.contains row.status) .forUpdate with
  | none => return false
  | some _ => ask

def submitExisting : Operation Unit := do
  match ← getTask taskId with
  | none => rollback
  | some row =>
    if row.status = .draft then
      if ← updateTaskStatus taskId .queued {} then
        commit
        -- `_try_transition_to_ready`
        if ← ask then
          let _ ← updateTaskStatus taskId .ready {}
          commit
      else rollback
    else rollback

def pauseTask : Operation Unit := do
  if ← checkAttempt taskId expectedAttempt then
    match ← getTask taskId with
    | none => rollback
    | some row =>
      if row.status = .running then
        if ← updateTaskStatus taskId .paused {} then commit else rollback
      else rollback
  else rollback

/-- The last transaction of `resume_task`. -/
def markResumed : Operation Unit := do
  if ← checkAttempt taskId expectedAttempt then
    if ← updateTaskStatus taskId .running {} then commit else rollback
  else rollback

/-- What `resume_task` does under the pick lock. -/
def resumeTaskLocked : Operation Unit := do
  let current ← checkAttempt taskId expectedAttempt
  let row ← getTask taskId
  rollback
  if current && row.any (·.status == .paused) then
    -- a run of this controller that is still alive goes on
    if ← ask then markResumed taskId expectedAttempt
    else
      match ← claimPaused taskId with
      | none => pure ()
      | some _ => markResumed taskId expectedAttempt

def resumeTask : Operation Unit := do
  if ← ask then
    acquirePickLock
    resumeTaskLocked taskId expectedAttempt
    releasePickLock

/-- The state with which `retry_failed_task` starts over. -/
def WorkflowState.retried (preserveStepContext : Bool) : WorkflowState :=
  { state with
    resumeFailedStep := preserveStepContext
    status := .running
    currentStepStatus := none
    pendingPauseType := none
    pauseId := none }

def retryFailedTask (preserveStepContext : Bool) : Operation Unit := do
  let found ← getTask taskId
  rollback
  match found with
  | none => pure ()
  | some seen =>
    if seen.status = .failed then
      let state := (seen.workflowState.getD {}).retried preserveStepContext
      match ← claimExisting taskId [.failed] with
      | none => pure ()
      | some _ =>
        match ← getTask taskId with
        | none => rollback
        | some row =>
          flush taskId row { row with
              workflowState := some state
              attemptNumber :=
                if preserveStepContext then row.attemptNumber else row.attemptNumber + 1
              completedAt := none
              resultSummary := none }
          if ← updateTaskStatus taskId .running {} then commit else rollback

def WorkflowState.revised : WorkflowState :=
  { state with
    currentStepIndex := targetIndex.getD state.currentStepIndex
    status := .running
    currentStepStatus := none
    pendingPauseType := none
    pauseId := none
    lastOperatorInstruction := some instruction
    lastRevisionContext := some instruction }

def TaskRow.revised (row : TaskRow) (targetIndex : Option Nat) (instruction : String) : TaskRow :=
  { row with
    attemptNumber := (if row.attemptNumber = 0 then 1 else row.attemptNumber) + 1
    status := .running
    completedAt := none
    resultSummary := none
    workflowState := some ((row.workflowState.getD {}).revised targetIndex instruction) }

/-- What a revision does once its attempt is checked. The workflow and the target step
are found by `ask`; `targetIndex` is the place of a given target. -/
def reviseFound : Operation Unit := do
  match ← getTask taskId with
  | none => rollback
  | some row =>
    if row.status = .cancelled then rollback
    else if row.workflowId.isNone then rollback
    else if ← ask then
      flush taskId row (row.revised targetIndex instruction)
      commit
      let _ ← claimExisting taskId [.running]
    else rollback

def requestRevisionLocked (expectedAttempt : Option Nat) : Operation Unit := do
  if ← checkAttempt taskId expectedAttempt then reviseFound taskId targetIndex instruction
  else rollback

def requestRevision (expectedAttempt : Option Nat) : Operation Unit := do
  acquirePickLock
  requestRevisionLocked taskId targetIndex instruction expectedAttempt
  releasePickLock

def WorkflowState.cancelled (state : WorkflowState) : WorkflowState :=
  { state with
    status := .cancelled
    currentStepStatus := none
    pendingPauseType := none
    pauseId := none
    version := state.version + 1 }

def clearInteraction (row : TaskRow) : Operation Unit :=
  match row.workflowState with
  | none => commit
  | some state => do
    flush taskId row { row with workflowState := some state.cancelled }
    commit

def cancelTaskLocked : Operation Unit := do
  if ← checkAttempt taskId expectedAttempt then
    match ← select taskId (fun _ => true) .forUpdate with
    | none => rollback
    | some row =>
      if expectedAttempt.any (row.attemptNumber != ·) then rollback
      else if row.status = .completed ∨ row.status = .failed then rollback
      else if row.status = .cancelled then clearInteraction taskId row
      else if ← updateTaskStatus taskId .cancelled
          { completedAt := some now, expectedAttempt := expectedAttempt } then
        clearInteraction taskId row
      else rollback
  else rollback

def cancelTask : Operation Unit := do
  acquirePickLock
  cancelTaskLocked taskId now expectedAttempt
  releasePickLock

def recoverStaleTasks (now : Nat) : List String → Operation Unit
  | [] => pure ()
  | taskId :: rest => do
    if ← ask then
      match ← claimExisting taskId [.running] with
      | none => recoverStaleTasks now rest
      | some attempt =>
        -- a tool call that may have run without a durable result is not replayed
        if ← ask then
          if ← assertCurrent taskId attempt none then
            let _ ← updateTaskStatus taskId .failed
              { completedAt := some now
                resultSummary := some ("Workflow recovery stopped because a tool call may " ++
                  "have completed without a durable result; it was not replayed.") }
            commit
            recoverStaleTasks now rest
          else rollback
        else recoverStaleTasks now rest
    else recoverStaleTasks now rest

/-- `_launch_recovered_paused_task`, unless the row has no pending pause. -/
def launchRecoveredPausedTask : Operation Unit := do
  if ← ask then
    let _ ← claimPaused taskId

def recoverPausedTasks : List String → Operation Unit
  | [] => pure ()
  | taskId :: rest => do
    launchRecoveredPausedTask taskId
    recoverPausedTasks rest

inductive RunWrite where
  /-- `_persist_workflow_state`, with the status to sync and whether a gate is consumed. -/
  | persistState (state : WorkflowState) (status : Option Status) (consumeGate : Bool)
  /-- `_persist_task_final`. -/
  | persistFinal (status : Status) (state : Option WorkflowState) (v : StatusValues)
  /-- The deferral to an executor or after a model error. -/
  | defer (scheduledFor : Nat) (state : WorkflowState) (summary : Option String)
  | pauseForInfrastructure (state : WorkflowState) (summary : String)
  /-- The agent loop waits for an answer, and goes on with it. -/
  | pauseInteractive (state : WorkflowState)
  | clearInteractivePause (state : WorkflowState)
  /-- `_run_task`: the first state, and the failure of the run. -/
  | initialise (state : WorkflowState)
  | fail (now : Nat) (summary : String)
  /-- `resolve_dependencies` marks a dependent ready or pauses it. -/
  | resolveDependent (depId : String) (ready : Bool)

/-- A transaction behind the fence; `body` says whether it commits. -/
def fenced (terminalStatus : Option Status) (body : Operation Bool) : Operation Unit := do
  if ← assertCurrent taskId attempt terminalStatus then
    if ← body then commit else rollback
  else rollback

def consumeGate (state : WorkflowState) : Operation Bool :=
  updateTaskStatus taskId .running
    { expectedStatus := some .paused
      expectedAttempt := some attempt
      expectedPauseId := state.lastConsumedGateId }

/-- The writes of `_persist_workflow_state` behind its gate. -/
def storeState (status : Option Status) : Operation Bool := do
  if ← updateTaskWorkflowState taskId state (some state.version) then
    match status with
    | none => return true
    | some status =>
      let _ ← updateTaskStatus taskId status {}
      return true
  else return false

def persistWorkflowState (state : WorkflowState)
    (status : Option Status) (consume : Bool) : Operation Unit := do
  let seen ← getTask taskId
  rollback
  if seen.any fun row => row.status = .cancelled ∨ row.status = .failed then pure ()
  else
    fenced taskId attempt none <|
      if consume then do
        if ← consumeGate taskId attempt state then storeState taskId state status
        else return false
      else storeState taskId state status

/-- The writes of `_persist_task_final` behind its gate. -/
def storeFinal (state : Option WorkflowState) (v : StatusValues) : Operation Bool := do
  if ← updateTaskStatus taskId status { v with expectedAttempt := some attempt } then
    match state with
    | none => return true
    | some state =>
      let _ ← updateTaskWorkflowState taskId state none
      return true
  else return false

def persistTaskFinal (state : Option WorkflowState) (v : StatusValues) : Operation Unit :=
  fenced taskId attempt (some status) <|
    match state.filter fun s => s.pendingPauseType.isNone && s.lastConsumedGateId.isSome with
    | none => storeFinal taskId attempt status state v
    | some consumed => do
      let _ ← consumeGate taskId attempt consumed
      storeFinal taskId attempt status state v

def RunWrite.operation : RunWrite → Operation Unit
  | .persistState state status consume =>
    persistWorkflowState taskId attempt state status consume
  | .persistFinal status state v => persistTaskFinal taskId attempt status state v
  | .defer scheduledFor state summary =>
    fenced taskId attempt none (deferRunningTask taskId scheduledFor (some state) summary)
  | .pauseForInfrastructure state summary =>
    fenced taskId attempt none (pauseRunningTaskForInfrastructure taskId state summary)
  | .pauseInteractive state => do
    let _ ← updateTaskStatus taskId .paused {}
    let _ ← updateTaskWorkflowState taskId state none
    commit
  | .clearInteractivePause state =>
    fenced taskId attempt none do
      if ← updateTaskStatus taskId .running {} then
        let _ ← updateTaskWorkflowState taskId state none
        return true
      else return false
  | .initialise state =>
    fenced taskId attempt none do
      let _ ← updateTaskWorkflowState taskId state none
      return true
  | .fail now summary =>
    fenced taskId attempt (some .failed) do
      let _ ← updateTaskStatus taskId .failed
        { completedAt := some now
          resultSummary := some summary
          expectedAttempt := some attempt }
      return true
  | .resolveDependent depId ready =>
    fenced taskId attempt none do
      let _ ← updateTaskStatus depId (if ready then .ready else .paused) {}
      return true

def runTask (taskId : String) (attempt : Nat) : List RunWrite → Operation Unit
  | [] => pure ()
  | w :: ws => do
    w.operation taskId attempt
    runTask taskId attempt ws

/-- The calls that start an operation. -/
inductive Call where
  | submitExisting (taskId : String)
  | claimReady (taskId : String) (now : Nat)
  | pauseTask (taskId : String) (expectedAttempt : Option Nat)
  | resumeTask (taskId : String) (expectedAttempt : Option Nat)
  | retryFailedTask (taskId : String) (preserveStepContext : Bool)
  | requestRevision (taskId : String) (targetIndex : Option Nat) (instruction : String)
      (expectedAttempt : Option Nat)
  | cancelTask (taskId : String) (now : Nat) (expectedAttempt : Option Nat)
  | recoverStaleTasks (now : Nat) (taskIds : List String)
  | recoverPausedTasks (taskIds : List String)
  | runTask (taskId : String) (attempt : Nat) (writes : List RunWrite)

def Call.operation : Call → Operation Unit
  | .submitExisting taskId => Lifecycle.submitExisting taskId
  | .claimReady taskId now => Lifecycle.claimReady taskId now
  | .pauseTask taskId expectedAttempt => Lifecycle.pauseTask taskId expectedAttempt
  | .resumeTask taskId expectedAttempt => Lifecycle.resumeTask taskId expectedAttempt
  | .retryFailedTask taskId preserve => Lifecycle.retryFailedTask taskId preserve
  | .requestRevision taskId targetIndex instruction expectedAttempt =>
    Lifecycle.requestRevision taskId targetIndex instruction expectedAttempt
  | .cancelTask taskId now expectedAttempt => Lifecycle.cancelTask taskId now expectedAttempt
  | .recoverStaleTasks now taskIds => Lifecycle.recoverStaleTasks now taskIds
  | .recoverPausedTasks taskIds => Lifecycle.recoverPausedTasks taskIds
  | .runTask taskId attempt writes => Lifecycle.runTask taskId attempt writes

inductive Event where
  | start (controller : Nat) (call : Call)
  /-- A process performs its next statement, `answer` being the reply to an `ask`. -/
  | proceed (i : Nat) (answer : Bool)
  /-- A process is killed: its transaction is rolled back and its locks are freed. -/
  | kill (i : Nat)

def step (s : System) : Event → System
  | .start controller call => s.start controller call.operation
  | .proceed i answer =>
    match s.processes[i]? with
    | none => s
    | some p => s.proceed i answer p
  | .kill i => s.become i none

def System.fresh (tasks : Rows) : System := ⟨tasks, []⟩

end Cognis.Tasks.Lifecycle
