import Cognis.Library.Program
import Cognis.WorkflowEngine.Definition

namespace Cognis.WorkflowEngine

/-! The persisted state of a task's workflow, its step runs, and the operations
of the engine on them. -/

structure StepOutcome where
  status : OutcomeStatus := .success
  reason : Option String := none
  deriving DecidableEq

structure StepOutput where
  summary : String
  content : String := ""
  outputs : JsonValue := .obj []
  metadata : JsonValue.Members := []
  claims : List String := []
  outcome : Option StepOutcome := none
  deliverableId : Option String := none
  error : Option String := none
  deriving DecidableEq

inductive Decision where
  | approved | revise | failed
  deriving DecidableEq

structure StepEvaluation where
  decision : Decision
  reasoning : String := ""
  feedback : Option String := none
  deriving DecidableEq

/-- `evaluation.feedback or evaluation.reasoning`. -/
def StepEvaluation.feedbackText (evaluation : StepEvaluation) : String :=
  if evaluation.feedback.getD "" = "" then evaluation.reasoning
  else evaluation.feedback.getD ""

inductive WorkflowStatus where
  | running | paused | completed | failed | cancelled
  deriving DecidableEq

inductive RetryReason where
  | executionFailed | evaluationRejected | routedRevision
  deriving DecidableEq

inductive StepStatus where
  | running | paused
  deriving DecidableEq

/-- The saved pause of a gate. `nextStepIndex` is read on resumption. -/
structure PausePayload where
  stepName : String
  message : String
  context : List (String × StepOutput)
  gateDefinition : GateConfig
  originStep : String
  originStepIndex : Nat
  nextStepIndex : Option Nat := none
  deriving DecidableEq

structure WorkflowState where
  currentStepIndex : Nat := 0
  stepOutputs : OrderedMap String StepOutput := .empty
  loopIterations : OrderedMap String Nat := .empty
  status : WorkflowStatus := .running
  skippedSteps : List String := []
  routingSkips : OrderedMap String String := .empty
  lastEvaluationFeedback : Option String := none
  lastRetryReason : Option RetryReason := none
  lastRevisionContext : Option String := none
  lastOperatorInstruction : Option String := none
  pendingGate : Option PausePayload := none
  currentStepStatus : Option StepStatus := none
  resumeFailedStep : Bool := false
  deriving DecidableEq

def attemptsKey (step : String) : String := "attempts:" ++ step

def recoveryKey (step : String) : String := "recovery:" ++ step

def generationKey (step : String) : String := "deterministic_generation:" ++ step

def transientKey (step : String) : String := "transient_executor_unavailable:" ++ step

def jumpsKey : String := "deterministic_jumps"

def reviewLoopKey (target step : String) : String := target ++ "->" ++ step

def conditionLoopKey (step target : String) : String := "condition:" ++ step ++ "->" ++ target

def outcomeLoopKey (step target : String) : String :=
  "outcome:" ++ step ++ ":revise(" ++ target ++ ")"

namespace WorkflowState

variable (s : WorkflowState)

/-- `loop_iterations.get(key, default)`. -/
def iterations (key : String) (default : Nat) : Nat := (s.loopIterations.get? key).getD default

def setIterations (key : String) (n : Nat) : WorkflowState :=
  { s with loopIterations := s.loopIterations.set key n }

def popIterations (key : String) : WorkflowState :=
  { s with loopIterations := s.loopIterations.erase key }

/-- How often a route has moved back over the step: its executions before that
belong to an earlier generation. -/
def generation (step : String) : Nat := s.iterations (generationKey step) 0

end WorkflowState

inductive StepRunStatus where
  | pending | running | evaluating | approved | rejected | paused | failed | skipped | cancelled
  deriving DecidableEq

inductive Substate where
  | rendering | executing | persisted
  deriving DecidableEq

/-- `route_loop_key` and `route_loop_iterations`, which a condition notes together. -/
structure RouteLoop where
  step : String
  target : String
  iterations : Nat
  deriving DecidableEq

def RouteLoop.key (loop : RouteLoop) : String := conditionLoopKey loop.step loop.target

/-- What the engine reads back from a step run's `runtime_info`. -/
structure RuntimeInfo where
  deterministicGeneration : Option Nat := none
  deterministicSubstate : Option Substate := none
  terminalStatus : Option StepRunStatus := none
  nextStepIndex : Option Nat := none
  selectedTarget : Option String := none
  conditionExhausted : Bool := false
  workflowStatus : Option CompletionStatus := none
  errorAction : Option ErrorAction := none
  routeLoop : Option RouteLoop := none
  revisionContext : Option String := none
  toolReadOnly : Option Bool := none
  deriving DecidableEq

/-- `startedAt` is the arrival the row was created in. -/
structure StepRun where
  stepRunId : Nat
  stepName : String
  attempt : Nat
  status : StepRunStatus := .pending
  output : Option StepOutput := none
  evaluation : Option StepEvaluation := none
  runtimeInfo : RuntimeInfo := {}
  startedAt : Nat := 0
  deriving DecidableEq

/-- The keyword arguments of `update_step_run`; `none` is `_UNSET`. -/
structure StepRunUpdate where
  status : Option StepRunStatus := none
  attempt : Option Nat := none
  output : Option (Option StepOutput) := none
  evaluation : Option (Option StepEvaluation) := none
  runtimeInfo : Option RuntimeInfo := none
  deriving DecidableEq

def validStepRunTransitions : StepRunStatus → List StepRunStatus
  | .pending => [.running, .cancelled]
  | .running => [.evaluating, .approved, .rejected, .failed, .skipped, .paused, .cancelled]
  | .evaluating => [.approved, .rejected, .failed]
  | .approved => [.running]
  | .rejected => [.running]
  | .paused => [.running, .cancelled]
  | .failed => [.running]
  | .skipped => []
  | .cancelled => []

namespace StepRunUpdate

def permitted (u : StepRunUpdate) (row : StepRun) : Bool :=
  match u.status with
  | none => true
  | some status => (validStepRunTransitions row.status).contains status

def applyTo (u : StepRunUpdate) (row : StepRun) : StepRun :=
  if u.permitted row then
    { row with
      status := u.status.getD row.status
      attempt := u.attempt.getD row.attempt
      output := u.output.getD row.output
      evaluation := u.evaluation.getD row.evaluation
      runtimeInfo := u.runtimeInfo.getD row.runtimeInfo }
  else row

end StepRunUpdate

inductive Write where
  | create (row : StepRun)
  | update (stepRunId : Nat) (u : StepRunUpdate)
  | failRunning (finalStatus : StepRunStatus)
  deriving DecidableEq

/-- The order of `get_latest_step_run_for_task_step`: attempt, start, id. -/
def StepRun.later (a b : StepRun) : Bool :=
  b.attempt < a.attempt || (a.attempt == b.attempt &&
      (b.startedAt < a.startedAt || (a.startedAt == b.startedAt && b.stepRunId ≤ a.stepRunId)))

def latestStepRun (rows : List StepRun) (name : String) : Option StepRun :=
  (rows.filter (fun row => row.stepName == name)).foldl (fun best row =>
      match best with
      | none => some row
      | some other => if row.later other then some row else some other) none

inductive TaskStatus where
  | ready | running | paused | completed | failed | cancelled
  deriving DecidableEq

def TaskStatus.terminal : TaskStatus → Bool
  | .completed | .failed | .cancelled => true
  | _ => false

/-- The call of a tool; `readOnly` is the registry's word on it. -/
structure ToolCall where
  step : String
  tool : String
  readOnly : Bool
  args : JsonValue
  deriving DecidableEq

/-- A task's durable records. `arrivals` counts the committed changes of the
current step, `dispatched` the tool calls with the arrival they belong to. -/
structure World where
  state : WorkflowState := {}
  taskStatus : TaskStatus := .running
  rows : List StepRun := []
  arrivals : Nat := 0
  dispatched : List (ToolCall × Nat) := []

structure ToolResult where
  output : String
  isError : Bool := false
  deriving DecidableEq

structure Deliverable where
  deliverableId : String
  title : Option String := none
  content : String
  deriving DecidableEq

inductive RuntimeReply where
  | ready | transient
  | failed (error : String)

inductive AgentReply where
  | finished (output : Option StepOutput)
  | interrupted (cancelled : Bool)
  | raised (error : String)

inductive GateReply where
  | decided (action : Action) (instruction : String)
  | interrupted

inductive ToolLookup where
  | found (readOnly : Bool)
  | transient
  | raised (error : String)

inductive ToolReply where
  | result (r : ToolResult)
  | timeout | transient
  | raised (error : String)

inductive Op where
  | persist (state : WorkflowState) (task : TaskStatus)
  | newStepRunId
  | latestStepRun (name : String)
  | commit (writes : List Write)
  | resolveAgents (step : String)
  | resolveRuntime (step : String)
  | runStep (step : String)
  | evaluateStep (step : String) (output : StepOutput)
  | recordFeedback (step : String)
  | rejectedDeliverable (stepRunId : Nat)
  | resolvedDecision (gate : String)
  | awaitDecision (gate : String)
  | toolDefinition (tool : String)
  | dispatch (call : ToolCall)

def Reply : Op → Type
  | .persist _ _ => Unit
  | .newStepRunId => Nat
  | .latestStepRun _ => Option StepRun
  | .commit _ => Unit
  | .resolveAgents _ => Bool
  | .resolveRuntime _ => RuntimeReply
  | .runStep _ => AgentReply
  | .evaluateStep _ _ => StepEvaluation
  | .recordFeedback _ => Bool
  | .rejectedDeliverable _ => Option Deliverable
  | .resolvedDecision _ => Option (Action × String)
  | .awaitDecision _ => GateReply
  | .toolDefinition _ => ToolLookup
  | .dispatch _ => ToolReply

abbrev Prog := Program Op Reply

/-- `failRunning` is `fail_running_step_runs_for_task`, which knows no transitions. -/
def Write.applyTo (arrival : Nat) (rows : List StepRun) : Write → List StepRun
  | .create row => rows ++ [{ row with startedAt := arrival }]
  | .update id u => rows.map fun row => if row.stepRunId = id then u.applyTo row else row
  | .failRunning finalStatus => rows.map fun row =>
      if [.pending, .running, .evaluating, .paused].contains row.status then
        { row with status := finalStatus }
      else row

namespace World

variable (w : World)

def persist (state : WorkflowState) (task : TaskStatus) : World :=
  { w with
    state
    taskStatus := task
    arrivals :=
      if state.currentStepIndex = w.state.currentStepIndex then w.arrivals else w.arrivals + 1 }

def commit (writes : List Write) : World :=
  { w with rows := writes.foldl (Write.applyTo w.arrivals) w.rows }

def after : Op → World
  | .persist state task => w.persist state task
  | .commit writes => w.commit writes
  | .dispatch call => { w with dispatched := w.dispatched ++ [(call, w.arrivals)] }
  | _ => w

/-- The records answer for themselves, everything else is up to the outside. -/
def answers : (o : Op) → Reply o → Prop
  | .newStepRunId, r => r = w.rows.length
  | .latestStepRun name, r => r = Cognis.WorkflowEngine.latestStepRun w.rows name
  | _, _ => True

def reply (outside : Nat → (o : Op) → Reply o) (n : Nat) (w : World) : (o : Op) → Reply o
  | .newStepRunId => w.rows.length
  | .latestStepRun name => Cognis.WorkflowEngine.latestStepRun w.rows name
  | o => outside n o

theorem answers_reply (outside : Nat → (o : Op) → Reply o) (n : Nat) (w : World) (o : Op) :
    w.answers o (reply outside n w o) := by
  cases o with
  | newStepRunId | latestStepRun => rfl
  | _ => trivial

end World

end Cognis.WorkflowEngine
