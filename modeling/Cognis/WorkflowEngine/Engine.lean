import Cognis.Library.Runs
import Cognis.WorkflowEngine.Gates

namespace Cognis.WorkflowEngine

/-! The main loop: one program for each of its iterations, and the runs of a task
with crashes, shutdowns and resumptions. -/

def resolveAgents (step : String) : Prog Bool :=
  Program.perform (ρ := Reply) (Op.resolveAgents step)

def resolveRuntime (step : String) : Prog RuntimeReply :=
  Program.perform (ρ := Reply) (Op.resolveRuntime step)

def runStep (step : String) : Prog AgentReply := Program.perform (ρ := Reply) (Op.runStep step)

def evaluateStep (step : String) (output : StepOutput) : Prog StepEvaluation :=
  Program.perform (ρ := Reply) (Op.evaluateStep step output)

/-- How an iteration ends. -/
inductive VisitEnd where
  | approved | advanced | retried | looped | revised | continued
  | skipped | passedOver
  | completed | failed | cancelled
  | paused | deferred | interrupted
  | stopped | raised
  | finished
  deriving DecidableEq

variable (host : Host) (workflow : Workflow)

/-- `_missing_required_deliverable`, noted as the output's error. -/
def requireDeliverable (step : StepDefinition) (output : StepOutput) : StepOutput :=
  match step.kind with
  | .run config =>
    if config.requireDeliverable ∧ output.deliverableId.getD "" = "" ∧ output.error = none then
      { output with
        error := some ("Step '" ++ step.name ++
          "' requires a deliverable, but the step finished without one.") }
    else output
  | _ => output

def initialStatus (step : StepDefinition) (output : Option StepOutput) : StepRunStatus :=
  match output with
  | none => .failed
  | some output =>
    if output.error.isSome then .failed
    else if ((workflow.resolveCompletion step).map CompletionConfig.evaluate).getD false then
      .evaluating
    else if output.outcome.map StepOutcome.status = some .failed then .failed
    else .approved

def startRunStep (step : StepDefinition) (s : WorkflowState) : Prog (Nat × RuntimeInfo) := do
  let attempt := s.iterations (attemptsKey step.name) 1
  let start (info : RuntimeInfo) : StepRunUpdate :=
    { status := some .running, attempt := some attempt, output := some none,
      evaluation := some none, runtimeInfo := some info }
  match ← latest step.name with
  | none =>
    let id ← newStepRunId
    commit [.create { stepRunId := id, stepName := step.name, attempt }, .update id (start {})]
    return (id, {})
  | some row =>
    commit [.update row.stepRunId (start row.runtimeInfo)]
    return (row.stepRunId, row.runtimeInfo)

/-- The agent's work on a started row. -/
def finishRunStep (step : StepDefinition) (id : Nat) (info : RuntimeInfo) :
    Prog (Except Raised (Option StepOutput)) := do
  match ← runStep step.name with
  | .interrupted cancelled =>
    commit [.update id { status := some (if cancelled then .cancelled else .paused) }]
    return .error (.interrupted cancelled)
  | .raised _ =>
    commit [.update id { status := some .failed }]
    return .error .exception
  | .finished output =>
    let output := output.map (requireDeliverable step)
    commit [.update id { status := some (initialStatus workflow step output),
                         output := some output, runtimeInfo := some info }]
    return .ok output

def executeRunStep (step : StepDefinition) (s : WorkflowState) :
    Prog (Except Raised (Option StepOutput × Nat)) := do
  if ← resolveAgents step.name then
    let (id, info) ← startRunStep step s
    match ← resolveRuntime step.name with
    | .transient =>
      commit [.update id
        { status := some .pending
          output := some (some
            { summary := "Deferred because the selected executor is not ready." })
          runtimeInfo := some info }]
      return .error .transient
    | .failed error =>
      commit [.update id
        { status := some .failed
          output := some (some
            { summary := "Failed to resolve step runtime.", error := some error })
          runtimeInfo := some info }]
      return .ok (none, id)
    | .ready =>
      commit [.update id { runtimeInfo := some info }]
      let result ← finishRunStep workflow step id info
      return result.map fun output => (output, id)
  else return .ok (none, 0)

variable (s : WorkflowState)

def finishWorkflow (how : VisitEnd) : Prog VisitEnd := do
  let s := { s with currentStepStatus := none, pendingGate := none }
  if s.status = .cancelled then
    persist s .cancelled
  else if s.status = .failed ∨ s.skippedSteps ≠ [] then
    persist { s with status := .failed } .failed
  else
    persist { s with status := .completed } .completed
  return how

/-- The handlers of `StepInterrupted` and of other exceptions. -/
def raise : Raised → Prog VisitEnd
  | .transient | .exception => do
    commit [.failRunning .failed]
    persist { s with status := .failed } .failed
    return .raised
  | .interrupted true => do
    persist { s with status := .cancelled, currentStepStatus := none, pendingGate := none }
      .cancelled
    return .stopped
  | .interrupted false => do
    persist { s with status := .paused } .paused
    return .interrupted

/-- `_handle_transient_executor_unavailable`. -/
def deferTransient (step : StepDefinition) (s : WorkflowState) : Prog VisitEnd := do
  let key := transientKey step.name
  let s := { s.setIterations key (s.iterations key 0 + 1) with
    currentStepStatus := none
    lastRetryReason := none
    lastEvaluationFeedback := none
    status := .running
    pendingGate := none }
  persist s .ready
  return .deferred

def fail : Prog VisitEnd := finishWorkflow { s with status := .failed } .failed

def cancel : Prog VisitEnd :=
  finishWorkflow { s with status := .cancelled } .cancelled

def Exhausted.visitEnd : Exhausted → VisitEnd
  | .skipped => .skipped
  | .continued => .continued
  | .cancelled => .cancelled
  | .revised => .revised

def conclude : Except Raised Handled → Prog VisitEnd
  | .error raised => raise s raised
  | .ok .unhandled => fail s
  | .ok .looped => return .looped
  | .ok .retried => return .retried
  | .ok .deferred => return .deferred
  | .ok (.exhausted how) => return how.visitEnd

def noteRoute (result : DeterministicResult) : WorkflowState :=
  let s := match result.routeLoop with
    | some loop => s.setIterations loop.key loop.iterations
    | none => s
  match result.revisionContext with
  | some context => { s with lastRevisionContext := some context }
  | none => s

def routeDeterministic (step : StepDefinition) (s : WorkflowState) (result : DeterministicResult) :
    Prog VisitEnd := do
  let next := result.nextStepIndex.getD (s.currentStepIndex + 1)
  match applyDeterministicRoute workflow (noteRoute s result) s.currentStepIndex next
      (deterministicRouteReason step result.output) with
  | .error s => raise s .exception
  | .ok s =>
    persist { s with currentStepStatus := none, pendingGate := none, currentStepIndex := next }
      .running
    return .advanced

def settleError (step : StepDefinition) (result : DeterministicResult) :
    WorkflowState × Except Raised ErrorGate → Prog VisitEnd
  | (s, .error raised) => raise s raised
  | (_, .ok .paused) => return .paused
  | (s, .ok .cancel) => cancel s
  | (s, .ok .fail) => fail s
  | (s, .ok .«continue») => routeDeterministic workflow step s result

def followDeterministic (step : StepDefinition) (s : WorkflowState) (result : DeterministicResult) :
    Prog VisitEnd := do
  let s := { s with stepOutputs := s.stepOutputs.set step.name result.output }
  match result.workflowStatus with
  | some status =>
    let s := { s with
      status := match status with
        | .completed => .completed
        | .failed => .failed
      currentStepIndex := workflow.steps.length }
    persist s .running
    return match status with
      | .completed => .completed
      | .failed => .failed
  | none =>
    if result.stepRunStatus = .paused then
      persist { s with status := .paused, currentStepStatus := some .paused } .paused
      return .paused
    else if result.stepRunStatus = .failed then
      match result.errorAction.getD .fail with
      | .fail =>
        let s := { s with status := .failed }
        persist s .running
        fail s
      | .gate =>
        let error := if result.output.error.getD "" = "" then result.output.summary
          else result.output.error.getD ""
        let answer ← pauseForDeterministicError host workflow step s error
        settleError workflow step result answer
      | .«continue» | .skip => routeDeterministic workflow step s result
    else routeDeterministic workflow step s result

def visitDeterministic (step : StepDefinition) (s : WorkflowState) : Prog VisitEnd := do
  match ← executeDeterministicStep host workflow step s with
  | .error .transient => deferTransient step s
  | .error raised => raise s raised
  | .ok result => followDeterministic host workflow step s result

def visitGate (step : StepDefinition) (config : Option GateConfig) (s : WorkflowState) :
    Prog VisitEnd := do
  match ← handleGateStep host workflow step.name config s with
  | (s, .error raised) => raise s raised
  | (s, .ok .cancel) => cancel { s with lastOperatorInstruction := none }
  | (s, .ok .fail) => fail { s with lastOperatorInstruction := none }
  | (s, .ok (.revise target)) =>
    match workflow.findStepIndex target with
    | none => fail s
    | some index =>
      let s := if s.lastRevisionContext.getD "" = "" then
          { s with
            lastRevisionContext := some
              ("Gate '" ++ step.name ++ "' requested revision of step '" ++ target ++ "'.") }
        else s
      persist (reviseTo s target index) .running
      return .advanced
  | (s, .ok _) =>
    persist { s with currentStepIndex := s.currentStepIndex + 1 } .running
    return .advanced

def settleOutcome : WorkflowState × Except Raised Routed → Prog VisitEnd
  | (s, .error raised) => raise s raised
  | (s, .ok .failed) => fail s
  | (s, .ok .cancelled) => cancel s
  | (_, .ok .routed) => return .approved
  | (_, .ok (.exhausted how)) => return how.visitEnd
  | (s, .ok .«continue») => do
    persist { clearNotes s with
        currentStepStatus := none
        pendingGate := none
        lastOperatorInstruction := none
        currentStepIndex := s.currentStepIndex + 1 }
      .running
    return .approved

def approveStep (step : StepDefinition) (output : StepOutput) (s : WorkflowState) :
    Prog VisitEnd := do
  let s := { s with stepOutputs := s.stepOutputs.set step.name output }
  let routed ← handleStepOutcome host workflow step output s
  settleOutcome routed

def retryRejected (step : StepDefinition) (evaluation : StepEvaluation) (s : WorkflowState) :
    Prog VisitEnd := do
  let (s, result) ← handleStepRetry host workflow step s (some evaluation) none
  conclude s result

/-- What the loop does with a review loop: one that handles nothing leaves the step
to its own attempts. -/
def settleReview (step : StepDefinition) (evaluation : StepEvaluation) :
    WorkflowState × Except Raised Handled → Prog VisitEnd
  | (s, .ok .unhandled) => retryRejected host workflow step evaluation s
  | (s, result) => conclude s result

def rejectStep (step : StepDefinition) (s : WorkflowState) (evaluation : StepEvaluation) :
    Prog VisitEnd := do
  let s := { s with lastEvaluationFeedback := some evaluation.feedbackText }
  match step.onReject with
  | none => retryRejected host workflow step evaluation s
  | some onReject =>
    let handled ← handleReviewLoop host workflow step onReject s
    settleReview host workflow step evaluation handled

def judgeStep (step : StepDefinition) (output : StepOutput) (s : WorkflowState) (id : Nat) :
    Prog VisitEnd := do
  let evaluation ← evaluateStep step.name output
  let status := match evaluation.decision with
    | .approved => StepRunStatus.approved
    | .revise => .rejected
    | .failed => .failed
  commit [.update id { status := some status, evaluation := some (some evaluation) }]
  match evaluation.decision with
  | .approved => approveStep host workflow step output s
  | .revise => rejectStep host workflow step s evaluation
  | .failed =>
    if host.evaluatorMalfunction evaluation then fail s
    else
      let (s, result) ← handleExhausted host workflow step s (workflow.getOnExhausted step) none
      conclude s (result.map Handled.ofExhausted)

def missingSources (step : StepDefinition) (s : WorkflowState) : List String :=
  (workflow.resolveSourceNames step s.currentStepIndex).filter s.skippedSteps.contains

def visitRun (step : StepDefinition) (s : WorkflowState) : Prog VisitEnd := do
  if missingSources workflow step s ≠ [] then
    persist
      { s with
        skippedSteps := s.skippedSteps ++ [step.name]
        currentStepIndex := s.currentStepIndex + 1 }
      .running
    return .passedOver
  else
    match ← executeRunStep workflow step s with
    | .error .transient => deferTransient step s
    | .error raised => raise s raised
    | .ok (none, _) =>
      let (s, result) ← handleStepRetry host workflow step s none none
      conclude s result
    | .ok (some output, id) =>
      if output.error.isSome then
        let (s, result) ← handleStepRetry host workflow step s none (some output)
        conclude s result
      else
        let s := { s.popIterations (recoveryKey step.name) with resumeFailedStep := false }
        if ((workflow.resolveCompletion step).map CompletionConfig.evaluate).getD false then
          judgeStep host workflow step output s id
        else approveStep host workflow step output s

def resumedErrorTarget (step : StepDefinition) (payload : PausePayload) (s : WorkflowState) :
    Option Nat :=
  match payload.nextStepIndex with
  | some index => some index
  | none =>
    match step.next with
    | some name => workflow.findStepIndex name
    | none => some (s.currentStepIndex + 1)

def stayPaused : Prog VisitEnd := do
  persist { s with status := .paused } .paused
  return .paused

def resumeOutcome : WorkflowState × Except Raised Routed → Prog VisitEnd
  | (s, .error raised) => raise s raised
  | (s, .ok .failed) => fail s
  | (s, .ok .cancelled) => cancel s
  | (_, .ok (.exhausted how)) => return how.visitEnd
  | (_, .ok _) => return .approved

def resumeExhausted : WorkflowState × Except Raised (Option Exhausted) → Prog VisitEnd
  | (s, .error raised) => raise s raised
  | (s, .ok none) => fail s
  | (_, .ok (some how)) => return how.visitEnd

def resumeError (step : StepDefinition) (payload : PausePayload) :
    WorkflowState × Except Raised ErrorGate → Prog VisitEnd
  | (s, .error raised) => raise s raised
  | (s, .ok .paused) => stayPaused s
  | (s, .ok .cancel) => cancel s
  | (s, .ok .fail) => fail s
  | (s, .ok .«continue») =>
    match resumedErrorTarget workflow step payload s with
    | none => fail s
    | some target => do
      persist { s with currentStepIndex := target } .running
      return .advanced

/-- `_resume_derived_gate` and what the loop does with its result. -/
def resumeDerivedGate (step : StepDefinition) (payload : PausePayload) (s : WorkflowState) :
    Prog VisitEnd := do
  if payload.originStep ≠ step.name ∨ payload.originStepIndex ≠ s.currentStepIndex then
    stayPaused s
  else if payload.stepName = outcomeGateName step.name then
    match s.stepOutputs.get? step.name with
    | none => stayPaused s
    | some output =>
      let status := (output.outcome.map StepOutcome.status).getD .success
      if (step.resolveOutcomeRoute status).map OutcomeRoute.action = some .gate then
        let routed ← handleStepOutcome host workflow step output s
        resumeOutcome routed
      else stayPaused s
  else if payload.stepName = exhaustedGateName step.name then
    let exhausted ← handleExhausted host workflow step s .gate s.lastEvaluationFeedback
    resumeExhausted exhausted
  else if payload.stepName = errorGateName step.name then
    let error := ((s.stepOutputs.get? step.name).bind StepOutput.error).getD ""
    let answer ← pauseForDeterministicError host workflow step s error
    resumeError workflow step payload answer
  else stayPaused s

def takenUp (step : StepDefinition) (s : WorkflowState) : WorkflowState :=
  { s with currentStepStatus := some .running, routingSkips := s.routingSkips.erase step.name }

/-- One iteration of the main loop, from the committed state. An iteration that
leaves the index past the last step is followed by the one that ends the task. -/
def visit : Prog VisitEnd :=
  match workflow.steps[s.currentStepIndex]? with
  | none => finishWorkflow s .finished
  | some step =>
    match s.pendingGate, step.isGate with
    | some payload, false => resumeDerivedGate host workflow step payload s
    | _, _ =>
      let s := takenUp step s
      match step.kind with
      | .run _ => visitRun host workflow step s
      | .gate config => visitGate host workflow step config s
      | _ => visitDeterministic host workflow step s

abbrev Outside := Nat → (o : Op) → Reply o

/-- A host whose templates stand for themselves and whose conditions compare nothing:
an expression holds if it is the text `true`. -/
def Host.literal : Host where
  renderExpression expression _ := .ok (expression == "true")
  renderText text _ := .ok text
  renderNative value _ := .ok value
  metadataFits _ := true
  defaultToolOutputs result := .obj [("output", .str result.output)]
  callIdentity step _ := step
  gateCondition expression _ := .ok (expression == "true")
  formatContext _ := ""
  transientFailure _ := false
  modelError _ := false
  evaluatorMalfunction _ := false

/-- An outside where everything is ready: agents and tools answer `text`, the
evaluator and the operator as given. -/
def Outside.ready (text : String) (decision : Decision) (action : Action) : Outside
  | _, .persist _ _ => ()
  | _, .newStepRunId => (0 : Nat)
  | _, .latestStepRun _ => (none : Option StepRun)
  | _, .commit _ => ()
  | _, .resolveAgents _ => true
  | _, .resolveRuntime _ => RuntimeReply.ready
  | _, .runStep _ => AgentReply.finished (some { summary := text })
  | _, .evaluateStep _ _ => ({ decision } : StepEvaluation)
  | _, .recordFeedback _ => true
  | _, .rejectedDeliverable _ => (none : Option Deliverable)
  | _, .resolvedDecision _ => (none : Option (Action × String))
  | _, .awaitDecision _ => GateReply.decided action ""
  | _, .toolDefinition _ => ToolLookup.found true
  | _, .dispatch _ => ToolReply.result { output := text }

/-- An iteration that returns, one killed after some operations, and one the
worker's own cancellation ends, which fails the rows in flight. -/
inductive Event where
  | visit (outside : Outside)
  | crash (outside : Outside) (operations : Nat)
  | shutdown (outside : Outside) (operations : Nat)

/-- A task's records with the iterations that have returned and the index each began at. -/
structure Run where
  world : World := {}
  visits : List (Nat × VisitEnd) := []

namespace Run

def record (run : Run) (result : Option VisitEnd) (world : World) : Run :=
  { world
    visits := run.visits ++ (result.map fun how => (run.world.state.currentStepIndex, how)).toList }

def step (run : Run) (e : Event) : Run :=
  if run.world.taskStatus.terminal then run
  else
    let program := visit host workflow run.world.state
    match e with
    | .visit outside =>
      let (how, world) := program.exec (World.reply outside) World.after 0 run.world
      run.record (some how) world
    | .crash outside operations =>
      let (result, world) := program.crash (World.reply outside) World.after operations 0 run.world
      run.record result world
    | .shutdown outside operations =>
      let (result, world) := program.crash (World.reply outside) World.after operations 0 run.world
      run.record result (if result.isSome then world else world.commit [.failRunning .failed])

end Run

end Cognis.WorkflowEngine
