import Cognis.WorkflowEngine.Deterministic

namespace Cognis.WorkflowEngine

/-! Gates, exhaustion, retries and outcome routes of a step. The functions hand
back the state they leave in memory beside their result. -/

def resolvedDecision (gate : String) : Prog (Option (Action × String)) :=
  Program.perform (ρ := Reply) (Op.resolvedDecision gate)

def awaitDecision (gate : String) : Prog GateReply :=
  Program.perform (ρ := Reply) (Op.awaitDecision gate)

def rejectedDeliverable (stepRunId : Nat) : Prog (Option Deliverable) :=
  Program.perform (ρ := Reply) (Op.rejectedDeliverable stepRunId)

def recordFeedback (step : String) : Prog Bool :=
  Program.perform (ρ := Reply) (Op.recordFeedback step)

def exhaustedGateName (step : String) : String := step ++ "_exhausted"

def outcomeGateName (step : String) : String := step ++ "_outcome_gate"

def errorGateName (step : String) : String := step ++ ":error"

def buildExhaustionGate (step : StepDefinition) (lastError : Option String) : GateConfig :=
  let attempts := (step.completion.map CompletionConfig.maxAttempts).getD 3
  let failure := match lastError with
    | none => ""
    | some error => if error = "" then "" else "\n\nLast failure: " ++ clip 500 error
  { message := "Step '" ++ step.name ++ "' has exhausted its retry limit (" ++ toString attempts ++
      " attempts)." ++ failure ++ "\n\nYou can retry or cancel the task from the task board." }

def buildOutcomeGate (step : StepDefinition) (outcomeReason : Option String) : GateConfig :=
  let reason := match outcomeReason with
    | none => ""
    | some reason => if reason = "" then "" else "\n\nReason: " ++ clip 500 reason
  { message := "Step '" ++ step.name ++ "' completed but reported a failed outcome." ++ reason ++
      "\n\nYou can retry the step or continue anyway." }

def buildErrorGate (step : StepDefinition) (error : String) : GateConfig :=
  { message := "Deterministic step '" ++ step.name ++ "' requires operator review.\n\n" ++
      clip 500 (joinWords error) }

variable (host : Host) (workflow : Workflow)

def gateFires (gate : GateConfig) (s : WorkflowState) : Bool :=
  let results := gate.conditions.map (host.gateCondition · s.stepOutputs)
  results.any fun
    | .ok holds => holds
    | .error _ => true

def persistGateEvaluation (gateName : String) (action : Action) : Prog Unit := do
  let status := if action = .«continue» then .approved else .paused
  match ← latest gateName with
  | none =>
    let id ← newStepRunId
    commit [.create { stepRunId := id, stepName := gateName, attempt := 1, status }]
  | some row =>
    commit [.update row.stepRunId { status := some status, runtimeInfo := some row.runtimeInfo }]

def gateRevisionContext (gateName target : String) (gate : GateConfig)
    (context : List (String × StepOutput)) (instruction : String) : String :=
  "\n\n".intercalate
    (["Gate '" ++ gateName ++ "' requested revision of step '" ++ target ++ "'."] ++
      (if gate.message = "" then [] else ["Gate message: " ++ gate.message]) ++
      (if context = [] then [] else ["Gate context:\n" ++ host.formatContext context]) ++
      (if instruction = "" then [] else ["Operator note:\n" ++ instruction]))

/-- The state a consumed decision leaves in memory; the caller commits it. -/
def resumedState (s : WorkflowState) (action : Action) (instruction : String) : WorkflowState :=
  { s with
    status := .running
    currentStepStatus := some .running
    pendingGate := none
    lastOperatorInstruction :=
      if instruction ≠ "" ∧ action ≠ .cancel then some instruction
      else s.lastOperatorInstruction }

def gateContext (gate : GateConfig) (s : WorkflowState) : List (String × StepOutput) :=
  gate.input.filterMap fun name => (s.stepOutputs.get? name).map fun output => (name, output)

def pausedState (gateName : String) (gate : GateConfig) (s : WorkflowState) : WorkflowState :=
  { s with
    status := .paused
    currentStepStatus := some .paused
    pendingGate := some
      { stepName := gateName
        message := gate.message
        context := gateContext gate s
        gateDefinition := gate
        originStep := (workflow.steps[s.currentStepIndex]?.map StepDefinition.name).getD ""
        originStepIndex := s.currentStepIndex } }

def followReply (gateName : String) (gate : GateConfig) (context : List (String × StepOutput))
    (s : WorkflowState) : GateReply → Prog (WorkflowState × Except Raised Action)
  | .interrupted => return (s, .error (.interrupted false))
  | .decided action instruction => do
    persistGateEvaluation gateName action
    let s := match action with
      | .revise target =>
        if s.lastRevisionContext.getD "" = "" then
          { s with
            lastRevisionContext :=
              some (gateRevisionContext host gateName target gate context instruction) }
        else s
      | _ => s
    return (resumedState s action instruction, .ok action)

def waitAtGate (gateName : String) (gate : GateConfig) (s : WorkflowState) :
    Prog (WorkflowState × Except Raised Action) := do
  let context := gateContext gate s
  let s := pausedState workflow gateName gate s
  persist s .paused
  let reply ← awaitDecision gateName
  followReply host gateName gate context s reply

/-- A saved pause: its decision may have been made meanwhile. -/
def resumePause (gateName : String) (payload : PausePayload) (s : WorkflowState) :
    Option (Action × String) → Prog (WorkflowState × Except Raised Action)
  | some (action, instruction) => do
    persistGateEvaluation gateName action
    return (resumedState s action instruction, .ok action)
  | none => waitAtGate host workflow gateName payload.gateDefinition s

def handleGateStep (gateName : String) (gate : Option GateConfig) (s : WorkflowState) :
    Prog (WorkflowState × Except Raised Action) := do
  match s.pendingGate with
  | some payload =>
    if payload.stepName ≠ gateName then
      return (s, .error (.interrupted false))
    else
      let decision ← resolvedDecision gateName
      resumePause host workflow gateName payload s decision
  | none =>
    if workflow.interaction = .none then
      return (s, .ok .«continue»)
    else
      match gate with
      | none => return (s, .ok .«continue»)
      | some gate =>
        if gate.conditions ≠ [] ∧ gateFires host gate s = false then
          persistGateEvaluation gateName .«continue»
          return (s, .ok .«continue»)
        else waitAtGate host workflow gateName gate s

def rejectedOutput (row : StepRun) (deliverable : Deliverable) : StepOutput :=
  let output := row.output.getD
    { summary := if deliverable.title.getD "" = "" then clip 200 deliverable.content
        else deliverable.title.getD "" }
  { output with
    deliverableId := some deliverable.deliverableId
    content := deliverable.content }

def skipExhausted (step : StepDefinition) (s : WorkflowState) : Prog WorkflowState := do
  let s ← match ← latest step.name with
    | none => pure s
    | some row =>
      match ← rejectedDeliverable row.stepRunId with
      | none => pure s
      | some deliverable =>
        pure { s with
          stepOutputs := s.stepOutputs.set step.name (rejectedOutput row deliverable) }
  let s := { s with
    skippedSteps := s.skippedSteps ++ [step.name]
    lastOperatorInstruction := none
    currentStepIndex := s.currentStepIndex + 1 }
  persist s .running
  return s

/-- Go back to `target` with fresh attempts. -/
def reviseTo (s : WorkflowState) (target : String) (index : Nat) : WorkflowState :=
  { s with currentStepIndex := index }.popIterations (attemptsKey target)

def clearNotes (s : WorkflowState) : WorkflowState :=
  { s with
    lastEvaluationFeedback := none
    lastRetryReason := none
    lastRevisionContext := none }

/-- How an exhausted step was handled. -/
inductive Exhausted where
  | skipped
  | continued
  | cancelled
  | revised
  deriving DecidableEq

def followExhausted : WorkflowState × Except Raised Action →
    Prog (WorkflowState × Except Raised (Option Exhausted))
  | (s, .error raised) => return (s, .error raised)
  | (s, .ok .«continue») => do
    let s := { clearNotes s with currentStepIndex := s.currentStepIndex + 1 }
    persist s .running
    return (s, .ok (some .continued))
  | (s, .ok .cancel) => do
    let s := { s with
      status := .cancelled
      lastOperatorInstruction := none
      currentStepIndex := workflow.steps.length }
    persist s .running
    return (s, .ok (some .cancelled))
  | (s, .ok (.revise target)) =>
    match workflow.findStepIndex target with
    | none => return (s, .ok none)
    | some index => do
      let s := reviseTo s target index
      persist s .running
      return (s, .ok (some .revised))
  | (s, .ok _) => return (s, .ok none)

def handleExhausted (step : StepDefinition) (s : WorkflowState) (action : OnExhausted)
    (lastError : Option String) : Prog (WorkflowState × Except Raised (Option Exhausted)) := do
  match action with
  | .«continue» => return (← skipExhausted step s, .ok (some .skipped))
  | .fail => return (s, .ok none)
  | .gate =>
    if workflow.interaction = .none then
      return (s, .ok none)
    else
      let decision ← handleGateStep host workflow (exhaustedGateName step.name)
        (some (buildExhaustionGate step lastError)) s
      followExhausted workflow decision

inductive Handled where
  | unhandled
  | looped
  | retried
  | deferred
  | exhausted (how : Exhausted)
  deriving DecidableEq

def Handled.ofExhausted : Option Exhausted → Handled
  | none => .unhandled
  | some how => .exhausted how

def handleReviewLoop (step : StepDefinition) (onReject : OnRejectConfig) (s : WorkflowState) :
    Prog (WorkflowState × Except Raised Handled) := do
  let key := reviewLoopKey onReject.target step.name
  let current := s.iterations key 0
  if onReject.maxLoopIterations ≤ current then
    let (s, result) ←
      handleExhausted host workflow step s onReject.onExhausted s.lastEvaluationFeedback
    return (s, result.map Handled.ofExhausted)
  else
    let s := s.setIterations key (current + 1)
    match workflow.findStepIndex onReject.target with
    | none => return (s, .ok .unhandled)
    | some index =>
      let s := reviseTo s onReject.target index
      persist s .running
      return (s, .ok .looped)

def sessionTransientMaxAttempts : Nat := 120

def deferStepRecovery (step : StepDefinition) (s : WorkflowState) (failure : StepOutput) :
    Prog (WorkflowState × Except Raised Handled) := do
  let attempts := s.iterations (recoveryKey step.name) 0 + 1
  let s := { s.setIterations (recoveryKey step.name) attempts with
    lastRetryReason := some .executionFailed
    lastEvaluationFeedback := failure.error }
  if sessionTransientMaxAttempts ≤ attempts then
    let (s, result) ←
      handleExhausted host workflow step (s.popIterations (recoveryKey step.name)) .gate
        failure.error
    return (s, result.map Handled.ofExhausted)
  else
    let s := { s with currentStepStatus := none }
    persist s .ready
    return (s, .ok .deferred)

/-- `_record_evaluation_feedback`: the state keeps the feedback the session could not take. -/
def recordEvaluationFeedback (step : StepDefinition) (s : WorkflowState)
    (evaluation : StepEvaluation) : Prog WorkflowState := do
  if ← recordFeedback step.name then
    return { s with lastEvaluationFeedback := none }
  else
    return { s with
      lastEvaluationFeedback := some evaluation.feedbackText }

/-- The attempt counter of `_handle_step_retry`. -/
def retryStep (step : StepDefinition) (s : WorkflowState) (evaluation : Option StepEvaluation) :
    Prog (WorkflowState × Except Raised Handled) := do
  let maxAttempts := ((workflow.resolveCompletion step).map CompletionConfig.maxAttempts).getD 3
  let current := s.iterations (attemptsKey step.name) 1
  if maxAttempts ≤ current then
    let error := match evaluation with
      | some evaluation => some evaluation.feedbackText
      | none => s.lastEvaluationFeedback
    let (s, result) ← handleExhausted host workflow step s (workflow.getOnExhausted step) error
    return (s, result.map Handled.ofExhausted)
  else
    let s ← match evaluation with
      | some evaluation => recordEvaluationFeedback step s evaluation
      | none => pure s
    let s := { s with
      lastRetryReason :=
        some (if evaluation.isSome then .evaluationRejected else .executionFailed) }
    let s := s.setIterations (attemptsKey step.name) (current + 1)
    persist s .running
    return (s, .ok .retried)

def handleStepRetry (step : StepDefinition) (s : WorkflowState)
    (evaluation : Option StepEvaluation) (failure : Option StepOutput) :
    Prog (WorkflowState × Except Raised Handled) := do
  match failure with
  | none => retryStep host workflow step s evaluation
  | some failure =>
    let s := { s with
      lastRetryReason := some .executionFailed
      lastEvaluationFeedback := failure.error }
    if host.transientFailure failure then
      deferStepRecovery host workflow step s failure
    else if host.modelError failure then
      let (s, result) ← handleExhausted host workflow step s .gate failure.error
      return (s, result.map Handled.ofExhausted)
    else retryStep host workflow step s evaluation

inductive Routed where
  | «continue»
  | routed
  | exhausted (how : Exhausted)
  | failed
  | cancelled
  deriving DecidableEq

def reviseOutcome (step : StepDefinition) (output : StepOutput) (s : WorkflowState)
    (target : String) : Prog (WorkflowState × Except Raised Routed) := do
  match workflow.findStepIndex target with
  | none => return (s, .ok .failed)
  | some index =>
    let s := { reviseTo s target index with
      lastEvaluationFeedback := output.outcome.bind StepOutcome.reason
      lastRevisionContext := some (buildRevisionContext step output) }
    persist s .running
    return (s, .ok .routed)

def followOutcomeGate (step : StepDefinition) (output : StepOutput) :
    WorkflowState × Except Raised Action → Prog (WorkflowState × Except Raised Routed)
  | (s, .error raised) => return (s, .error raised)
  | (s, .ok .«continue») => do
    let s := { clearNotes s with currentStepIndex := s.currentStepIndex + 1 }
    persist s .running
    return (s, .ok .routed)
  | (s, .ok .cancel) => return (s, .ok .cancelled)
  | (s, .ok (.revise target)) => reviseOutcome workflow step output s target
  | (s, .ok _) => return (s, .ok .failed)

def handleOutcomeGate (step : StepDefinition) (output : StepOutput) (s : WorkflowState) :
    Prog (WorkflowState × Except Raised Routed) := do
  if s.pendingGate = none ∧ workflow.interaction = .none then
    return (s, .ok .failed)
  else
    let decision ← handleGateStep host workflow (outcomeGateName step.name)
      (some (buildOutcomeGate step (output.outcome.bind StepOutcome.reason))) s
    followOutcomeGate workflow step output decision

def handleOutcomeRevise (step : StepDefinition) (output : StepOutput) (s : WorkflowState)
    (route : OutcomeRoute) (target : String) : Prog (WorkflowState × Except Raised Routed) := do
  match route.maxLoopIterations with
  | none => reviseOutcome workflow step output s target
  | some maximum =>
    let key := outcomeLoopKey step.name target
    let current := s.iterations key 0
    if maximum ≤ current then
      match ← handleExhausted host workflow step s route.onExhausted
          (output.outcome.bind StepOutcome.reason) with
      | (s, .error raised) => return (s, .error raised)
      | (s, .ok none) => return (s, .ok .failed)
      | (s, .ok (some how)) => return (s, .ok (.exhausted how))
    else reviseOutcome workflow step output (s.setIterations key (current + 1)) target

def handleStepOutcome (step : StepDefinition) (output : StepOutput) (s : WorkflowState) :
    Prog (WorkflowState × Except Raised Routed) := do
  let status := (output.outcome.map StepOutcome.status).getD .success
  match step.resolveOutcomeRoute status with
  | none => return ({ clearNotes s with lastOperatorInstruction := none }, .ok .«continue»)
  | some route =>
    match route.action with
    | .«continue» =>
      return ({ clearNotes s with lastOperatorInstruction := none }, .ok .«continue»)
    | .fail | .other _ => return (s, .ok .failed)
    | .cancel => return (s, .ok .cancelled)
    | .gate => handleOutcomeGate host workflow step output s
    | .revise target => handleOutcomeRevise host workflow step output s route target

inductive ErrorGate where
  | «continue» | cancel | fail | paused
  deriving DecidableEq

def followErrorGate : WorkflowState × Except Raised Action →
    WorkflowState × Except Raised ErrorGate
  | (s, .error raised) => (s, .error raised)
  | (s, .ok .«continue») => (s, .ok .«continue»)
  | (s, .ok .cancel) => (s, .ok .cancel)
  | (s, .ok .fail) => (s, .ok .fail)
  | (s, .ok _) => (s, .ok .paused)

def pauseForDeterministicError (step : StepDefinition) (s : WorkflowState) (error : String) :
    Prog (WorkflowState × Except Raised ErrorGate) := do
  if s.pendingGate = none ∧ workflow.interaction = .none then
    return (s, .ok .fail)
  else
    let decision ← handleGateStep host workflow (errorGateName step.name)
      (some (buildErrorGate step error)) s
    return followErrorGate decision

end Cognis.WorkflowEngine
