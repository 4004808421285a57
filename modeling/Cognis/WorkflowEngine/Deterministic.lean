import Cognis.Library.PythonText
import Cognis.WorkflowEngine.State

namespace Cognis.WorkflowEngine

def persist (state : WorkflowState) (task : TaskStatus) : Prog Unit :=
  Program.perform (ρ := Reply) (Op.persist state task)

def commit (writes : List Write) : Prog Unit := Program.perform (ρ := Reply) (Op.commit writes)

def latest (name : String) : Prog (Option StepRun) :=
  Program.perform (ρ := Reply) (Op.latestStepRun name)

def newStepRunId : Prog Nat := Program.perform (ρ := Reply) Op.newStepRunId

def toolDefinition (tool : String) : Prog ToolLookup :=
  Program.perform (ρ := Reply) (Op.toolDefinition tool)

def dispatch (call : ToolCall) : Prog ToolReply := Program.perform (ρ := Reply) (Op.dispatch call)

/-- `text[:n]`. -/
def clip (n : Nat) (text : String) : String := String.ofList (text.toList.take n)

/-- `" ".join(text.split())`. -/
def joinWords (text : String) : String :=
  " ".intercalate ((PythonText.split text.toList).map String.ofList)

def isBlank (text : String) : Bool := text.toList.all PythonText.isSpace

structure RenderContext where
  step : String
  stepOutputs : OrderedMap String StepOutput
  result : Option ToolResult := none

structure Host where
  renderExpression : String → RenderContext → Except String Bool
  renderText : String → RenderContext → Except String String
  renderNative : JsonValue → RenderContext → Except String JsonValue
  metadataFits : JsonValue.Members → Bool
  defaultToolOutputs : ToolResult → JsonValue
  callIdentity : (step : String) → (stepRunId : Nat) → String
  gateCondition : String → OrderedMap String StepOutput → Except String Bool
  formatContext : List (String × StepOutput) → String
  transientFailure : StepOutput → Bool
  modelError : StepOutput → Bool
  evaluatorMalfunction : StepEvaluation → Bool

def ErrorAction.text : ErrorAction → String
  | .fail => "fail"
  | .«continue» => "continue"
  | .skip => "skip"
  | .gate => "gate"

def OnExhausted.errorAction : OnExhausted → ErrorAction
  | .«continue» => .«continue»
  | .fail => .fail
  | .gate => .gate

def CompletionStatus.text : CompletionStatus → String
  | .completed => "completed"
  | .failed => "failed"

/-- `_DeterministicStepResult`. -/
structure DeterministicResult where
  output : StepOutput
  stepRunStatus : StepRunStatus
  nextStepIndex : Option Nat
  workflowStatus : Option CompletionStatus
  errorAction : Option ErrorAction
  routeLoop : Option RouteLoop
  revisionContext : Option String
  deriving DecidableEq

/-- How an execution ends before it is recorded; `info` holds what it has noted so far. -/
inductive Ending where
  | finalize (info : RuntimeInfo) (output : StepOutput) (status : StepRunStatus)
      (next : Option Nat) (workflowStatus : Option CompletionStatus)
  | fail (info : RuntimeInfo) (error : String) (output : Option StepOutput)
      (actionOverride : Option ErrorAction)

def Ending.info : Ending → RuntimeInfo
  | .finalize info _ _ _ _ => info
  | .fail info _ _ _ => info

variable (host : Host) (workflow : Workflow)

variable (step : StepDefinition) (config : ConditionStepConfig) (s : WorkflowState) (id : Nat)
  (info : RuntimeInfo)

def renderContext : RenderContext :=
  { step := step.name, stepOutputs := s.stepOutputs }

def renderMembers (value : JsonValue) (context : RenderContext) :
    Except String JsonValue.Members := do
  match ← host.renderNative value context with
  | .obj members => return members
  | _ => throw "workflow render must yield an object"

def normalizeDeterministicOutput (config : DeterministicOutputConfig) (context : RenderContext)
    (typeName : String) : Except String StepOutput := do
  let rendered ← renderMembers host config.metadata context
  let metadata := JsonValue.update rendered
    [("deterministic_step", .bool true), ("step_type", .str typeName)]
  if !host.metadataFits metadata then
    throw "workflow output metadata exceeds size limit"
  let summary ← host.renderText config.summary context
  let content ← match config.content with
    | none => pure ""
    | some content => host.renderText content context
  let outputs ← host.renderNative config.outputs context
  if isBlank summary then
    throw "summary must not be empty"
  return { summary, content, outputs, metadata }

def buildRevisionContext (output : StepOutput) : String :=
  let outcome := match output.outcome with
    | none => ""
    | some outcome =>
      let status := match outcome.status with
        | .success => "success"
        | .rejected => "rejected"
        | .failed => "failed"
      let reason := match outcome.reason with
        | none => ""
        | some reason => if reason = "" then "" else "\nReason: " ++ reason
      "\n\nOutcome: " ++ status ++ reason
  let summary := if output.summary = "" then "" else "\n\nSummary:\n" ++ output.summary
  let details :=
    if output.content ≠ "" then "\n\nReviewer Output:\n" ++ output.content
    else if output.claims ≠ [] then
      "\n\nReviewer Claims:\n" ++ "\n".intercalate (output.claims.map ("- " ++ ·))
    else ""
  "The previous step `" ++ step.name ++ "` completed successfully but requested revisions." ++
    outcome ++ summary ++ details

def explicitNextIndex (target : Option String) (fallback : Nat) : Except String Nat :=
  match target with
  | none => .ok fallback
  | some name =>
    match workflow.findStepIndex name with
    | none => .error ("unknown deterministic routing target " ++ name)
    | some index => .ok index

def finalizeDeterministicStep (output : StepOutput)
    (status : StepRunStatus) (next : Option Nat) (workflowStatus : Option CompletionStatus)
    (errorAction : Option ErrorAction) : Prog DeterministicResult := do
  let effectiveNext := next.or info.nextStepIndex
  let info := { info with
    deterministicSubstate := some .persisted
    terminalStatus := some status
    nextStepIndex := effectiveNext
    workflowStatus
    errorAction }
  commit [.update id { output := some (some output), runtimeInfo := some info }]
  commit [.update id { status := some status }]
  return { output, stepRunStatus := status, nextStepIndex := effectiveNext, workflowStatus,
           errorAction, routeLoop := info.routeLoop, revisionContext := info.revisionContext }

def boundedError (error : String) : String :=
  let text := clip 1000 (joinWords error)
  if text = "" then "Deterministic step failed." else text

def failureOutput (action : ErrorAction) (error : String)
    (output : Option StepOutput) : StepOutput :=
  let output := output.getD
    { summary := "Deterministic step '" ++ step.name ++ "' failed."
      metadata := [("deterministic_step", .bool true), ("step_type", .str step.typeName),
        ("error_action", .str action.text)]
      error := some (boundedError error) }
  { output with
    metadata := JsonValue.update output.metadata
      [("error_action", .str action.text), ("skipped", .bool (action = .skip)),
       ("skip_reason", if action = .skip then .str "on_error" else .null)] }

def failDeterministicStep (error : String)
    (output : Option StepOutput) (actionOverride : Option ErrorAction) :
    Prog DeterministicResult :=
  let action := (actionOverride.or step.control.onError).getD .fail
  finalizeDeterministicStep id { info with errorAction := some action }
    (failureOutput step action error output)
    (if action = .skip then .skipped else .failed) none none (some action)

def settle : Ending → Prog DeterministicResult
  | .finalize info output status next workflowStatus =>
    finalizeDeterministicStep id info output status next workflowStatus none
  | .fail info error output actionOverride =>
    failDeterministicStep step id info error output actionOverride

/-- The end of a step whose `when` is false. -/
def skipEnding (context : RenderContext) : Ending :=
  let config := step.control.onSkip.getD
    { summary := "Skipped deterministic step '" ++ step.name ++ "'."
      metadata := .obj [("skipped", .bool true), ("skip_reason", .str "when_false")] }
  match normalizeDeterministicOutput host config context step.typeName with
  | .error error => .fail info error none none
  | .ok output =>
    let output := { output with
      metadata := JsonValue.update output.metadata
        [("skipped", .bool true), ("skip_reason", .str "when_false")] }
    match explicitNextIndex workflow step.next (s.currentStepIndex + 1) with
    | .error error => .fail info error none none
    | .ok next => .finalize info output .skipped (some next) none

def conditionLoop (target : Option String) (next : Nat) : Ending ⊕ RuntimeInfo :=
  match target, config.maxLoopIterations with
  | some target, some maximum =>
    if next ≤ s.currentStepIndex then
      let key := conditionLoopKey step.name target
      let current := s.iterations key 0
      if maximum ≤ current then
        .inl (.fail { info with
            selectedTarget := some target
            conditionExhausted := true
            nextStepIndex := some (s.currentStepIndex + 1) }
          ("Condition route '" ++ step.name ++ "' exhausted after " ++ toString current ++
            " backward iterations.")
          none (some config.onExhausted.errorAction))
      else
        .inr { info with
          routeLoop := some { step := step.name, target, iterations := current + 1 } }
    else .inr info
  | _, _ => .inr info

def conditionRevision (target : Option String) (next : Nat) : Except String RuntimeInfo :=
  match target, config.revisionSource with
  | some _, some source =>
    if next ≤ s.currentStepIndex then
      match workflow.findStepIndex source, s.stepOutputs.get? source with
      | some index, some output =>
        match workflow.steps[index]? with
        | some step => .ok { info with revisionContext := some (buildRevisionContext step output) }
        | none => .ok info
      | _, _ => .error ("condition revision_source " ++ source ++ " has no completed output")
    else .ok info
  | _, _ => .ok info

def conditionEnding (context : RenderContext) : Ending :=
  match host.renderExpression config.if_ context with
  | .error error => .fail info error none none
  | .ok selected =>
    let target := if selected then config.then_ else config.else_
    match explicitNextIndex workflow target (s.currentStepIndex + 1) with
    | .error error => .fail info error none none
    | .ok next =>
      match conditionLoop step config s info target next with
      | .inl ending => ending
      | .inr info =>
        match conditionRevision workflow config s info target next with
        | .error error => .fail info error none none
        | .ok info =>
          let branch := if selected then "then" else "else"
          let outputConfig := config.output.getD { summary :=
                "Condition '" ++ step.name ++ "' selected the " ++ branch ++ " branch." }
          match normalizeDeterministicOutput host outputConfig context step.typeName with
          | .error error => .fail info error none none
          | .ok output =>
            let output := { output with
              metadata := JsonValue.update output.metadata
                [("condition_result", .bool selected), ("selected_branch", .str branch),
                 ("selected_target", (target.map JsonValue.str).getD .null)] }
            .finalize { info with selectedTarget := target, nextStepIndex := some next }
              output .approved (some next) none

def completeEnding (config : CompleteStepConfig) (info : RuntimeInfo)
    (context : RenderContext) : Ending :=
  let rendered : Except String StepOutput := do
    let summary ← host.renderText config.summary context
    let content ← match config.content with
      | none => pure ""
      | some content => host.renderText content context
    let outputs ← host.renderNative config.outputs context
    if isBlank summary then
      throw "summary must not be empty"
    return { summary, content, outputs,
             metadata := [("deterministic_step", .bool true), ("step_type", .str step.typeName),
               ("completion_status", .str config.status.text)] }
  match rendered with
  | .error error => .fail info error none none
  | .ok output =>
    .finalize { info with workflowStatus := some config.status } output .approved none
      (some config.status)

def toolEnding (config : ToolCallStepConfig) (next : Option String)
    (s : WorkflowState) (info : RuntimeInfo) (context : RenderContext) (identity : String)
    (result : ToolResult) : Ending :=
  let context := { context with result := some result }
  let template := config.summary.getD
    ("Tool '" ++ config.tool ++ (if result.isError then "' failed." else "' completed."))
  let rendered : Except String StepOutput := do
    let outputs ← match config.outputs with
      | some outputs => host.renderNative outputs context
      | none => pure (host.defaultToolOutputs result)
    let summary ← host.renderText template context
    if isBlank summary then
      throw "summary must not be empty"
    return { summary, outputs,
             metadata := [("deterministic_step", .bool true), ("step_type", .str step.typeName),
               ("tool_name", .str config.tool), ("call_identity", .str identity),
               ("tool_error", .bool result.isError)],
             error := if result.isError then some result.output else none }
  match rendered with
  | .error error => .fail info error none none
  | .ok output =>
    match explicitNextIndex workflow next (s.currentStepIndex + 1) with
    | .error error => .fail info error none none
    | .ok index =>
      let info := { info with nextStepIndex := some index }
      if result.isError && config.failOnError then
        .fail info result.output (some output) none
      else
        .finalize info output .approved (some index) none

/-- What leaves a step without a result; an interrupted task may have been cancelled. -/
inductive Raised where
  | transient
  | interrupted (cancelled : Bool)
  | exception
  deriving DecidableEq

def executeToolCallStep (config : ToolCallStepConfig)
    (next : Option String) (s : WorkflowState) (id : Nat) (info : RuntimeInfo)
    (context : RenderContext) : Prog (Except Raised DeterministicResult) := do
  match host.renderNative config.args context with
  | .error error => Except.ok <$> settle step id (.fail info error none none)
  | .ok args =>
    match args with
    | .obj _ =>
      commit [.update id { runtimeInfo := some info }]
      match ← toolDefinition config.tool with
      | .transient => return .error .transient
      | .raised error => Except.ok <$> settle step id (.fail info error none none)
      | .found readOnly =>
        let info := { info with
          toolReadOnly := some readOnly
          deterministicSubstate := some .executing }
        if !readOnly && !config.allowSideEffects then
          Except.ok <$> settle step id (.fail info
            ("deterministic tool_call blocked because the tool is write-capable or lacks " ++
              "explicit read-only metadata; set allow_side_effects=true only for an " ++
              "intentionally authorized workflow") none none)
        else
          commit [.update id { runtimeInfo := some info }]
          let call : ToolCall := { step := step.name, tool := config.tool, readOnly, args }
          match ← dispatch call with
          | .transient => return .error .transient
          | .timeout =>
            Except.ok <$> settle step id
              (.fail info "Deterministic tool execution timed out." none none)
          | .raised error => Except.ok <$> settle step id (.fail info error none none)
          | .result result =>
            Except.ok <$> settle step id (toolEnding host workflow step config next s info context
              (host.callIdentity step.name id) result)
    | _ =>
      Except.ok <$> settle step id
        (.fail info "deterministic tool_call args must render to an object" none none)

def deterministicResultFromPersisted (status : StepRunStatus) (output : StepOutput)
    (info : RuntimeInfo) : DeterministicResult :=
  let next := match info.conditionExhausted, info.selectedTarget with
    | false, some target => workflow.findStepIndex target
    | _, _ => info.nextStepIndex
  { output, stepRunStatus := status, nextStepIndex := next, workflowStatus := info.workflowStatus,
    errorAction := info.errorAction, routeLoop := info.routeLoop,
    revisionContext := info.revisionContext }

def recoverDeterministicStep (row : StepRun) : Prog (Option DeterministicResult) := do
  let info := row.runtimeInfo
  match row.output with
  | some output =>
    if [.approved, .skipped, .failed, .paused].contains row.status then
      return some (deterministicResultFromPersisted workflow row.status output info)
    else if info.deterministicSubstate = some .persisted then
      let status := info.terminalStatus.getD .approved
      commit [.update row.stepRunId { status := some status }]
      return some (deterministicResultFromPersisted workflow status output info)
    else if info.deterministicSubstate = some .executing ∧ info.toolReadOnly ≠ some true then
      some <$> failDeterministicStep step row.stepRunId info
        ("Deterministic tool dispatch outcome is ambiguous after restart; the " ++
          "side-effecting or unknown tool was not replayed.") none none
    else return none
  | none =>
    if info.deterministicSubstate = some .executing ∧ info.toolReadOnly ≠ some true then
      some <$> failDeterministicStep step row.stepRunId info
        ("Deterministic tool dispatch outcome is ambiguous after restart; the " ++
          "side-effecting or unknown tool was not replayed.") none none
    else return none

/-- The part of `_execute_deterministic_step` that follows a row it may not reuse. -/
def runDeterministicStep : Prog (Except Raised DeterministicResult) := do
  let context := renderContext step s
  let body : Prog (Except Raised DeterministicResult) :=
    match step.kind with
    | .condition _ config =>
      Except.ok <$> settle step id (conditionEnding host workflow step config s info context)
    | .complete _ config =>
      Except.ok <$> settle step id (completeEnding host step config info context)
    | .toolCall _ config next =>
      executeToolCallStep host workflow step config next s id info context
    | .run _ | .gate _ => return .error .exception
  match step.control.when with
  | none => body
  | some expression =>
    match host.renderExpression expression context with
    | .error error => Except.ok <$> settle step id (.fail info error none none)
    | .ok holds =>
      commit [.update id { runtimeInfo := some info }]
      if holds then body
      else Except.ok <$> settle step id (skipEnding host workflow step s info context)

def currentRow (step : StepDefinition) (row : Option StepRun) : Option StepRun :=
  row.filter fun row => row.runtimeInfo.deterministicGeneration = some (s.generation step.name)

def executeDeterministicStep : Prog (Except Raised DeterministicResult) := do
  match currentRow s step (← latest step.name) with
  | some row =>
    match ← recoverDeterministicStep workflow step row with
    | some result => return .ok result
    | none => runDeterministicStep host workflow step s row.stepRunId row.runtimeInfo
  | none =>
    let id ← newStepRunId
    let generation := s.generation step.name
    let info : RuntimeInfo :=
      { deterministicGeneration := some generation, deterministicSubstate := some .rendering }
    commit [.create { stepRunId := id, stepName := step.name, attempt := generation + 1,
                      runtimeInfo := info },
      .update id { status := some .running, runtimeInfo := some info }]
    runDeterministicStep host workflow step s id info

def maxDeterministicJumps : Nat := 100

def routeOver (reason : String) (s : WorkflowState) (step : StepDefinition) : WorkflowState :=
  { s with
    routingSkips := s.routingSkips.set step.name (clip 500 reason)
    stepOutputs := s.stepOutputs.erase step.name }

def routeAgain (step : StepDefinition) : WorkflowState :=
  { s with
    routingSkips := s.routingSkips.erase step.name
    stepOutputs := s.stepOutputs.erase step.name
    loopIterations := s.loopIterations.set (generationKey step.name) (s.generation step.name + 1) }

def announceRevision (target : Nat) : WorkflowState :=
  let s := { s with lastRetryReason := some .routedRevision }
  match workflow.steps[target]? with
  | none => s
  | some step =>
    s.setIterations (attemptsKey step.name) (max (s.iterations (attemptsKey step.name) 1) 1 + 1)

/-- `_apply_deterministic_route`; an error carries the state in which the jump
limit was found exceeded. -/
def applyDeterministicRoute (source target : Nat) (reason : String) :
    Except WorkflowState WorkflowState :=
  if target = source + 1 then .ok s
  else
    let jumps := s.iterations jumpsKey 0 + 1
    let s := s.setIterations jumpsKey jumps
    if maxDeterministicJumps < jumps then .error s
    else if source < target then
      .ok (((workflow.steps.take target).drop (source + 1)).foldl (routeOver reason) s)
    else
      .ok (((workflow.steps.take (source + 1)).drop target).foldl routeAgain
        (announceRevision workflow s target))

def deterministicRouteReason (output : StepOutput) : String :=
  match JsonValue.get? output.metadata "selected_branch" with
  | some (.str branch) => clip 500 ("condition:" ++ step.name ++ ":" ++ branch)
  | _ =>
    if JsonValue.get? output.metadata "skipped" = some (.bool true) then
      clip 500 ("when:" ++ step.name ++ ":false")
    else clip 500 ("next:" ++ step.name)

end Cognis.WorkflowEngine
