import Cognis.Library.JsonValue
import Cognis.Library.OrderedMap

namespace Cognis.WorkflowEngine

variable (names : List String) (step : StepDefinition) (index : Nat)

inductive InteractionMode where
  | none | explicitGates | stepRequests
  deriving DecidableEq

/-- What a step does once its attempts or its loop are exhausted. -/
inductive OnExhausted where
  | «continue» | fail | gate
  deriving DecidableEq

inductive ErrorAction where
  | fail | «continue» | skip | gate
  deriving DecidableEq

inductive CompletionStatus where
  | completed | failed
  deriving DecidableEq

inductive OutcomeStatus where
  | success | rejected | failed
  deriving DecidableEq

/-- The action text of an outcome route or of an operator's decision, as the
engine reads it: `_parse_revise_action` yields `revise`, any other text is `other`. -/
inductive Action where
  | «continue» | cancel | fail | gate
  | revise (target : String)
  | other (text : String)
  deriving DecidableEq

structure CompletionConfig where
  evaluate : Bool := true
  maxAttempts : Nat := 3
  onExhausted : OnExhausted := .gate
  deriving DecidableEq

structure OnRejectConfig where
  target : String
  maxLoopIterations : Nat := 3
  onExhausted : OnExhausted := .gate
  deriving DecidableEq

structure OutcomeRoute where
  status : OutcomeStatus
  action : Action
  maxLoopIterations : Option Nat := .none
  onExhausted : OnExhausted := .gate
  deriving DecidableEq

/-- `conditions` are expressions; the gate fires when one of them holds. -/
structure GateConfig where
  message : String
  input : List String := []
  conditions : List String := []
  deriving DecidableEq

inductive InputType where
  | null | full | summary | last
  deriving DecidableEq

inductive InputSource where
  | unset
  | one (name : String)
  | many (names : List String)
  deriving DecidableEq

structure StepInputConfig where
  type : InputType := .last
  source : InputSource := .unset
  deriving DecidableEq

def StepInputConfig.sourceNames (config : StepInputConfig) : List String :=
  match config.source with
  | .unset => []
  | .one name => [name]
  | .many names => names

structure DeterministicOutputConfig where
  summary : String
  content : Option String := .none
  outputs : JsonValue := .obj []
  metadata : JsonValue := .obj []
  deriving DecidableEq

structure ToolCallStepConfig where
  tool : String
  args : JsonValue := .obj []
  summary : Option String := .none
  outputs : Option JsonValue := .none
  failOnError : Bool := true
  allowSideEffects : Bool := false
  deriving DecidableEq

structure ConditionStepConfig where
  if_ : String
  then_ : Option String := .none
  else_ : Option String := .none
  output : Option DeterministicOutputConfig := .none
  revisionSource : Option String := .none
  maxLoopIterations : Option Nat := .none
  onExhausted : OnExhausted := .gate
  deriving DecidableEq

structure CompleteStepConfig where
  status : CompletionStatus := .completed
  summary : String
  content : Option String := .none
  outputs : JsonValue := .obj []
  deriving DecidableEq

structure RunStepConfig where
  input : Option StepInputConfig := .none
  completion : Option CompletionConfig := .none
  onReject : Option OnRejectConfig := .none
  outcomeRoutes : List OutcomeRoute := []
  requireDeliverable : Bool := true
  deriving DecidableEq

structure DeterministicControl where
  when : Option String := .none
  onSkip : Option DeterministicOutputConfig := .none
  onError : Option ErrorAction := .none
  deriving DecidableEq

/-- A step's type with the configuration `_validate_step_type_contract` asks of
it; only a tool call may name its `next` step. -/
inductive StepKind where
  | run (config : RunStepConfig)
  | gate (config : Option GateConfig)
  | toolCall (control : DeterministicControl) (config : ToolCallStepConfig)
      (next : Option String)
  | condition (control : DeterministicControl) (config : ConditionStepConfig)
  | complete (control : DeterministicControl) (config : CompleteStepConfig)
  deriving DecidableEq

structure StepDefinition where
  name : String
  kind : StepKind
  deriving DecidableEq

namespace StepDefinition

def isRun : Bool :=
  match step.kind with
  | .run _ => true
  | _ => false

def isGate : Bool :=
  match step.kind with
  | .gate _ => true
  | _ => false

def isDeterministic : Bool :=
  match step.kind with
  | .run _ | .gate _ => false
  | _ => true

variable (step : StepDefinition)

def control : DeterministicControl :=
  match step.kind with
  | .toolCall control _ _ | .condition control _ | .complete control _ => control
  | .run _ | .gate _ => {}

def next : Option String :=
  match step.kind with
  | .toolCall _ _ next => next
  | _ => .none

def input : Option StepInputConfig :=
  match step.kind with
  | .run config => config.input
  | _ => .none

def completion : Option CompletionConfig :=
  match step.kind with
  | .run config => config.completion
  | _ => .none

def onReject : Option OnRejectConfig :=
  match step.kind with
  | .run config => config.onReject
  | _ => .none

def outcomeRoutes : List OutcomeRoute :=
  match step.kind with
  | .run config => config.outcomeRoutes
  | _ => []

/-- The value of `type`, as outputs record it. -/
def typeName : String :=
  match step.kind with
  | .run _ => "run"
  | .gate _ => "gate"
  | .toolCall .. => "tool_call"
  | .condition .. => "condition"
  | .complete .. => "complete"

end StepDefinition

structure WorkflowDefaults where
  maxAttempts : Nat := 3
  evaluate : Bool := true
  onExhausted : OnExhausted := .gate
  deriving DecidableEq

/-- `interaction` is the effective mode: the task's override or the workflow's own. -/
structure Workflow where
  interaction : InteractionMode := .explicitGates
  defaults : WorkflowDefaults := {}
  steps : List StepDefinition
  deriving DecidableEq

namespace Workflow

variable (workflow : Workflow)

def findStepIndex (name : String) : Option Nat :=
  workflow.steps.findIdx? (fun step => step.name == name)

/-- The nearest run step before `index`. -/
def findPreviousRunStep (index : Nat) : Option String :=
  ((workflow.steps.take index).reverse.find? StepDefinition.isRun).map StepDefinition.name

variable (step : StepDefinition)

def resolveEffectiveInput (index : Nat) : StepInputConfig :=
  let previous (type : InputType) : StepInputConfig :=
    match workflow.findPreviousRunStep index with
    | .none => { type := .null }
    | some name => { type, source := .one name }
  match step.input with
  | .none => previous .last
  | some config =>
    if config.type ≠ .null ∧ config.source = .unset then previous config.type else config

def resolveSourceNames (index : Nat) : List String :=
  let names := (workflow.resolveEffectiveInput step index).sourceNames
  if names = ["all"] then
    ((workflow.steps.take index).filter StepDefinition.isRun).map StepDefinition.name
  else names

def resolveCompletion : Option CompletionConfig :=
  match step.completion with
  | some completion => some completion
  | .none =>
    if workflow.defaults.evaluate then
      some { maxAttempts := workflow.defaults.maxAttempts,
             onExhausted := workflow.defaults.onExhausted }
    else .none

def getOnExhausted : OnExhausted :=
  match step.completion with
  | some completion => completion.onExhausted
  | .none => workflow.defaults.onExhausted

end Workflow

/-- `_resolve_outcome_route`: an outcome no route names fails unless it is a success. -/
def StepDefinition.resolveOutcomeRoute (status : OutcomeStatus) : Option OutcomeRoute :=
  match step.outcomeRoutes.find? (fun route => route.status == status) with
  | some route => some route
  | none =>
    if status = .success then none
    else some { status, action := .fail, onExhausted := .fail }

inductive ValidationError where
  | duplicateStepName (name : String)
  | unknownInput (step ref : String)
  | unknownTarget (step target : String)
  | notEarlier (step target : String)
  | unsupportedAction (step : String)
  | missingGate (step : String)
  | selfJump (step : String)
  deriving DecidableEq

def validateEarlier (step target : String) : Except ValidationError Unit :=
  match names.findIdx? (· == target) with
  | none => .error (.unknownTarget step target)
  | some found => if found < index then .ok () else .error (.notEarlier step target)

def validateRoute (step : String) (route : OutcomeRoute) : Except ValidationError Unit :=
  match route.action with
  | .«continue» | .fail | .gate | .cancel => .ok ()
  | .revise target => validateEarlier names index step target
  | .other _ => .error (.unsupportedAction step)

/-- `[step.next]`, then a condition's two branches. -/
def StepDefinition.deterministicTargets : List String :=
  match step.kind with
  | .toolCall _ _ next => next.toList
  | .condition _ config => config.then_.toList ++ config.else_.toList
  | _ => []

def StepDefinition.revisionSource (step : StepDefinition) : Option String :=
  match step.kind with
  | .condition _ config => config.revisionSource
  | _ => none

def validateTarget (step target : String) : Except ValidationError Unit :=
  if !names.contains target then .error (.unknownTarget step target)
  else if target = step then .error (.selfJump step)
  else .ok ()

def validateStep (workflow : Workflow) (index : Nat) (step : StepDefinition) :
    Except ValidationError Unit := do
  let names := workflow.steps.map StepDefinition.name
  if (names.take index).contains step.name then
    throw (.duplicateStepName step.name)
  match (workflow.resolveSourceNames step index).find?
      (fun ref => !(names.take (index + 1)).contains ref) with
  | some ref => throw (.unknownInput step.name ref)
  | none => pure ()
  match step.onReject with
  | some onReject => validateEarlier names index step.name onReject.target
  | none => pure ()
  step.outcomeRoutes.forM (validateRoute names index step.name)
  if step.kind = .gate none then
    throw (.missingGate step.name)
  match step.revisionSource with
  | some source => validateEarlier names index step.name source
  | none => pure ()
  step.deterministicTargets.forM (validateTarget names step.name)

def validateWorkflow (workflow : Workflow) : Except ValidationError Unit :=
  workflow.steps.zipIdx.forM fun entry => validateStep workflow entry.2 entry.1

end Cognis.WorkflowEngine
