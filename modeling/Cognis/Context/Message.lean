import Mathlib.Data.List.Sort
import Cognis.Library.JsonValue
import Cognis.ToolOutput.Recovery

namespace Cognis.Context

open PythonText

/-- The text functions of Python and of the JSON codec that the projection uses:
`json.dumps`, `json.loads`, `repr` of a string, and a digest's first characters. -/
structure Codec where
  dumps : JsonValue → String
  loads : String → Option JsonValue
  repr : String → String
  digest : String → String

inductive Role where
  | system
  | user
  | assistant
  | tool
  | other (name : String)
  deriving DecidableEq

structure ToolFunction where
  arguments : Option JsonValue
  name : Option String := none
  deriving DecidableEq

/-- An entry of `tool_calls`: a dict, or anything else. -/
inductive ToolCall where
  | call (id callId : Option String) (function : Option ToolFunction)
  | other (value : JsonValue)
  deriving DecidableEq

/-- `_tool_output_presentation`. -/
structure Presentation where
  anchors : List String := []
  lazyArtifactRefs : List String := []
  deriving DecidableEq

structure Message where
  role : Role
  content : JsonValue := .null
  toolCalls : Option (List ToolCall) := none
  toolCallId : Option String := none
  /-- `_tool_call_id`, the call of an attachment context. -/
  attachmentCallId : Option String := none
  toolAttachmentContext : Bool := false
  delegationResultReplay : Bool := false
  recoveryCallId : Option String := none
  sourceCallId : Option String := none
  sourceSessionId : Option String := none
  toolName : Option String := none
  outputSize : Option Nat := none
  agentVisibleTruncated : Bool := false
  producerTruncated : Bool := false
  anchorsAvailable : Bool := false
  anchorCount : Option Int := none
  anchorNames : Option (List String) := none
  presentation : Option Presentation := none
  protectedToolOutput : Bool := false
  projectedCompacted : Bool := false
  compactResultRenderingVersion : Option Nat := none
  turnBoundary : Bool := false
  projectionEventSeqs : List Int := []
  tokenEstimate : Option Nat := none
  deriving DecidableEq

section

/-- `bool(text.strip())`. -/
def notBlank (text : String) : Bool := text.toList.any (!isSpace ·)

/-- `a or b` of two strings. -/
def orElse (a b : Option String) : Option String := if a.any (· ≠ "") then a else b

def maxPresentedAnchors : Nat := 32

def safeAnchorName (value : String) : Option String :=
  let name := ToolOutput.anchorName value.toList
  if name = [] then none else some (String.ofList name)

def safeAnchorNames (values : List String) : List String :=
  values.foldl (fun names value =>
    if maxPresentedAnchors ≤ names.length then names
    else
      match safeAnchorName value with
      | none => names
      | some name => if names.contains name then names else names ++ [name]) []

def lazyArtifactRefs (callId : String) (anchors : List String) : List String :=
  if notBlank callId then
    (safeAnchorNames anchors).map fun name => "tool_artifact:" ++ callId ++ ":" ++ name
  else []

def buildRecoveryHint (k : Codec) (callId : String) (anchorsAvailable : Bool)
    (anchorCount : Option Int) (anchorNames : List String) (legacy : Bool) : String :=
  ToolOutput.formatRecoveryHint k.repr callId (safeAnchorNames anchorNames)
    (anchorsAvailable && anchorCount.any (0 < ·)) legacy

end

section

variable (k : Codec) (m : Message)

def compactResultRenderingPolicyVersion : Nat := 2

def Message.hasRecoveryHandle : Bool := m.recoveryCallId.any notBlank

def Message.presentedAnchors : List String :=
  (m.anchorNames.getD ((m.presentation.map (·.anchors)).getD [])).filter notBlank

def buildCompactedToolResultPlaceholder (renderingPolicyVersion : Nat) : String :=
  let toolName := (orElse m.toolName (some "tool")).getD "tool"
  let recovery := m.recoveryCallId.filter notBlank
  let original := (orElse m.toolCallId (some "unknown")).getD "unknown"
  let sizeNote :=
    match m.outputSize with
    | some size =>
      if 0 < size then
        " " ++ (if m.agentVisibleTruncated then "Raw output size" else "Original output size") ++
          ": " ++ String.ofList (formatThousands size) ++ " chars."
      else ""
    | none => ""
  let sourceNote :=
    match m.sourceCallId.filter notBlank with
    | some source =>
      if source ≠ original ∧ some source ≠ recovery then
        " This helper output was derived from source call_id '" ++ source ++ "'."
      else ""
    | none => ""
  match recovery with
  | none =>
    let producerNote :=
      if m.producerTruncated then
        " Producer returned a truncated preview; this call_id is diagnostic only " ++
          "because no controller recovery handle is available."
      else ""
    "[Tool output omitted from prompt. " ++ "Tool: " ++ toolName ++ ". Original call_id: " ++
      original ++ "." ++ sizeNote ++ sourceNote ++ " No saved output handle is available." ++
      producerNote ++ "]"
  | some callId =>
    let anchors := m.presentedAnchors
    let hint := buildRecoveryHint k callId m.anchorsAvailable m.anchorCount anchors
      (renderingPolicyVersion = 1)
    let refs := ((m.presentation.map (·.lazyArtifactRefs)).getD []).filter fun ref =>
      notBlank ref && (lazyArtifactRefs callId anchors).contains ref
    let lazyNote :=
      if refs ≠ [] then
        " Materialize lazy artifacts with artifact_read: " ++ ", ".intercalate refs ++ "."
      else ""
    if renderingPolicyVersion = compactResultRenderingPolicyVersion then
      "[Tool output omitted from prompt. " ++ hint ++ sourceNote ++ lazyNote ++ "]"
    else
      "[Tool output omitted from prompt. " ++ "Tool: " ++ toolName ++ ". Original call_id: " ++
        original ++ "." ++ sizeNote ++ sourceNote ++ " " ++ hint ++ lazyNote ++
        " Only recover if a specific missing detail is needed.]"

def compactToolResult (renderingPolicyVersion : Nat) : Message :=
  { m with
    content := .str (buildCompactedToolResultPlaceholder k m renderingPolicyVersion)
    projectedCompacted := true
    compactResultRenderingVersion := some renderingPolicyVersion }

/-- A placeholder would at least halve the result; content that is no text counts
as such. -/
def compactionShrinksToolResult : Bool :=
  if m.projectedCompacted then false
  else
    match m.content with
    | .str text =>
      2 * (buildCompactedToolResultPlaceholder k m compactResultRenderingPolicyVersion).length ≤
        text.length
    | _ => true

def buildCompactedToolAttachmentPlaceholder : String :=
  match (orElse m.recoveryCallId m.attachmentCallId).filter notBlank with
  | some callId =>
    "[Tool attachment context cleared from view. Tool attachment context compacted from prompt. " ++
      "Use read_tool_output(call_id='" ++ callId ++ "') or the UI attachment viewer " ++
      "if the missing attachment content matters.]"
  | none =>
    "[Tool attachment context cleared from view. Tool attachment context compacted from prompt.]"

def compactToolAttachment : Message :=
  { m with
    role := .system
    content := .str (buildCompactedToolAttachmentPlaceholder m)
    projectedCompacted := true }

def delegationPlaceholder : String :=
  let handles :=
    (match m.recoveryCallId.filter (· ≠ "") with
      | some callId => ["read_tool_output(call_id=" ++ k.repr callId ++ ")"]
      | none => []) ++
    (match m.sourceSessionId.filter (· ≠ "") with
      | some sessionId => ["get_subsession(session_id=" ++ k.repr sessionId ++ ")"]
      | none => [])
  let handle := if handles ≠ [] then " or ".intercalate handles else "the original delegation event"
  "<delegation_result_compacted>\n" ++
    "Prior delegation result replay was compacted under context pressure. " ++
    "Recover the full result with " ++ handle ++ ".\n" ++ "</delegation_result_compacted>"

end

end Cognis.Context
