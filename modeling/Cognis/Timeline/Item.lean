import Mathlib.Data.Prod.Lex
import Mathlib.Data.String.Basic
import Cognis.Library.JsField
import Cognis.Library.OrderedMap
import Cognis.Library.SortByKey

namespace Cognis.Timeline

variable (item : TimelineItem) (items : List TimelineItem) (existing incoming : TimelineItem)
  (e : MessageTimelineItem) (sortKey : String)

section

/-- `s.split(':')`, on characters. -/
def splitColon : List Char → List (List Char)
  | [] => [[]]
  | c :: cs =>
    if c = ':' then [] :: splitColon cs
    else match splitColon cs with
      | [] => [[c]]
      | part :: rest => (c :: part) :: rest

/-- `Number(s)` of a string of digits; anything else counts as not a number here. -/
def digitsValue (cs : List Char) : Option Nat :=
  if cs.all Char.isDigit then some (cs.foldl (fun n c => n * 10 + (c.toNat - '0'.toNat)) 0)
  else none

def padStart (n width : Nat) : String :=
  let digits := (toString n).toList
  String.ofList (List.replicate (width - digits.length) '0' ++ digits)

/-- `s.startsWith(head) ? s.slice(head.length) : undefined`. -/
def stripHead (head s : String) : Option String :=
  if head.toList.isPrefixOf s.toList then some (String.ofList (s.toList.drop head.toList.length))
  else none

def sortKeyGroups : Option (List (List Char)) :=
  let parts := splitColon sortKey.toList
  if parts.map List.length = [4, 15, 6, 2, 9] ∧ parts.all (·.all Char.isDigit) then some parts
  else none

def carriedPreTurnLineagePrefix : String := "9995:"
def carriedLineagePrefix : String := "9996:"
def preTurnLineagePrefix : String := "9997:"
def activeLineagePrefix : String := "9998:"

def carriedSortKey : String :=
  match stripHead preTurnLineagePrefix sortKey with
  | some rest => carriedPreTurnLineagePrefix ++ rest
  | none => match stripHead activeLineagePrefix sortKey with
    | some rest => carriedLineagePrefix ++ rest
    | none => sortKey

example : carriedSortKey "9998:999999999999999:000001:00:000000002" =
    "9996:999999999999999:000001:00:000000002" := by decide

open SortByKey

inductive TimelineItemStatus where
  | pending | running | waiting | complete | failed | cancelled | denied | compacted | skipped
  deriving DecidableEq

inductive MessageRole where
  | user | assistant | system
  deriving DecidableEq

inductive BlockStatus where
  | running | complete | failed
  deriving DecidableEq

inductive ChatMode where
  | default | plan | build
  deriving DecidableEq

/-- Values inside a free-form record. Elements of an array and nested records are held
as their JSON text: nothing modelled here looks inside them. -/
inductive JsonValue where
  | null
  | bool (b : Bool)
  | number (n : Int)
  | string (s : String)
  | array (items : List String)
  | object (json : String)
  deriving DecidableEq

abbrev JsonRecord := OrderedMap String JsonValue

/-- An attachment or file diff reference, as its JSON text. -/
abbrev JsonRef := String

structure SourceRef where
  store : String
  sessionId : String
  seq : Int
  eventId : JsField String := .absent
  eventType : String
  deriving DecidableEq

structure ThinkingBlock where
  id : String
  title : JsField String := .absent
  content : String
  status : JsField BlockStatus := .absent
  startedAt : JsField String := .absent
  completedAt : JsField String := .absent
  durationMs : JsField Int := .absent
  deriving DecidableEq

/-- Retry and provider details of a notice are left out: they are only passed through. -/
structure MessageTimelineItem where
  role : MessageRole
  content : String
  messageId : String
  clientMessageId : JsField String := .absent
  clientTxnId : JsField String := .absent
  turnId : JsField String := .absent
  assistantPhaseIndex : JsField Int := .absent
  turnCycleIndex : JsField Int := .absent
  noticeId : JsField String := .absent
  noticeKind : JsField String := .absent
  noticeScope : JsField String := .absent
  noticeResolved : JsField Bool := .absent
  attachments : List JsonRef := []
  isPartial : Bool := false
  chatMode : JsField ChatMode := .absent
  deriving DecidableEq

structure ThinkingTimelineItem where
  messageId : JsField String := .absent
  turnId : JsField String := .absent
  assistantPhaseIndex : JsField Int := .absent
  turnCycleIndex : JsField Int := .absent
  blocks : List ThinkingBlock
  activeTitle : JsField String := .absent
  deriving DecidableEq

structure ToolCallTimelineItem where
  callId : String
  toolName : String
  displayName : JsField String := .absent
  turnId : JsField String := .absent
  assistantPhaseIndex : JsField Int := .absent
  turnCycleIndex : JsField Int := .absent
  arguments : JsField JsonRecord := .absent
  argumentsPreview : JsField String := .absent
  resultPreview : JsField String := .absent
  streamedOutput : JsField String := .absent
  isError : Bool := false
  durationMs : JsField Int := .absent
  attachments : List JsonRef := []
  fileDiffs : List JsonRef := []
  outputSize : JsField Int := .absent
  truncated : Bool := false
  hasFullOutput : Bool := false
  recoveryCallId : JsField String := .absent
  toolOutputArtifactId : JsField String := .absent
  evaluation : JsField JsonRecord := .absent
  progressPhase : JsField String := .absent
  progressInputChars : JsField Int := .absent
  progressInputLines : JsField Int := .absent
  progressComplete : JsField Bool := .absent
  managedConversation : JsField JsonRecord := .absent
  delegation : JsField JsonRecord := .absent
  deriving DecidableEq

structure HandoffTimelineItem where
  text : String
  focus : String
  sourceSessionId : String
  sourceSeq : Int
  error : JsField String := .absent
  recipientConversationId : JsField String := .absent
  deriving DecidableEq

structure CompactionTimelineItem where
  sessionId : JsField String := .absent
  previousSessionId : JsField String := .absent
  deriving DecidableEq

inductive OtherKind where
  | delegation | managedConversation | task | questionSet | authChallenge | credentialRequest
  | userInteraction | todoState | artifact | assistantDeliverable | fileDiff | recap | notice |
      error
  deriving DecidableEq

/-- The kinds the engine treats alike; their own payload is only passed through. -/
structure OtherTimelineItem where
  kind : OtherKind
  turnId : JsField String := .absent
  assistantPhaseIndex : JsField Int := .absent
  deriving DecidableEq

inductive ItemBody where
  | message (m : MessageTimelineItem)
  | thinking (t : ThinkingTimelineItem)
  | toolCall (t : ToolCallTimelineItem)
  | handoff (h : HandoffTimelineItem)
  | compaction (c : CompactionTimelineItem)
  | other (o : OtherTimelineItem)
  deriving DecidableEq

structure TimelineItem where
  id : String
  sortKey : String
  sourceRefs : List SourceRef := []
  createdAt : JsField String := .absent
  updatedAt : JsField String := .absent
  status : JsField TimelineItemStatus := .absent
  stable : Bool
  body : ItemBody
  deriving DecidableEq

abbrev ItemKey := String ×ₗ String

/-- What `compareTimelineItems` orders by. -/
def itemKey : ItemKey := toLex (item.sortKey, item.id)

def sortTimelineItems : List TimelineItem := sortBy itemKey items

def buildTimelineById : OrderedMap String TimelineItem :=
  OrderedMap.ofList (items.map (fun item => (item.id, item)))

namespace TimelineItem

def message? : Option MessageTimelineItem :=
  match item.body with
  | .message m => some m
  | _ => none

/-- `kind === 'message' && role === role`. -/
def hasRole (role : MessageRole) : Bool :=
  match item.body with
  | .message m => m.role = role
  | _ => false

def userClientId : Option String :=
  match item.body with
  | .message m => if m.role = .user then m.clientMessageId.truthy else none
  | _ => none

/-- `kind === 'message' && client_message_id === clientMessageId`. -/
def isMessageOf (clientMessageId : String) : Bool :=
  match item.body with
  | .message m => m.clientMessageId.get = some clientMessageId
  | _ => false

def isUserMessageOf (clientMessageId : String) : Bool :=
  match item.body with
  | .message m => m.role = .user && m.clientMessageId.get = some clientMessageId
  | _ => false

def isToolCall : Bool :=
  match item.body with
  | .toolCall _ => true
  | _ => false

def turnIdField : JsField String :=
  match item.body with
  | .message m => m.turnId
  | .thinking t => t.turnId
  | .toolCall t => t.turnId
  | .other o => o.turnId
  | _ => .absent

def phaseField : JsField Int :=
  match item.body with
  | .message m => m.assistantPhaseIndex
  | .thinking t => t.assistantPhaseIndex
  | .toolCall t => t.assistantPhaseIndex
  | .other o => o.assistantPhaseIndex
  | _ => .absent

end TimelineItem

def itemTurnIdOf : Option String := item.turnIdField.truthy

def canonicalUserClientMessageIds : List String :=
  items.filterMap TimelineItem.userClientId

def isTerminalStatus : Option TimelineItemStatus → Bool
  | some .complete | some .failed | some .cancelled | some .denied => true
  | _ => false

def isTransientRuntimeNotice : Bool :=
  match item.body with
  | .message m => m.role = .system && (m.noticeScope.get = some "transient_retry"
      || (m.noticeKind.get = some "model_recovery" && m.noticeScope.get = some "retry"))
  | _ => false

def isIncompleteApplyPatchPreparation : Bool :=
  match item.body with
  | .toolCall t => t.toolName = "apply_patch" && t.progressPhase.get = some "preparing_input"
      && t.progressComplete.get ≠ some true && t.arguments.get = none
      && t.argumentsPreview.truthy = none && t.resultPreview.truthy = none
      && t.streamedOutput.truthy = none && t.fileDiffs.isEmpty
  | _ => false

end

open SortByKey

def JsonValue.nonNull : JsonValue → Option JsonValue
  | .null => none
  | v => some v

def recordGet (r : JsonRecord) (key : String) : Option JsonValue :=
  (r.get? key).bind JsonValue.nonNull

def recordSpread (existing incoming : JsonRecord) : JsonRecord :=
  incoming.entries.foldl (fun r p => r.set p.1 p.2) existing

def delegationCoalescedKeys : List String :=
  ["child_session_id", "agent_id", "used_agent_id", "title", "summary", "started_at",
    "duration_ms", "result_summary", "result_content", "result_source", "result_truncated",
    "result_anchors", "tool_call_count", "max_tool_calls", "last_tool", "error"]

def delegationTerminalStatuses : List String :=
  ["completed", "complete", "failed", "cancelled", "canceled"]

def mergeDelegationRecord (existing incoming : JsonRecord) : JsonRecord :=
  let incomingTerminal := match incoming.get? "status" with
    | some (.string s) => delegationTerminalStatuses.contains s
    | _ => false
  let existingTodos := (existing.get? "todos").getD .null
  let todos := match incoming.get? "todos" with
    | some (.array items) =>
      if !items.isEmpty || incomingTerminal then .array items else existingTodos
    | _ => existingTodos
  let merged := delegationCoalescedKeys.foldl (fun r key =>
    r.set key (((recordGet incoming key).or (recordGet existing key)).getD .null))
    (recordSpread existing incoming)
  merged.set "todos" todos

def mergeDelegationRuntime (existing incoming : JsField JsonRecord) : JsField JsonRecord :=
  match incoming.get, existing.get with
  | none, e => .ofOption e
  | some i, none => .value i
  | some i, some e => .value (mergeDelegationRecord e i)

def mergeBlock (existing : Option ThinkingBlock) (block : ThinkingBlock) : ThinkingBlock :=
  match existing with
  | none => block
  | some e => { block with
      title := e.title.spread block.title
      status := e.status.spread block.status
      startedAt := e.startedAt.spread block.startedAt
      completedAt := e.completedAt.spread block.completedAt
      durationMs := e.durationMs.spread block.durationMs }

def mergeBlocks (existing incoming : List ThinkingBlock) : List ThinkingBlock :=
  (incoming.foldl (fun byId block => byId.set block.id (mergeBlock (byId.get? block.id) block))
    (OrderedMap.ofList (existing.map (fun block => (block.id, block))))).values

def mergeToolCall (incomingTerminal : Bool) (e i : ToolCallTimelineItem) :
    ToolCallTimelineItem where
  callId := i.callId
  toolName := if i.toolName = "tool" && e.toolName ≠ "tool" then e.toolName else i.toolName
  displayName := i.displayName.coalesce e.displayName
  turnId := i.turnId.coalesce e.turnId
  assistantPhaseIndex := i.assistantPhaseIndex.coalesce e.assistantPhaseIndex
  turnCycleIndex := i.turnCycleIndex.coalesce e.turnCycleIndex
  arguments := i.arguments.coalesce e.arguments
  argumentsPreview := i.argumentsPreview.coalesce e.argumentsPreview
  resultPreview := i.resultPreview.coalesce e.resultPreview
  streamedOutput := i.streamedOutput.coalesce e.streamedOutput
  isError := if incomingTerminal then i.isError else e.isError
  durationMs := i.durationMs.coalesce e.durationMs
  attachments := if i.attachments.isEmpty then e.attachments else i.attachments
  fileDiffs := if i.fileDiffs.isEmpty then e.fileDiffs else i.fileDiffs
  outputSize := i.outputSize.coalesce e.outputSize
  truncated := i.truncated || e.truncated
  hasFullOutput := i.hasFullOutput || e.hasFullOutput
  recoveryCallId := i.recoveryCallId.coalesce e.recoveryCallId
  toolOutputArtifactId := i.toolOutputArtifactId.coalesce e.toolOutputArtifactId
  evaluation := i.evaluation.coalesce e.evaluation
  progressPhase := i.progressPhase.coalesce e.progressPhase
  progressInputChars := i.progressInputChars.coalesce e.progressInputChars
  progressInputLines := i.progressInputLines.coalesce e.progressInputLines
  progressComplete := i.progressComplete.coalesce e.progressComplete
  managedConversation := i.managedConversation.coalesce e.managedConversation
  delegation := mergeDelegationRuntime e.delegation i.delegation

def mergeThinking (e i : ThinkingTimelineItem) : ThinkingTimelineItem where
  messageId := e.messageId.spread i.messageId
  turnId := e.turnId.spread i.turnId
  assistantPhaseIndex := e.assistantPhaseIndex.spread i.assistantPhaseIndex
  turnCycleIndex := i.turnCycleIndex.coalesce e.turnCycleIndex
  blocks := mergeBlocks e.blocks i.blocks
  activeTitle := e.activeTitle.spread i.activeTitle

def mergeMessage (i : MessageTimelineItem) : MessageTimelineItem where
  role := i.role
  content := i.content
  messageId := i.messageId
  clientMessageId := e.clientMessageId.spread i.clientMessageId
  clientTxnId := e.clientTxnId.spread i.clientTxnId
  turnId := e.turnId.spread i.turnId
  assistantPhaseIndex := e.assistantPhaseIndex.spread i.assistantPhaseIndex
  turnCycleIndex := i.turnCycleIndex.coalesce e.turnCycleIndex
  noticeId := e.noticeId.spread i.noticeId
  noticeKind := e.noticeKind.spread i.noticeKind
  noticeScope := e.noticeScope.spread i.noticeScope
  noticeResolved := e.noticeResolved.spread i.noticeResolved
  attachments := if i.attachments.isEmpty then e.attachments else i.attachments
  isPartial := i.isPartial
  chatMode := e.chatMode.spread i.chatMode

/-- `{ ...existing, ...incoming, sort_key }` on the shared properties. -/
def spreadBase (body : ItemBody) : TimelineItem where
  id := incoming.id
  sortKey := sortKey
  sourceRefs := incoming.sourceRefs
  createdAt := existing.createdAt.spread incoming.createdAt
  updatedAt := existing.updatedAt.spread incoming.updatedAt
  status := existing.status.spread incoming.status
  stable := incoming.stable
  body := body

def handoffRevision : Int :=
  (item.sourceRefs.map (·.seq)).foldl max 0

def sourceRefKey (ref : SourceRef) : String :=
  ref.store ++ ":" ++ ref.sessionId ++ ":" ++ toString ref.seq ++ ":" ++ ref.eventType

def mergeHandoff (e i : HandoffTimelineItem) (sortKey : String) : TimelineItem :=
  let incomingNewer := handoffRevision existing ≤ handoffRevision incoming
  let older := if incomingNewer then existing else incoming
  let newer := if incomingNewer then incoming else existing
  let o := if incomingNewer then e else i
  let n := if incomingNewer then i else e
  let olderIsTerminal := older.status.get ≠ some .running
  let terminalStatus := if olderIsTerminal then older.status else newer.status
  let terminalError := if olderIsTerminal then o.error else n.error
  let newerRuns := newer.status.get = some .running
  let sourceRefs := (OrderedMap.ofList ((existing.sourceRefs ++ incoming.sourceRefs).map
    (fun ref => (sourceRefKey ref, ref)))).values
  { spreadBase older newer sortKey (.handoff
      { text := if n.text = "" then o.text else n.text
        focus := n.focus
        sourceSessionId := n.sourceSessionId
        sourceSeq := n.sourceSeq
        error := .ofOption (if newerRuns then terminalError else n.error).get
        recipientConversationId := n.recipientConversationId.coalesce o.recipientConversationId })
    with
    status := .ofOption (if newerRuns ∧ terminalStatus.get ≠ some .running then terminalStatus
      else newer.status).get
    sourceRefs := sortBy (·.seq) sourceRefs
    createdAt := if existing.sortKey ≤ incoming.sortKey
      then existing.createdAt.coalesce incoming.createdAt
      else incoming.createdAt.coalesce existing.createdAt }

def mergeCompaction (e i : CompactionTimelineItem) (sortKey : String) : TimelineItem :=
  if existing.status.get ≠ some .running ∧ incoming.status.get = some .running then existing
  else spreadBase existing incoming sortKey (.compaction
    ⟨e.sessionId.spread i.sessionId, e.previousSessionId.spread i.previousSessionId⟩)

def mergeToolCallItem (e i : ToolCallTimelineItem) (sortKey : String) : TimelineItem :=
  let existingTerminal := isTerminalStatus existing.status.get
  let incomingTerminal := isTerminalStatus incoming.status.get
  { spreadBase existing incoming sortKey (.toolCall (mergeToolCall incomingTerminal e i)) with
    status := .ofOption (if existingTerminal && !incomingTerminal then existing.status
      else incoming.status).get
    createdAt := existing.createdAt.coalesce incoming.createdAt }

def mergeThinkingItem (e i : ThinkingTimelineItem) (sortKey : String) : TimelineItem :=
  { spreadBase existing incoming sortKey (.thinking (mergeThinking e i)) with
    createdAt := existing.createdAt.coalesce incoming.createdAt }

def keepsHeldMessage : Bool :=
  e.noticeResolved.get = some true
    || (e.role = .assistant && existing.status.get = some .complete
      && incoming.status.get = some .running)
    || (e.role = .user && existing.status.get = some .complete
      && incoming.status.get = some .pending)

def mergeMessageItem (i : MessageTimelineItem) (sortKey : String) : TimelineItem :=
  if e.role ≠ i.role then incoming
  else if keepsHeldMessage existing incoming e then existing
  else { spreadBase existing incoming sortKey (.message (mergeMessage e i)) with
    createdAt := existing.createdAt.coalesce incoming.createdAt }

def mergeOther (e i : OtherTimelineItem) (sortKey : String) : TimelineItem :=
  if e.kind = i.kind then spreadBase existing incoming sortKey (.other
    ⟨i.kind, e.turnId.spread i.turnId, e.assistantPhaseIndex.spread i.assistantPhaseIndex⟩)
  else incoming

def mergedSortKey : String :=
  if existing.sortKey ≤ incoming.sortKey then existing.sortKey else incoming.sortKey

def mergeTimelineItem : TimelineItem :=
  let sortKey := mergedSortKey existing incoming
  match existing.body, incoming.body with
  | .handoff e, .handoff i => mergeHandoff existing incoming e i sortKey
  | .compaction e, .compaction i => mergeCompaction existing incoming e i sortKey
  | .toolCall e, .toolCall i => mergeToolCallItem existing incoming e i sortKey
  | .thinking e, .thinking i => mergeThinkingItem existing incoming e i sortKey
  | .message e, .message i => mergeMessageItem existing incoming e i sortKey
  | .other e, .other i => mergeOther existing incoming e i sortKey
  -- Different kinds: the incoming item replaces the held one.
  | _, _ => incoming

def completeBlock (block : ThinkingBlock) :
    ThinkingBlock := { block with status := .value .complete }

def terminalizeSettledItem : TimelineItem :=
  match item.body with
  | .message m =>
    if m.role = .user ∧
      m.clientMessageId.truthy.isSome then { item with status := .value .complete }
    else if m.role = .assistant ∧ (item.status.get = some .running ∨ m.isPartial) then
      { item with status := .value .complete, body := .message { m with isPartial := false } }
    else item
  | .thinking t =>
    if item.status.get = some .complete
        ∧ t.blocks.all (fun block => block.status.get = some .complete) then item
    else { item with
      status := .value .complete
      body := .thinking { t with blocks := t.blocks.map completeBlock } }
  | .toolCall _ =>
    if item.status.get = some .running ∨ item.status.get = some .pending then
      { item with status := .value .complete }
    else item
  | _ => item

end Cognis.Timeline
