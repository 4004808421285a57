import Cognis.Client.Engine

namespace Cognis.Client

open SortByKey Timeline

structure TurnProgress where
  turnId : String
  cycle : Int
  phase : Int
  deriving DecidableEq

def turnProgress (turnId : JsField String) (cycle phase : JsField Int) : Option TurnProgress :=
  match turnId.truthy, cycle.get, phase.get with
  | some t, some c, some p => if 0 ≤ c ∧ 0 ≤ p then some ⟨t, c, p⟩ else none
  | _, _, _ => none

variable (canonicalItems : List TimelineItem) (s : ChatV2ClientState) (head item : TimelineItem)

def progressOf : Option TurnProgress :=
  match item.body with
  | .toolCall t => turnProgress t.turnId t.turnCycleIndex t.assistantPhaseIndex
  | .thinking t => turnProgress t.turnId t.turnCycleIndex t.assistantPhaseIndex
  | .message m => if m.role = .assistant then
      turnProgress m.turnId m.turnCycleIndex m.assistantPhaseIndex else none
  | _ => none

def advancedBeyond (progress : TurnProgress) : Bool :=
  (canonicalItems.filterMap progressOf).any (fun witness => witness.turnId = progress.turnId
    && progress.cycle < witness.cycle && progress.phase < witness.phase)

/-- Keep live and uncertain overlays, but let canonical backfill own older completed history. -/
def runtimeHistoryVisibility : Bool :=
  (itemIds canonicalItems).contains item.id || !isTerminalStatus item.status.get
    || match progressOf item with
      | none => true
      | some progress => !advancedBeyond canonicalItems progress

def isExecution : Bool :=
  match item.body with
  | .toolCall _ => true
  | .thinking _ => true
  | .message m => m.role = .assistant
  | _ => false

def maxSafeInteger : Int := 9007199254740991

def isDurable : Bool :=
  item.stable && !item.sourceRefs.isEmpty && item.sourceRefs.all (fun ref =>
    ref.store = "intaris" && 0 < ref.seq && ref.seq ≤ maxSafeInteger)

def activeTurnIdOf : Option String :=
  s.runtime.bind (fun r => if r.hasActiveTurn then r.activeTurnId else none)

def headTurnIsClosed : Bool :=
  match head.turnIdField.truthy with
  | none => false
  | some headTurn => activeTurnIdOf s ≠ some headTurn && isExecution head
    && s.timelineItems.tail.any (fun item => isDurable item && isExecution item
      && match item.turnIdField.truthy with
        | some turnId => turnId ≠ headTurn
        | none => false)

def headSession : Option String :=
  match head.sourceRefs with
  | [] => none
  | ref :: rest => if rest.all (fun other => other.sessionId = ref.sessionId)
    then some ref.sessionId else none

def userBelongsBeforeWindow (m : MessageTimelineItem) : Bool :=
  match m.clientMessageId.truthy with
  | none => false
  | some clientId => item.id = "user:" ++ clientId && m.messageId = "client:" ++ clientId
    && item.status.get = some .complete && m.turnId.get = head.turnIdField.get
    && headTurnIsClosed s head
    && !(canonicalUserClientMessageIds s.timelineItems).contains clientId
    && !((s.queue.map (·.messages)).getD []).any
      (fun message => message.clientMessageId = some clientId)
    && (s.placementOf clientId = none || s.placementOf clientId = some .timeline)

def compactionBelongsBeforeWindow (c : CompactionTimelineItem) : Bool :=
  item.status.get = some .compacted && c.previousSessionId.truthy.isSome
    && c.previousSessionId.get ≠ c.sessionId.get
    && ((headSession head).getD "") ≠ "" && c.sessionId.get = headSession head

def belongsBeforeWindow : Bool :=
  match item.body with
  | .message m => m.role = .user && userBelongsBeforeWindow s head item m
  | .compaction c => compactionBelongsBeforeWindow head item c
  | _ => false

def localBands : List (List Char) :=
  ["9995".toList, "9996".toList, "9997".toList, "9998".toList, "9999".toList]

def beforeWindowKey : Option String :=
  match sortKeyGroups head.sortKey, sortKeyGroups item.sortKey with
  | some [lineage, seq, _, _, _], some [band, tail, a, b, c] =>
    let headSeq := (digitsValue seq).getD 0
    if headSeq = 0 ∨ !localBands.contains band ∨ tail ≠ "999999999999999".toList then none
    else some (joinColon [lineage, (padStart (headSeq - 1) 15).toList, a, b, c])
  | _, _ => none

/-- Place proven historical fallbacks before a partial window, not after live work. This is
a presentation bucket, not recovered canonical order. -/
def localHistoryPlacement : TimelineItem :=
  match s.timelineItems with
  | [] => item
  | head :: _ =>
    if (s.scope.map (·.kind)) = some .conversation && s.hasMoreBefore && isDurable head
        && !item.stable && !(itemIds s.timelineItems).contains item.id
        && !(itemIds s.volatileItems).contains item.id && belongsBeforeWindow s head item then
      match beforeWindowKey head item with
      | some sortKey => if sortKey < head.sortKey then { item with sortKey := sortKey } else item
      | none => item
    else item

def settleForRuntime (runtime : RuntimeOverlaySnapshot) (item : TimelineItem) : TimelineItem :=
  if !runtime.hasActiveTurn then terminalizeSettledItem item
  else match itemTurnIdOf item, runtime.activeTurnId with
    | some itemTurn, some activeTurn =>
      if activeTurn ≠ "" ∧ itemTurn ≠ activeTurn then terminalizeSettledItem item else item
    | _, _ => item

def runtimeAdjustedCanonicalItems : List TimelineItem :=
  match s.runtime with
  | none => s.timelineItems
  | some runtime => s.timelineItems.map (settleForRuntime runtime)

def isDeletedAdmission : Bool :=
  match item.userClientId with
  | some clientId => s.placementOf clientId = some .deleted
  | none => false

def visibleBase : List TimelineItem :=
  (runtimeAdjustedCanonicalItems s).filter (fun item => !isDeletedAdmission s item)

def hidesLocalUser : Bool :=
  match item.userClientId with
  | some clientId => (s.placementOf clientId = some .queue && (itemTurnIdOf item).isNone)
    || (canonicalUserClientMessageIds s.timelineItems).contains clientId
  | none => false

def showLocal : Option TimelineItem :=
  if runtimeHistoryVisibility s.timelineItems item && !hidesLocalUser s item then
    some (localHistoryPlacement s item)
  else none

def activeVolatileItems : List TimelineItem :=
  match s.runtime with
  | some r => if r.hasActiveTurn then r.volatileItems else []
  | none => []

def canonicalAssistantPhase (messageId : String) : Int :=
  (canonicalItems.filterMap (fun item => match item.body with
    | .message m => if m.role = .assistant ∧ m.messageId = messageId
        ∧ item.status.get = some .complete then some (m.assistantPhaseIndex.get.getD 0) else none
    | _ => none)).foldl max (-1)

def assistantContentKey : Option String :=
  match item.body with
  | .message m => if m.role = .assistant ∧ m.messageId ≠ "" then
      some (m.messageId ++ "\x00" ++ m.content) else none
  | _ => none

def canonicalCoversAssistant : Bool :=
  match item.body with
  | .message m => m.role = .assistant && m.messageId ≠ ""
    && ((canonicalItems.filterMap assistantContentKey).contains (m.messageId ++ "\x00" ++ m.content)
      || m.assistantPhaseIndex.get.getD 0 ≤ canonicalAssistantPhase canonicalItems m.messageId)
  | _ => false

def showRuntime (visible : Indexed) (item : TimelineItem) : Indexed :=
  if !runtimeHistoryVisibility s.timelineItems item
      || isConfirmedLegacyAdmission item (itemIds s.timelineItems) then visible
  else match item.userClientId with
    | some clientId =>
      if (canonicalUserClientMessageIds s.timelineItems).contains clientId then visible
      else upsertMerged visible { item with status := .value .complete }
    | none =>
      if canonicalCoversAssistant s.timelineItems item
          || (visible.byId.contains item.id && isIncompleteApplyPatchPreparation item) then visible
      else upsertMerged visible item

def visibleSettled : Indexed :=
  (s.localItems.filterMap (showLocal s)).foldl upsertMerged (Indexed.ofItems (visibleBase s))

def visibleTimelineItems : List TimelineItem :=
  ((activeVolatileItems s).foldl (showRuntime s) (visibleSettled s)).items

def timelineClientIds : List String :=
  canonicalUserClientMessageIds (s.timelineItems ++ s.volatileItems
    ++ s.localItems.filter (fun item => (itemTurnIdOf item).isSome))

def showsQueueMessage (message : QueueMessage) : Bool :=
  match message.clientMessageId with
  | none => true
  | some clientId => clientId = "" || (!(timelineClientIds s).contains clientId
    && s.placementOf clientId ≠ some .timeline && s.placementOf clientId ≠ some .deleted)

def localByClientId (clientMessageId : String) : Option TimelineItem :=
  (s.localItems.filter (fun item => item.userClientId = some clientMessageId)).getLast?

def itemContent : Option String := item.message?.map (·.content)

def itemAttachments : Option (List JsonRef) := item.message?.map (·.attachments)

def projectAdmission (visible : List QueueMessage) (clientMessageId : String)
    (admission : LocalAdmissionPlacement) (existing : Option QueueMessage) : Option QueueMessage :=
  let localItem := localByClientId s clientMessageId
  let content := (admission.content.or (localItem.bind itemContent)).or (existing.map (·.content))
  content.map (fun content =>
    { queueId :=
      (admission.queueId.or (existing.map (·.queueId))).getD ("local:" ++ clientMessageId)
      clientMessageId := some clientMessageId
      clientTxnId := admission.clientTxnId.or (existing.bind (·.clientTxnId))
      content := content
      attachments := ((admission.attachments.or (localItem.bind itemAttachments)).or
        (existing.map (·.attachments))).getD []
      position := (existing.map (·.position)).getD ((visible.map (·.position)).foldl max 0 + 1)
      createdAt := (admission.createdAt.or (localItem.bind (·.createdAt.get))).or
        (existing.bind (·.createdAt))
      updatedAt := admission.updatedAt.or (existing.bind (·.updatedAt))
      status := some ((existing.bind (·.status)).getD .queued)
      cancelRequested := some ((existing.bind (·.cancelRequested)).getD false)
      canEdit := some ((existing.bind (·.canEdit)).getD false) })

def replaceLast (clientMessageId : String) (projected : QueueMessage) :
    List QueueMessage → List QueueMessage
  | [] => []
  | message :: rest =>
    if message.clientMessageId = some clientMessageId
        ∧ !rest.any
          (fun other => other.clientMessageId = some clientMessageId) then projected :: rest
    else message :: replaceLast clientMessageId projected rest

def showAdmission (visible : List QueueMessage)
    (entry : String × LocalAdmissionPlacement) : List QueueMessage :=
  if entry.2.placement ≠ .queue ∨ (timelineClientIds s).contains entry.1 then visible
  else
    -- An empty client id is never indexed, so it finds no server entry.
    let existing := if entry.1 = "" then none else
      (visible.filter (fun message => message.clientMessageId = some entry.1)).getLast?
    match projectAdmission s visible entry.1 entry.2 existing with
    | none => visible
    | some projected =>
      if existing.isSome then replaceLast entry.1 projected visible else visible ++ [projected]

def visibleQueueMessages : List QueueMessage :=
  let visible := ((s.queue.map (·.messages)).getD []).filter (showsQueueMessage s)
  sortBy (·.position) (s.admissionPlacements.entries.foldl (showAdmission s) visible)

end Cognis.Client
