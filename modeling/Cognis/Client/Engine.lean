import Cognis.Client.Local

namespace Cognis.Client

open SortByKey Timeline

variable (s : ChatV2ClientState) (snapshot : ChatSnapshot) (r : SyncPayload)
  (input : OptimisticInput) (queueId : String)

inductive TimelineScopeKind where
  | conversation | session | taskStep
  deriving DecidableEq

structure TimelineScope where
  key : String
  kind : TimelineScopeKind
  conversationId : Option String := none
  deriving DecidableEq

def conversationTimelineScope (conversationId : String) : TimelineScope :=
  ⟨"conversation:" ++ conversationId, .conversation, some conversationId⟩

def responseScope (scope : Option TimelineScope) (conversationId : String) : TimelineScope :=
  scope.getD (conversationTimelineScope conversationId)

structure ConversationSummary where
  conversationId : String
  json : String := ""
  deriving DecidableEq

structure ConversationStateView where
  json : String
  deriving DecidableEq

inductive QueueMessageStatus where
  | queued | recoverable | committing
  deriving DecidableEq

structure QueueMessage where
  queueId : String
  clientMessageId : Option String := none
  clientTxnId : Option String := none
  content : String
  attachments : List JsonRef := []
  position : Int
  createdAt : Option String := none
  updatedAt : Option String := none
  status : Option QueueMessageStatus := none
  cancelRequested : Option Bool := none
  canEdit : Option Bool := none
  deriving DecidableEq

structure QueueState where
  messages : List QueueMessage
  queuedCount : Int
  deriving DecidableEq

inductive ChatResetReason where
  | cursorInvalid | cursorExpired | projectionVersionChanged | lineageChanged | historyCompacted
  | rangeTooLarge | serverRestartLostRuntime | unsupportedCursor
  deriving DecidableEq

def ChatResetReason.text : ChatResetReason → String
  | .cursorInvalid => "cursor_invalid"
  | .cursorExpired => "cursor_expired"
  | .projectionVersionChanged => "projection_version_changed"
  | .lineageChanged => "lineage_changed"
  | .historyCompacted => "history_compacted"
  | .rangeTooLarge => "range_too_large"
  | .serverRestartLostRuntime => "server_restart_lost_runtime"
  | .unsupportedCursor => "unsupported_cursor"

inductive SyncStatus where
  | empty | ready | gapped
  deriving DecidableEq

/-- `timeline` holds `timelineItems` next to the cached index that goes with them. -/
structure ChatV2ClientState where
  scopeKey : Option String := none
  scope : Option TimelineScope := none
  conversationId : Option String := none
  projectionVersion : Option String := none
  cursor : Option String := none
  hasMoreBefore : Bool := false
  beforeCursor : Option String := none
  conversation : Option ConversationSummary := none
  timeline : Indexed := Indexed.ofItems []
  state : Option ConversationStateView := none
  queue : Option QueueState := none
  runtime : Option RuntimeOverlaySnapshot := none
  localItems : List TimelineItem := []
  admissionPlacements : AdmissionPlacements := .empty
  syncStatus : SyncStatus := .empty
  lastError : Option String := none
  deriving DecidableEq

def emptyChatV2State : ChatV2ClientState := {}

namespace ChatV2ClientState

def timelineItems : List TimelineItem := s.timeline.items

def timelineById : OrderedMap String TimelineItem := s.timeline.byId

/-- `state.runtime?.volatile_items ?? []`. -/
def volatileItems (s : ChatV2ClientState) : List TimelineItem :=
  (s.runtime.map (·.volatileItems)).getD []

def placementOf (clientMessageId : String) : Option AdmissionPlace :=
  (s.admissionPlacements.get? clientMessageId).map (·.placement)

end ChatV2ClientState

def markGapped (reason : ChatResetReason) (message : String) : ChatV2ClientState :=
  { s with syncStatus := .gapped, lastError := some (reason.text ++ ": " ++ message) }

inductive ChatViewOp where
  | upsertItem (item : TimelineItem)
  | removeItem (id : String)
  | replaceConversation (conversation : ConversationSummary)
  | replaceState (state : ConversationStateView)
  | replaceQueue (queue : QueueState)
  | reset (reason : ChatResetReason)
  deriving DecidableEq

structure TimelineWindow where
  items : List TimelineItem
  hasMoreBefore : Bool
  beforeCursor : Option String := none
  deriving DecidableEq

structure ChatSnapshot where
  projectionVersion : String
  scope : Option TimelineScope := none
  conversation : Option ConversationSummary
  timeline : TimelineWindow
  state : Option ConversationStateView
  queue : Option QueueState
  runtime : Option RuntimeOverlaySnapshot
  cursor : Option String
  deriving DecidableEq

structure TimelineBackfillResponse where
  projectionVersion : String
  scope : Option TimelineScope := none
  conversationId : String
  items : List TimelineItem
  hasMoreBefore : Bool
  beforeCursor : Option String := none
  deriving DecidableEq

structure SyncPayload where
  realtime : Bool
  projectionVersion : String
  scope : Option TimelineScope := none
  conversationId : String
  cursorBefore : String
  cursorAfter : String
  ops : List ChatViewOp := []
  runtime : Option RuntimeOverlaySnapshot := none
  resetRequired : Bool := false
  resetReason : Option ChatResetReason := none
  deriving DecidableEq

inductive SendStatus where
  | accepted | queued | duplicate
  deriving DecidableEq

structure SendMessageV2Response where
  status : SendStatus
  clientTxnId : String
  clientMessageId : String
  conversationId : String
  queueId : Option String := none
  cursor : Option String := none
  serverTime : String
  deriving DecidableEq

structure QueueMutationResponse where
  conversationId : String
  queue : QueueState
  cursor : Option String := none
  runtime : Option RuntimeOverlaySnapshot := none
  deriving DecidableEq

structure CancelTurnV2Response where
  conversationId : String
  runtime : Option RuntimeOverlaySnapshot := none
  deriving DecidableEq

/-- The input of `addOptimisticUserMessage` and `promoteQueuedUserMessage`; `now` is the
browser clock when no creation time is given. -/
structure OptimisticInput where
  content : String
  attachments : Option (List JsonRef) := none
  clientMessageId : String
  createdAt : Option String := none
  chatMode : Option ChatMode := none
  now : String
  deriving DecidableEq

structure SystemMessageInput where
  id : String
  content : String
  noticeId : Option String := none
  createdAt : Option String := none
  now : String
  deriving DecidableEq

structure QueueHint where
  clientMessageId : Option String := none
  attachments : Option (List JsonRef) := none
  createdAt : Option String := none
  deriving DecidableEq

def snapshotConversationId : String :=
  ((snapshot.scope.bind (·.conversationId)).or (snapshot.conversation.map (·.conversationId))).getD
    ""

def snapshotScope : TimelineScope :=
  responseScope snapshot.scope (snapshotConversationId snapshot)

def snapshotClientConversationId : Option String :=
  (snapshotScope snapshot).conversationId.or (snapshot.conversation.map (·.conversationId))

def sameScope (previous : ChatV2ClientState) : Bool :=
  previous.scopeKey = some (snapshotScope snapshot).key
    && previous.projectionVersion = some snapshot.projectionVersion

def canAdoptUnscopedLocalAdmissions (adopt : Bool) (previous : ChatV2ClientState) : Bool :=
  adopt && previous.scopeKey.isNone && previous.conversationId.isNone && previous.cursor.isNone
    && previous.timelineItems.isEmpty && previous.runtime.isNone

def scopedPrevious (adopt : Bool) (previous : Option ChatV2ClientState) :
    Option ChatV2ClientState :=
  match previous with
  | none => none
  | some p =>
    if sameScope snapshot p then some p
    else if canAdoptUnscopedLocalAdmissions adopt p then some { p with
      scopeKey := some (snapshotScope snapshot).key
      scope := some (snapshotScope snapshot)
      conversationId := snapshotClientConversationId snapshot
      projectionVersion := some snapshot.projectionVersion
      timeline := Indexed.ofItems p.timelineItems }
    else none

def mergeSnapshotWithExisting (snapshotItems : List TimelineItem) (snapshot : ChatSnapshot)
    (previous : Option ChatV2ClientState) : List TimelineItem :=
  match previous with
  | none => snapshotItems
  | some p =>
    if p.timelineItems.isEmpty || !sameScope snapshot p then snapshotItems
    else snapshotItems.map (fun item => match p.timelineById.get? item.id with
      | some existing => mergeTimelineItem existing item
      | none => item)

def mergeBackfilledHistory (snapshotItems : List TimelineItem) (snapshot : ChatSnapshot)
    (previous : Option ChatV2ClientState) : List TimelineItem :=
  match previous, snapshotItems with
  | some p, earliest :: _ =>
    if !sameScope snapshot p || !snapshot.timeline.hasMoreBefore then snapshotItems
    else
      let olderItems := p.timelineItems.filter (fun item => itemKey item < itemKey earliest)
      if olderItems.isEmpty then snapshotItems
      else sortTimelineItems (olderItems ++ snapshotItems)
  | _, _ => snapshotItems

def snapshotTimeline (previous : Option ChatV2ClientState) : List TimelineItem :=
  mergeBackfilledHistory
    (mergeSnapshotWithExisting (sortTimelineItems snapshot.timeline.items) snapshot previous)
    snapshot previous

def applySnapshot (previous : Option ChatV2ClientState)
    (adoptUnscopedLocalAdmissions : Bool) : ChatV2ClientState :=
  let base := scopedPrevious snapshot adoptUnscopedLocalAdmissions previous
  let timelineItems := snapshotTimeline snapshot base
  let previousRuntime := base.bind (·.runtime)
  let runtime := maybeApplyRuntime previousRuntime snapshot.runtime
  let localItems := (base.map (·.localItems)).getD []
  { scopeKey := some (snapshotScope snapshot).key
    scope := some (snapshotScope snapshot)
    conversationId := snapshotClientConversationId snapshot
    projectionVersion := some snapshot.projectionVersion
    cursor := snapshot.cursor
    hasMoreBefore := snapshot.timeline.hasMoreBefore
      && (snapshot.timeline.beforeCursor.getD "") ≠ ""
    beforeCursor := snapshot.timeline.beforeCursor
    conversation := snapshot.conversation
    timeline := Indexed.ofItems timelineItems
    state := snapshot.state
    queue := snapshot.queue
    runtime := runtime
    localItems := reconcileLocalItems
      ((carrySettledRuntimeItems localItems previousRuntime runtime).getD localItems) timelineItems
    admissionPlacements := reconcileAdmissionPlacements
      ((base.map (·.admissionPlacements)).getD .empty) timelineItems
    syncStatus := .ready
    lastError := none }

def applyBackfillResult (response : TimelineBackfillResponse) : Bool × ChatV2ClientState :=
  if s.scopeKey ≠ some (responseScope response.scope response.conversationId).key then
    (false, markGapped s .lineageChanged "Backfill conversation does not match local state")
  else if s.projectionVersion ≠ some response.projectionVersion then
    (false, markGapped s .projectionVersionChanged
      "Backfill projection version does not match local state")
  else
    let timeline := response.items.foldl upsertMerged s.timeline
    (true, { s with
      timeline := timeline
      hasMoreBefore := response.hasMoreBefore && (response.beforeCursor.getD "") ≠ ""
      beforeCursor := response.beforeCursor
      localItems := reconcileLocalItems s.localItems timeline.items
      admissionPlacements := reconcileAdmissionPlacements s.admissionPlacements timeline.items
      lastError := none })

def applyBackfill (response : TimelineBackfillResponse) : ChatV2ClientState :=
  (applyBackfillResult s response).2

def applyReceipt (receipt : BoundaryReceipt) (now : String) : ChatV2ClientState :=
  match s.admissionPlacements.get? receipt.clientMessageId with
  | some current =>
    if current.placement = .queue then
      { s with
        admissionPlacements := s.admissionPlacements.set receipt.clientMessageId { current with
          placement := .timeline, status := .complete, queueId := some receipt.queueId
          updatedAt := some now }
        localItems := s.localItems.map (fun item =>
          if item.isUserMessageOf receipt.clientMessageId
            then { item with status := .value .complete }
          else item) }
    else s
  | none => s

def applyBoundaryReceipts (receipts : List BoundaryReceipt) (now : String) : ChatV2ClientState :=
  receipts.foldl (fun s receipt => applyReceipt s receipt now) s

structure OpTarget where
  conversation : Option ConversationSummary
  state : Option ConversationStateView
  queue : Option QueueState
  timeline : Indexed
  timelineChanged : Bool := false
  deriving DecidableEq

def applyOp (t : OpTarget) : ChatViewOp → OpTarget
  | .upsertItem item => { t with timeline := upsertMerged t.timeline item, timelineChanged := true }
  | .removeItem id =>
    if t.timeline.byId.contains id then
      { t with timeline := removeSortedTimelineItem t.timeline id, timelineChanged := true }
    else t
  | .replaceConversation conversation => { t with conversation := some conversation }
  | .replaceState state => { t with state := some state }
  | .replaceQueue queue => { t with queue := some queue }
  | .reset _ => t

def ChatV2ClientState.opTarget : OpTarget :=
  ⟨s.conversation, s.state, s.queue, s.timeline, false⟩

def applyOps (ops : List ChatViewOp) : ChatV2ClientState :=
  let t := ops.foldl applyOp s.opTarget
  { s with
    conversation := t.conversation
    state := t.state
    queue := t.queue
    timeline := t.timeline
    localItems := if t.timelineChanged then reconcileLocalItems s.localItems t.timeline.items
      else s.localItems
    admissionPlacements := if t.timelineChanged then
      reconcileAdmissionPlacements s.admissionPlacements t.timeline.items
      else s.admissionPlacements }

inductive ChatV2SyncOutcome where
  | applied | duplicate | cursorMismatch | resetRequired
  deriving DecidableEq

structure ChatV2SyncResult where
  outcome : ChatV2SyncOutcome
  state : ChatV2ClientState
  resetReason : Option ChatResetReason := none
  deriving DecidableEq

def withRuntime (runtime : Option RuntimeOverlaySnapshot) : ChatV2ClientState :=
  { s with
    runtime := runtime
    localItems := match carrySettledRuntimeItems s.localItems s.runtime runtime with
      | none => s.localItems
      | some carried => reconcileLocalItems carried s.timelineItems }

def resetOpReason : ChatViewOp → Option ChatResetReason
  | .reset reason => some reason
  | _ => none

def SyncPayload.runtimeOnly : Bool :=
  r.realtime && r.ops.isEmpty && r.cursorBefore = r.cursorAfter

def applyInOrder : ChatV2ClientState :=
  let next := applyOps s r.ops
  let next := withRuntime next (maybeApplyRuntime next.runtime r.runtime)
  { next with
    cursor := some r.cursorAfter
    admissionPlacements := reconcileAdmissionPlacements next.admissionPlacements next.timelineItems
    -- A runtime-only frame cannot repair a missing canonical base.
    syncStatus := if r.runtimeOnly then s.syncStatus else .ready
    lastError := if r.runtimeOnly then s.lastError else none }

def applySyncLike (now : String) : ChatV2SyncResult :=
  if s.conversationId ≠ some r.conversationId then
    ⟨.cursorMismatch, markGapped s .lineageChanged "Frame conversation does not match local state",
      some .lineageChanged⟩
  else if !r.realtime && r.resetRequired then
    let reason := r.resetReason.getD .cursorInvalid
    ⟨.resetRequired, markGapped s reason ("Server requested reset: " ++ reason.text), some reason⟩
  else if s.projectionVersion ≠ some r.projectionVersion then
    ⟨.cursorMismatch, markGapped s .projectionVersionChanged
      "Frame projection version does not match local state", some .projectionVersionChanged⟩
  else
    let receipts := (r.runtime.map (·.boundaryReceipts)).getD []
    let receiptsApplied := receipts.any (fun receipt =>
      s.placementOf receipt.clientMessageId = some .queue)
    let s := applyBoundaryReceipts s receipts now
    if r.runtimeOnly && s.cursor ≠ some r.cursorBefore then
      match decideRuntime s.runtime r.runtime with
      | .keep => ⟨if receiptsApplied then .applied else .duplicate, s, none⟩
      | .accept runtime => ⟨.applied, { withRuntime s (some runtime) with lastError := none }, none⟩
    else if s.cursor = some r.cursorAfter ∧ s.cursor ≠ some r.cursorBefore then
      ⟨if receiptsApplied then .applied else .duplicate, s, none⟩
    else if s.cursor ≠ some r.cursorBefore then
      ⟨.cursorMismatch, markGapped s .cursorInvalid "Frame cursor does not match local state",
        some .cursorInvalid⟩
    else match r.ops.findSome? resetOpReason with
      | some reason =>
        ⟨.resetRequired, markGapped s reason ("Server requested reset: " ++ reason.text),
          some reason⟩
      | none => ⟨.applied, applyInOrder s r, none⟩

/-- `applySyncResponse` and `applyRealtimeFrame`, told apart by `r.realtime`. -/
def applyScopedSync (now : String) : ChatV2SyncResult :=
  if s.scopeKey ≠ some (responseScope r.scope r.conversationId).key then
    ⟨.cursorMismatch, markGapped s .lineageChanged (if r.realtime then
      "Realtime scope does not match local state" else "Sync scope does not match local state"),
        none⟩
  else applySyncLike s r now

/-- `{ ...placements[id], placement, status, ... }`: what is held for the id, or nothing. -/
def heldPlacement (placements : AdmissionPlacements) (clientMessageId : String) :
    LocalAdmissionPlacement :=
  (placements.get? clientMessageId).getD ⟨.timeline, .pending, none, none, none, none, none, none⟩

def sendPlacement (response : SendMessageV2Response) (canonicalConfirmed : Bool) : AdmissionPlace :=
  let current := s.placementOf response.clientMessageId
  let settled :=
    ((s.admissionPlacements.get? response.clientMessageId).map (·.status)) = some .complete
  if current = some .deleted then .deleted
  else if canonicalConfirmed then .timeline
  else if current = some .timeline ∧ settled then .timeline
  else if response.status = .queued
      ∨ (response.status = .duplicate ∧ (response.queueId.getD "") ≠ "") then .queue
  else .timeline

def applySendResponse (response : SendMessageV2Response) : ChatV2ClientState :=
  if s.conversationId ≠ some response.conversationId then
    markGapped s .lineageChanged "Send response conversation does not match local state"
  else
    let matching := s.localItems.find? (·.isUserMessageOf response.clientMessageId)
    let canonicalConfirmed :=
      (canonicalUserClientMessageIds s.timelineItems).contains response.clientMessageId
      || (canonicalUserClientMessageIds s.volatileItems).contains response.clientMessageId
      || ((matching.bind itemTurnIdOf).isSome)
    { s with
      cursor := response.cursor.or s.cursor
      localItems := s.localItems.map (fun item =>
        if item.isUserMessageOf response.clientMessageId then
          { item with status := .value .complete, updatedAt := .value response.serverTime }
        else item)
      admissionPlacements := if matching.isSome then
          s.admissionPlacements.set response.clientMessageId
            { heldPlacement s.admissionPlacements response.clientMessageId with
              placement := sendPlacement s response canonicalConfirmed
              status := .complete
              clientTxnId := some response.clientTxnId
              queueId := response.queueId
              updatedAt := some response.serverTime }
        else s.admissionPlacements
      lastError := none }

def localOrdinal (item : TimelineItem) : Option Nat :=
  match splitColon item.sortKey.toList with
  | [lineage, _, _, _, ordinal] =>
    if lineage = "9996".toList ∨ lineage = "9997".toList ∨ lineage = "9998".toList then
      digitsValue ordinal
    else none
  | _ => none

/-- A tail key after every local key minted so far and after everything the active turn
has streamed. -/
def nextLocalSortKey : String :=
  let maxLocal := (s.localItems.filterMap localOrdinal).foldl max 0
  let phases := match s.runtime with
    | some r => if r.hasActiveTurn then
        r.volatileItems.map (fun (item : TimelineItem) => (item.phaseField.get.getD 0 + 1).toNat)
      else []
    | none => []
  "9998:999999999999999:" ++ padStart (phases.foldl max 0) 6 ++ ":00:" ++ padStart (maxLocal + 1) 9

def joinColon (parts : List (List Char)) : String :=
  String.intercalate ":" (parts.map String.ofList)

def nextLocalSystemSortKey : String :=
  match s.timelineItems.map (·.sortKey) with
  | [] => nextLocalSortKey s
  | first :: rest =>
    let maxCanonical := rest.foldl max first
    if maxCanonical = "" then nextLocalSortKey s
    else match splitColon maxCanonical.toList with
      | [a, b, c, d, ordinal] =>
        let head := joinColon [a, b, c, d]
        let start := (digitsValue ordinal).getD 0
        let locals := s.localItems.filterMap (fun item => match splitColon item.sortKey.toList with
          | [a', b', c', d', o] => if joinColon [a', b', c', d'] = head then digitsValue o else none
          | _ => none)
        head ++ ":" ++ padStart (locals.foldl max start + 1) 9
      | _ => nextLocalSortKey s

def optimisticUserItem : TimelineItem :=
  let createdAt := input.createdAt.getD input.now
  { id := "user:" ++ input.clientMessageId
    sortKey := nextLocalSortKey s
    createdAt := .value createdAt
    updatedAt := .value createdAt
    stable := false
    status := .value .pending
    body := .message {
      role := .user
      content := input.content
      messageId := input.clientMessageId
      clientMessageId := .value input.clientMessageId
      attachments := input.attachments.getD []
      chatMode := .ofOption input.chatMode } }

def addOptimisticUserMessage : ChatV2ClientState :=
  if s.localItems.any (·.isMessageOf input.clientMessageId) then s
  else
    let createdAt := input.createdAt.getD input.now
    { s with
      localItems :=
        reconcileLocalItems (s.localItems ++ [optimisticUserItem s input]) s.timelineItems
      admissionPlacements := s.admissionPlacements.set input.clientMessageId
        { placement := .timeline
          status := .pending
          content := some input.content
          attachments := some (input.attachments.getD [])
          createdAt := some createdAt
          updatedAt := some createdAt } }

def markOptimisticUserMessageFailed (clientMessageId : String) (now : String) : ChatV2ClientState :=
  if ((s.admissionPlacements.get? clientMessageId).map (·.status)) = some .complete
      ∨ s.localItems.any (fun item => item.isMessageOf clientMessageId
        && item.status.get = some .complete)
      ∨ (canonicalUserClientMessageIds s.timelineItems).contains clientMessageId then s
  else { s with
    localItems := s.localItems.map (fun item =>
      if item.isMessageOf clientMessageId ∧ item.status.get ≠ some .complete then
        { item with status := .value .failed, stable := true, updatedAt := .value now }
      else item)
    admissionPlacements := s.admissionPlacements.set clientMessageId
      { heldPlacement s.admissionPlacements clientMessageId with
        placement := .timeline, status := .failed } }

def promotedItem (item : TimelineItem) : TimelineItem :=
  match item.body with
  | .message m =>
    if m.clientMessageId.get = some input.clientMessageId then
      { item with
        status := .value .complete
        updatedAt := .value input.now
        body := .message { m with
          content := input.content
          attachments := input.attachments.getD m.attachments
          chatMode := .ofOption (input.chatMode.or m.chatMode.get) } }
    else item
  | _ => item

def promoteQueuedUserMessage : ChatV2ClientState :=
  let seeded := if s.localItems.any (·.isMessageOf input.clientMessageId) then s
    else addOptimisticUserMessage s input
  { seeded with
    localItems := seeded.localItems.map (promotedItem input)
    admissionPlacements := seeded.admissionPlacements.set input.clientMessageId
      { heldPlacement seeded.admissionPlacements input.clientMessageId with
        placement := .timeline
        status := .complete
        content := some input.content
        attachments := some (input.attachments.getD [])
        createdAt := input.createdAt
        updatedAt := some input.now } }

def queueMessageById : Option QueueMessage :=
  s.queue.bind (fun queue => queue.messages.find? (fun message => message.queueId = queueId))

def queuedClientMessageId (hint : Option String) : Option String :=
  let found := ((admissionClientMessageIdByQueueId s.admissionPlacements queueId).or
    ((queueMessageById s queueId).bind (·.clientMessageId))).or hint
  if found = some "" then none else found

def withContent (content now : String) (item : TimelineItem) : TimelineItem :=
  match item.body with
  | .message m =>
    { item with updatedAt := .value now, body := .message { m with content := content } }
  | _ => item

def updateQueuedAdmissionContent (content : String)
    (hint : QueueHint) (now : String) : ChatV2ClientState :=
  match queuedClientMessageId s queueId hint.clientMessageId with
  | none => s
  | some clientMessageId =>
    if s.placementOf clientMessageId = some .deleted then s
    else
      let canonical := queueMessageById s queueId
      let held := s.admissionPlacements.get? clientMessageId
      { s with
        localItems := s.localItems.map (fun item =>
          if item.isUserMessageOf clientMessageId then withContent content now item else item)
        admissionPlacements := s.admissionPlacements.set clientMessageId
          { placement := .queue
            status := .complete
            queueId := some queueId
            clientTxnId := (held.bind (·.clientTxnId)).or (canonical.bind (·.clientTxnId))
            content := some content
            attachments := some ((((held.bind (·.attachments)).or
              (canonical.map (·.attachments))).or hint.attachments).getD [])
            createdAt :=
              ((held.bind (·.createdAt)).or (canonical.bind (·.createdAt))).or hint.createdAt
            updatedAt := some now } }

def deleteQueuedAdmission
    (clientMessageIdHint : Option String) (now : String) : ChatV2ClientState :=
  match queuedClientMessageId s queueId clientMessageIdHint with
  | none => s
  | some clientMessageId =>
    { s with
      localItems := s.localItems.filter (fun item => !item.isUserMessageOf clientMessageId)
      admissionPlacements := s.admissionPlacements.set clientMessageId
        { heldPlacement s.admissionPlacements clientMessageId with
          placement := .deleted, status := .complete, updatedAt := some now } }

def localSystemItem (input : SystemMessageInput) : TimelineItem :=
  let createdAt := input.createdAt.getD input.now
  { id := input.id
    sortKey := nextLocalSystemSortKey s
    createdAt := .value createdAt
    updatedAt := .value createdAt
    stable := false
    status := .value .complete
    body := .message {
      role := .system
      content := input.content
      messageId := input.id
      noticeId := .ofOption (input.noticeId.or (stripHead "system:" input.id)) } }

def addLocalSystemMessage (input : SystemMessageInput) : ChatV2ClientState :=
  if s.localItems.any (fun item => item.id = input.id) then s
  else { s with
    localItems := reconcileLocalItems (s.localItems ++ [localSystemItem s input]) s.timelineItems }

def applyCancelResponse (response : CancelTurnV2Response) : ChatV2ClientState :=
  if s.conversationId ≠ some response.conversationId then
    markGapped s .lineageChanged "Cancel response conversation does not match local state"
  else { withRuntime s (maybeApplyRuntime s.runtime response.runtime) with lastError := none }

def applyQueueMutationResponse (response : QueueMutationResponse) : ChatV2ClientState :=
  if s.conversationId ≠ some response.conversationId then
    markGapped s .lineageChanged "Queue response conversation does not match local state"
  else { withRuntime s (maybeApplyRuntime s.runtime response.runtime) with
    queue := some response.queue
    cursor := response.cursor.or s.cursor
    admissionPlacements := reconcileAdmissionPlacements s.admissionPlacements s.timelineItems
    lastError := none }

inductive Transition where
  | snapshot (snapshot : ChatSnapshot) (adoptUnscopedLocalAdmissions : Bool)
  | backfill (response : TimelineBackfillResponse)
  | sync (payload : SyncPayload) (now : String)
  | send (response : SendMessageV2Response)
  | cancel (response : CancelTurnV2Response)
  | queueMutation (response : QueueMutationResponse)
  | addOptimistic (input : OptimisticInput)
  | promote (input : OptimisticInput)
  | markFailed (clientMessageId now : String)
  | updateQueued (queueId content : String) (hint : QueueHint) (now : String)
  | deleteQueued (queueId : String) (clientMessageIdHint : Option String) (now : String)
  | addSystem (input : SystemMessageInput)
  deriving DecidableEq

def step : Transition → ChatV2ClientState
  | .snapshot snapshot adopt => applySnapshot snapshot (some s) adopt
  | .backfill response => applyBackfill s response
  | .sync payload now => (applyScopedSync s payload now).state
  | .send response => applySendResponse s response
  | .cancel response => applyCancelResponse s response
  | .queueMutation response => applyQueueMutationResponse s response
  | .addOptimistic input => addOptimisticUserMessage s input
  | .promote input => promoteQueuedUserMessage s input
  | .markFailed clientMessageId now => markOptimisticUserMessageFailed s clientMessageId now
  | .updateQueued queueId content hint now =>
      updateQueuedAdmissionContent s queueId content hint now
  | .deleteQueued queueId hint now => deleteQueuedAdmission s queueId hint now
  | .addSystem input => addLocalSystemMessage s input

def run (transitions : List Transition) : ChatV2ClientState :=
  transitions.foldl step s

end Cognis.Client
