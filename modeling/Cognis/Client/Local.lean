import Cognis.Timeline.Indexed

namespace Cognis.Client

open SortByKey Timeline

structure RuntimeActiveTurn where
  turnId : String
  sessionId : String
  deriving DecidableEq

structure BoundaryReceipt where
  sessionId : String
  seq : Int
  queueId : String
  clientMessageId : String
  deriving DecidableEq

structure RuntimeAuthority where
  protocol : Option String := some "runtime_authority_v1"
  directRequestId : String
  turnId : String
  fencingToken : Int
  sourceEpoch : Option String := none
  sourceRevision : Option Int := none
  deriving DecidableEq

/-- Cycle states, context usage and generation figures are left out: they decide nothing
about the timeline. -/
structure RuntimeOverlaySnapshot where
  runtimeEpoch : String
  runtimeRevision : Int
  generatedAt : String
  hasActiveTurn : Bool
  activeTurn : Option RuntimeActiveTurn := none
  authority : Option RuntimeAuthority := none
  volatileItems : List TimelineItem
  volatileItemsComplete : Bool := false
  boundaryReceipts : List BoundaryReceipt := []
  deriving DecidableEq

/-- `active_turn?.turn_id`. -/
def RuntimeOverlaySnapshot.activeTurnId (r : RuntimeOverlaySnapshot) : Option String :=
  r.activeTurn.map (·.turnId)

def runtimeAuthorityV1 (runtime : RuntimeOverlaySnapshot) : Option RuntimeAuthority :=
  match runtime.authority with
  | some a => if a.protocol = some "runtime_authority_v1" then some a else none
  | none => none

variable (current : Option RuntimeOverlaySnapshot) (localItems : List TimelineItem)
  (placements : AdmissionPlacements) (item : TimelineItem) (canonicalItems : List TimelineItem)
  (incoming : RuntimeOverlaySnapshot)

def isRuntimeAtLeastAsRecent (current : RuntimeOverlaySnapshot) : Bool :=
  if incoming.generatedAt = "" ∨ current.generatedAt = "" then true
  else current.generatedAt ≤ incoming.generatedAt

def closePriorPhase : TimelineItem :=
  match item.body with
  | .message m =>
    if m.role = .assistant ∧ item.status.get = some .running then
      { item with status := .value .complete, body := .message { m with isPartial := false } }
    else item
  | .thinking t =>
    if item.status.get = some .running then
      { item with
        status := .value .complete
        body := .thinking { t with activeTitle := .null, blocks := t.blocks.map completeBlock } }
    else item
  | _ => item

def mergeIntoById (byId : OrderedMap String TimelineItem) (items : List TimelineItem) :
    OrderedMap String TimelineItem :=
  items.foldl (fun byId item => byId.set item.id (match byId.get? item.id with
    | some existing => mergeTimelineItem existing item
    | none => item)) byId

def mergeVolatileItems (current incoming : List TimelineItem) : List TimelineItem :=
  let merged := (mergeIntoById (buildTimelineById current) incoming).values
  let incomingIds := incoming.map (·.id)
  sortTimelineItems (if incoming.any TimelineItem.isToolCall then
    merged.map (fun item => if incomingIds.contains item.id then item else closePriorPhase item)
    else merged)

def mergeRuntimeOverlay (current incoming : RuntimeOverlaySnapshot) : RuntimeOverlaySnapshot :=
  if !incoming.hasActiveTurn || !current.hasActiveTurn then incoming
  else if incoming.activeTurnId ≠ current.activeTurnId then incoming
  else { incoming with
    volatileItems := mergeVolatileItems current.volatileItems incoming.volatileItems }

/-- Whether an arriving overlay leaves the held one in place, as the same object. -/
inductive RuntimeDecision where
  | keep
  | accept (runtime : RuntimeOverlaySnapshot)
  deriving DecidableEq

def RuntimeDecision.apply : RuntimeDecision → Option RuntimeOverlaySnapshot
  | .keep => current
  | .accept runtime => some runtime

def RuntimeDecision.of (accepted : Bool) (runtime : RuntimeOverlaySnapshot) : RuntimeDecision :=
  if accepted then .accept runtime else .keep

/-- Two values that are both set and not empty, and differ. -/
def truthyDiffer (a b : Option String) : Bool :=
  match a, b with
  | some x, some y => x ≠ "" && y ≠ "" && x ≠ y
  | _, _ => false

def applySameRevision (current incoming : RuntimeOverlaySnapshot) : RuntimeDecision :=
  if incoming.volatileItemsComplete && !current.volatileItemsComplete then .accept incoming
  else if !incoming.volatileItemsComplete && current.volatileItemsComplete then .keep
  else .accept (mergeRuntimeOverlay current incoming)

def applySameGeneration (current incoming : RuntimeOverlaySnapshot) (c i : RuntimeAuthority) :
    RuntimeDecision :=
  if !current.hasActiveTurn && incoming.hasActiveTurn then .keep
  else if current.hasActiveTurn && !incoming.hasActiveTurn then .accept incoming
  else if truthyDiffer i.sourceEpoch c.sourceEpoch then .keep
  else match i.sourceRevision, c.sourceRevision with
    | some incomingRevision, some currentRevision =>
      if incomingRevision < currentRevision then .keep
      else if currentRevision < incomingRevision then
        .accept (if incoming.volatileItemsComplete then incoming
          else mergeRuntimeOverlay current incoming)
      else applySameRevision current incoming
    | _, _ => applySameRevision current incoming

def applyAuthoritativeRuntime : RuntimeDecision :=
  match runtimeAuthorityV1 incoming, current with
  | none, _ => .keep
  | some _, none => .accept incoming
  | some i, some cur =>
    match runtimeAuthorityV1 cur with
    | none => .accept incoming
    | some c =>
      if i.fencingToken ≠ c.fencingToken then .of (c.fencingToken < i.fencingToken) incoming
      else if i.directRequestId ≠ c.directRequestId ∨ i.turnId ≠ c.turnId then .keep
      else applySameGeneration cur incoming c i

def dropTransientNotices : RuntimeOverlaySnapshot :=
  if incoming.hasActiveTurn then incoming
  else { incoming with
    volatileItems := incoming.volatileItems.filter (fun item => !isTransientRuntimeNotice item) }

def applyLegacyRuntime : RuntimeDecision :=
  match current with
  | none => .accept incoming
  | some cur =>
    if incoming.runtimeEpoch ≠ cur.runtimeEpoch then .accept incoming
    else if !incoming.hasActiveTurn then
      if !cur.hasActiveTurn then .of (cur.runtimeRevision < incoming.runtimeRevision) incoming
      else .of (isRuntimeAtLeastAsRecent incoming cur) incoming
    else if incoming.activeTurnId ≠ cur.activeTurnId then
      .of (isRuntimeAtLeastAsRecent incoming cur) incoming
    else .of (cur.runtimeRevision < incoming.runtimeRevision) (mergeRuntimeOverlay cur incoming)

def decideRuntime (incoming : Option RuntimeOverlaySnapshot) : RuntimeDecision :=
  match incoming with
  | none => .keep
  | some raw =>
    let incoming := dropTransientNotices raw
    if (runtimeAuthorityV1 incoming).isSome || (current.bind runtimeAuthorityV1).isSome then
      applyAuthoritativeRuntime current incoming
    else applyLegacyRuntime current incoming

def maybeApplyRuntime (incoming : Option RuntimeOverlaySnapshot) : Option RuntimeOverlaySnapshot :=
  (decideRuntime current incoming).apply current

/-- Only server admissions lacking browser identity qualify: the projector explicitly marks
old user_input events. -/
def isConfirmedLegacyAdmission (canonicalIds : List String) : Bool :=
  match item.body with
  | .message m => m.role = .user && m.clientMessageId.truthy = none && m.clientTxnId.truthy = none
    && (match m.turnId.truthy, stripHead "queue:" m.messageId with
      | some turnId, some rest =>
        item.id = "user:" ++ rest && canonicalIds.contains ("user:admitted-turn:" ++ turnId)
      | _, _ => false)
  | _ => false

def itemIds (items : List TimelineItem) : List String := items.map (·.id)

def reachesAssistantPhase (messageId : String) (phase : Int) (item : TimelineItem) : Bool :=
  match item.body with
  | .message m => m.role = .assistant && m.messageId = messageId
    && phase ≤ m.assistantPhaseIndex.get.getD 0
  | _ => false

def thinkingBlockKeys : List String :=
  match item.body with
  | .thinking t => match t.messageId.truthy with
    | some messageId => t.blocks.map (fun block => messageId ++ "|" ++ block.id)
    | none => []
  | _ => []

/-- Whether a local item is still needed next to the canonical ones: leftovers of a guessed
phase and blocks the canonical timeline already holds are evicted, user messages stay. -/
def retainsLocalItem (item : TimelineItem) : Bool :=
  !isConfirmedLegacyAdmission item (itemIds canonicalItems)
    && !((itemIds canonicalItems).contains item.id && item.userClientId.isNone)
    && match item.body with
    | .message m =>
      if m.role = .assistant ∧ m.messageId ≠ "" then
        !canonicalItems.any (reachesAssistantPhase m.messageId (m.assistantPhaseIndex.get.getD 0))
      else true
    | .thinking t => match t.messageId.truthy with
      | some messageId => t.blocks.isEmpty || !t.blocks.all (fun block =>
          (canonicalItems.flatMap thinkingBlockKeys).contains (messageId ++ "|" ++ block.id))
      | none => true
    | _ => true

/-- A local user message whose canonical echo exists counts as delivered. -/
def acknowledge (confirmed : List String) (item : TimelineItem) : TimelineItem :=
  match item.userClientId with
  | some clientId =>
      if confirmed.contains clientId then { item with status := .value .complete } else item
  | none => item

def reconcileLocalItems : List TimelineItem :=
  (localItems.filter (retainsLocalItem canonicalItems)).map
    (acknowledge (canonicalUserClientMessageIds canonicalItems))

inductive AdmissionPlace where
  | timeline | queue | deleted
  deriving DecidableEq

inductive AdmissionStatus where
  | pending | complete | failed
  deriving DecidableEq

structure LocalAdmissionPlacement where
  placement : AdmissionPlace
  status : AdmissionStatus
  clientTxnId : Option String := none
  queueId : Option String := none
  content : Option String := none
  attachments : Option (List JsonRef) := none
  createdAt : Option String := none
  updatedAt : Option String := none
  deriving DecidableEq

abbrev AdmissionPlacements := OrderedMap String LocalAdmissionPlacement

def confirmPlacement (clientMessageId : String) : AdmissionPlacements :=
  match placements.get? clientMessageId with
  | some current =>
    if current.placement = .queue then
      placements.set clientMessageId { current with placement := .timeline, status := .complete }
    else placements
  | none => placements

def reconcileAdmissionPlacements : AdmissionPlacements :=
  (canonicalUserClientMessageIds canonicalItems).foldl confirmPlacement placements

def admissionClientMessageIdByQueueId (queueId : String) : Option String :=
  (placements.entries.find? (fun p => p.2.placement = .queue && p.2.queueId = some queueId)).map
    Prod.fst

def replacesCurrentTurn (current incoming : RuntimeOverlaySnapshot) : Bool :=
  current.hasActiveTurn && (!incoming.hasActiveTurn ||
    match current.authority, incoming.authority with
    | some c, some i => c.fencingToken ≠ i.fencingToken
        || c.directRequestId ≠ i.directRequestId || c.turnId ≠ i.turnId
    | _, _ => incoming.runtimeEpoch ≠ current.runtimeEpoch
        || incoming.activeTurnId ≠ current.activeTurnId)

def TimelineItem.rekeyed : TimelineItem :=
  { item with sortKey := carriedSortKey item.sortKey }

def isCompaction : Bool :=
  match item.body with
  | .compaction _ => true
  | _ => false

def carriesRuntimeItem (replaces : Bool) (incomingIds : List String) (item : TimelineItem) : Bool :=
  (replaces || (isCompaction item && !incomingIds.contains item.id))
    && !isTransientRuntimeNotice item && !isIncompleteApplyPatchPreparation item

/-- `none` stands for the unchanged list, as the same object. -/
def carryPriorRuntimeItems
    (currentRuntime : Option RuntimeOverlaySnapshot) (incoming : RuntimeOverlaySnapshot) :
    Option (List TimelineItem) :=
  match currentRuntime with
  | none => none
  | some current =>
    let replaces := replacesCurrentTurn current incoming
    let incomingIds := itemIds incoming.volatileItems
    let hasDroppedCompaction := current.volatileItems.any (fun item =>
      isCompaction item && !incomingIds.contains item.id)
    if !replaces && !hasDroppedCompaction then none
    else
      let kept := localItems.map (fun item => if replaces then TimelineItem.rekeyed item else item)
      let carried := (current.volatileItems.filter (carriesRuntimeItem replaces incomingIds)).map
        (fun item => TimelineItem.rekeyed (terminalizeSettledItem item))
      some (sortTimelineItems (buildTimelineById (kept ++ carried)).values)

/-- Remember authoritative admission even if a later overlay no longer includes it. -/
def admitRuntimeUserItems : Option (List TimelineItem) :=
  let admitted := incoming.volatileItems.filter (fun item => item.userClientId.isSome)
  if admitted.isEmpty then none
  else some (sortTimelineItems (mergeIntoById (buildTimelineById localItems)
    (admitted.map (fun item => { item with status := .value .complete }))).values)

def carrySettledRuntimeItems (currentRuntime incomingRuntime : Option RuntimeOverlaySnapshot) :
    Option (List TimelineItem) :=
  match incomingRuntime with
  | none => none
  | some incoming =>
    let carried := carryPriorRuntimeItems localItems currentRuntime incoming
    (admitRuntimeUserItems (carried.getD localItems) incoming).or carried

end Cognis.Client
