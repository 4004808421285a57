import Cognis.Library.JsonValue

namespace Cognis.DirectTurn

open JsonValue

variable (s : DirectTurnStatus) (r : DirectTurnRequestRow) (outcome : Members)
  (request : DirectTurnRequestRow) (now sessionId : String) (turnId : Option String)

inductive DirectTurnStatus where
  | queued
  | claimed
  | running
  | absorbing
  | recoverable
  | completed
  | failed
  | cancelled
  | absorbed
  | ambiguous
  deriving DecidableEq

namespace DirectTurnStatus

/-- `CLAIMABLE_STATUSES`. -/
def Claimable : Prop := s = .queued ∨ s = .recoverable

/-- `ACTIVE_STATUSES`. -/
def Active : Prop := s = .claimed ∨ s = .running ∨ s = .absorbing

/-- `TERMINAL_STATUSES`. -/
def Terminal : Prop :=
  s = .completed ∨ s = .failed ∨ s = .cancelled ∨ s = .absorbed ∨ s = .ambiguous

/-- `NONTERMINAL_STATUSES`. -/
def Nonterminal : Prop := s.Claimable ∨ s.Active

instance (s : DirectTurnStatus) : Decidable s.Claimable := inferInstanceAs (Decidable (_ ∨ _))
instance (s : DirectTurnStatus) : Decidable s.Active := inferInstanceAs (Decidable (_ ∨ _))
instance (s : DirectTurnStatus) : Decidable s.Terminal := inferInstanceAs (Decidable (_ ∨ _))
instance (s : DirectTurnStatus) : Decidable s.Nonterminal := inferInstanceAs (Decidable (_ ∨ _))

theorem terminal_iff_not_nonterminal : s.Terminal ↔ ¬ s.Nonterminal := by
  cases s <;> decide

theorem not_active_of_claimable {s : DirectTurnStatus} (h : s.Claimable) : ¬ s.Active := by
  rcases h with rfl | rfl <;> decide

end DirectTurnStatus

/-- One durable request. Times are microseconds of the database clock; an
`outcome` of `null` is the empty column. -/
structure DirectTurnRequestRow where
  admissionOrder : Nat
  requestId : String
  turnId : String
  conversationId : String
  sessionId : Option String
  agentId : String
  userId : String
  idempotencyScope : String
  idempotencyKey : String
  admissionHash : String
  payloadHash : String
  payloadVersion : Int
  payload : Members
  status : DirectTurnStatus := .queued
  ownerControllerId : Option String := none
  ownerIncarnationId : Option String := none
  fencingToken : Option Nat := none
  attemptCount : Nat := 0
  nextAttemptAt : Option Int := none
  cancelRequestedAt : Option Int := none
  absorbedByTurnId : Option String := none
  outcome : JsonValue := .null
  createdAt : Int
  updatedAt : Int
  claimedAt : Option Int := none
  startedAt : Option Int := none
  terminalAt : Option Int := none
  deriving DecidableEq

/-- The columns one UPDATE assigns; an unset field leaves its column alone. The
identity of a request is not among them. -/
structure RowValues where
  sessionId : Option (Option String) := none
  payload : Option Members := none
  payloadHash : Option String := none
  payloadVersion : Option Int := none
  status : Option DirectTurnStatus := none
  ownerControllerId : Option (Option String) := none
  ownerIncarnationId : Option (Option String) := none
  fencingToken : Option (Option Nat) := none
  /-- `attempt_count = attempt_count + 1`. -/
  nextAttempt : Bool := false
  nextAttemptAt : Option (Option Int) := none
  cancelRequestedAt : Option (Option Int) := none
  absorbedByTurnId : Option (Option String) := none
  outcome : Option JsonValue := none
  updatedAt : Int
  claimedAt : Option (Option Int) := none
  startedAt : Option (Option Int) := none
  terminalAt : Option (Option Int) := none

namespace DirectTurnRequestRow

def assign (v : RowValues) : DirectTurnRequestRow :=
  { r with
    sessionId := v.sessionId.getD r.sessionId
    payload := v.payload.getD r.payload
    payloadHash := v.payloadHash.getD r.payloadHash
    payloadVersion := v.payloadVersion.getD r.payloadVersion
    status := v.status.getD r.status
    ownerControllerId := v.ownerControllerId.getD r.ownerControllerId
    ownerIncarnationId := v.ownerIncarnationId.getD r.ownerIncarnationId
    fencingToken := v.fencingToken.getD r.fencingToken
    attemptCount := if v.nextAttempt then r.attemptCount + 1 else r.attemptCount
    nextAttemptAt := v.nextAttemptAt.getD r.nextAttemptAt
    cancelRequestedAt := v.cancelRequestedAt.getD r.cancelRequestedAt
    absorbedByTurnId := v.absorbedByTurnId.getD r.absorbedByTurnId
    outcome := v.outcome.getD r.outcome
    updatedAt := v.updatedAt
    claimedAt := v.claimedAt.getD r.claimedAt
    startedAt := v.startedAt.getD r.startedAt
    terminalAt := v.terminalAt.getD r.terminalAt }

def update : Option RowValues → DirectTurnRequestRow
  | none => r
  | some v => r.assign v

/-- `row.outcome if isinstance(row.outcome, dict) else {}`. -/
def outcomeDict : Members :=
  match r.outcome with
  | .obj m => m
  | _ => []

section

variable (r : DirectTurnRequestRow) (u : Option RowValues)

@[simp] theorem update_requestId : (r.update u).requestId = r.requestId := by cases u <;> rfl

@[simp] theorem update_conversationId : (r.update u).conversationId = r.conversationId := by
  cases u <;> rfl

@[simp] theorem update_admissionOrder : (r.update u).admissionOrder = r.admissionOrder := by
  cases u <;> rfl

end

end DirectTurnRequestRow

def conversationLeaseKey (conversationId : String) : String :=
  "direct-turn:conversation:" ++ conversationId

def ownerId (controllerId incarnationId : String) : String := controllerId ++ ":" ++ incarnationId

structure Codec where
  isoformat : Int → String
  fromisoformat : String → Option Int
  /-- `_canonical_hash`. -/
  canonicalHash : JsonValue → String
  /-- `_validated_payload`; `none` raises. -/
  validatedPayload : Members → Int → Option Members
  /-- `deserialize_evidence_admission(raw)` is present and admitted. -/
  evidenceAdmitted : JsonValue → Bool
  /-- The digest an operator recovery is audited under. -/
  auditDigest : String → String → String → String

def toolInFlightPhase : String := "tool_in_flight"

def toolResultPersistedPhase : String := "tool_result_persisted"

def toolDispatchDescriptorLimit : Nat := 500

structure ToolDispatchGroup where
  sessionId : String
  turnId : String
  toolCalls : List JsonValue
  deriving DecidableEq

namespace ToolDispatchGroup

def key (g : ToolDispatchGroup) : String × String := (g.sessionId, g.turnId)

end ToolDispatchGroup

/-- An element of the sequence `dict(..)` reads: anything that iterates to two values. -/
def pairOf : JsonValue → Option (JsonValue × JsonValue)
  | .arr [k, v] => some (k, v)
  | .obj [(j, _), (k, _)] => some (.str j, .str k)
  | .str s =>
    match s.toList with
    | [a, b] => some (.str (String.singleton a), .str (String.singleton b))
    | _ => none
  | _ => none

def keyText : JsonValue → Option String
  | .null => some "null"
  | .bool b => some (if b then "true" else "false")
  | .num t => some t
  | .str s => some s
  | .arr _ | .obj _ => none

/-- `dict(descriptor)`: an object is copied, any other value is read as a
sequence of pairs; `none` raises. -/
def dictOf : JsonValue → Option Members
  | .obj m => some m
  | .arr items =>
    items.foldlM (fun m item =>
      (pairOf item).bind fun p => (keyText p.1).map fun k => insert m k p.2) []
  | .str s => if s = "" then some [] else none
  | .null | .bool _ | .num _ => none

/-- The stored form of a group; `none` when a descriptor is not readable as a dict. -/
def ToolDispatchGroup.asJson (g : ToolDispatchGroup) : Option JsonValue :=
  (g.toolCalls.mapM dictOf).map fun ds =>
    .obj [("session_id", .str g.sessionId), ("turn_id", .str g.turnId),
      ("tool_calls", .arr (ds.map .obj))]

def coerceDispatchGroup : JsonValue → Option ToolDispatchGroup
  | .obj raw =>
    match get? raw "session_id", get? raw "turn_id", get? raw "tool_calls" with
    | some (.str sessionId), some (.str turnId), some (.arr descriptors) =>
      if sessionId = "" ∨ turnId = "" ∨ descriptors = [] then none
      else some ⟨sessionId, turnId, descriptors⟩
    | _, _, _ => none
  | _ => none

def numIsZero (text : String) : Bool :=
  (text.toList.takeWhile (fun c => c ≠ 'e' ∧ c ≠ 'E')).all (fun c => c = '-' ∨ c = '0' ∨ c = '.')

def truthy : JsonValue → Bool
  | .null => false
  | .bool b => b
  | .num t => !numIsZero t
  | .str s => s ≠ ""
  | .arr items => !items.isEmpty
  | .obj members => !members.isEmpty

/-- `value or fallback` for a dict read and an optional string. -/
def orElseText (value : Option JsonValue) (fallback : Option String) : JsonValue :=
  match value with
  | some v => if truthy v then v else (fallback.map .str).getD .null
  | none => (fallback.map .str).getD .null

/-- `read_tool_dispatch_groups`, with the flat list older rows carry. -/
def readToolDispatchGroups (fallbackSessionId fallbackTurnId : Option String) :
    List ToolDispatchGroup :=
  match get? outcome "tool_dispatch_groups" with
  | some (.arr rawGroups) => rawGroups.filterMap coerceDispatchGroup
  | _ =>
    match get? outcome "tool_calls" with
    | some (.arr (d :: ds)) =>
      (coerceDispatchGroup (.obj [
        ("session_id", orElseText (get? outcome "session_id") fallbackSessionId),
        ("turn_id", orElseText (get? outcome "turn_id") fallbackTurnId),
        ("tool_calls", .arr (d :: ds))])).toList
    | _ => []

def unreadableToolDispatchGroups : List JsonValue :=
  match get? outcome "tool_dispatch_groups" with
  | some (.arr rawGroups) => rawGroups.filter (fun raw => (coerceDispatchGroup raw).isNone)
  | _ => []

/-- `write_tool_dispatch_groups`; `none` when a group cannot be stored. -/
def writeToolDispatchGroups (groups : List ToolDispatchGroup)
    (preserved : List JsonValue) : Option Members :=
  (groups.mapM ToolDispatchGroup.asJson).map fun gs =>
    let updated := eraseKeys outcome ["tool_dispatch_groups", "tool_calls"]
    if gs ++ preserved = [] then updated
    else insert updated "tool_dispatch_groups" (.arr (gs ++ preserved))

def resolveDispatchTurnId (request : DirectTurnRequestRow) : String :=
  match turnId with
  | some t => if t = "" then request.turnId else t
  | none => request.turnId

def replaceDispatchGroup (groups : List ToolDispatchGroup) (replacement : ToolDispatchGroup) :
    List ToolDispatchGroup :=
  groups.filter (fun g => g.key ≠ replacement.key) ++ [replacement]

def phaseOf : Option String :=
  match get? outcome "phase" with
  | some (.str p) => some p
  | _ => none

def keptPhaseStart : JsonValue :=
  match get? outcome "phase_started_at" with
  | some (.str started) =>
      if phaseOf outcome = some toolInFlightPhase then .str started else .str now
  | _ => .str now

/-- The outcome `checkpoint` stores. -/
def checkpointOutcome (phase : String) (metadata : Members)
    (clearToolDispatch : Bool) : Option Members :=
  let previous := request.outcomeDict
  let liveGroups := if clearToolDispatch then [] else
    readToolDispatchGroups previous request.sessionId (some request.turnId)
  let preserved := if clearToolDispatch then [] else unreadableToolDispatchGroups previous
  let outcome := JsonValue.update [("phase", .str phase), ("phase_started_at", .str now)] metadata
  if liveGroups = [] ∧ preserved = [] then writeToolDispatchGroups outcome [] []
  else writeToolDispatchGroups (JsonValue.update outcome [("phase", .str toolInFlightPhase),
      ("phase_started_at", keptPhaseStart previous now), ("deferred_phase", .str phase)])
    liveGroups preserved

/-- The outcome `record_tool_dispatch` stores. -/
def recordOutcome (descriptors : List JsonValue) (metadata : Members) : Option Members :=
  let outcome := request.outcomeDict
  let groups := readToolDispatchGroups outcome request.sessionId (some request.turnId)
  let preserved := (unreadableToolDispatchGroups outcome).filter (fun raw =>
    match raw with
    | .obj m => get? m "session_id" ≠ some (.str sessionId)
    | _ => true)
  writeToolDispatchGroups
    (JsonValue.update [("phase", .str toolInFlightPhase), ("phase_started_at", .str now)] metadata)
    (replaceDispatchGroup groups ⟨sessionId, resolveDispatchTurnId turnId request, descriptors⟩)
    preserved

/-- The outcome `complete_tool_dispatch` stores. -/
def completeOutcome (callIds : List String) (metadata : Members) : Option Members :=
  let outcome := request.outcomeDict
  let groups := readToolDispatchGroups outcome request.sessionId (some request.turnId)
  let remaining := groups.filter
    (fun g => g.key ≠ (sessionId, resolveDispatchTurnId turnId request))
  let preserved := unreadableToolDispatchGroups outcome
  let head : Members :=
    if remaining = [] ∧ preserved = [] then
      [("phase", .str toolResultPersistedPhase), ("phase_started_at", .str now)]
    else [("phase", .str toolInFlightPhase), ("phase_started_at", keptPhaseStart outcome now)]
  writeToolDispatchGroups (insert (JsonValue.update head metadata) "call_ids"
      (.arr ((callIds.take toolDispatchDescriptorLimit).map .str)))
    remaining preserved

structure DispatchBinding where
  callId : String
  executorId : String
  executorInstanceId : Option String
  /-- `dispatching` or `sent`. -/
  sent : Bool
  deriving DecidableEq

namespace DispatchBinding

def entries (b : DispatchBinding) : Members :=
  [("executor_id", .str b.executorId),
    ("executor_instance_id", (b.executorInstanceId.map .str).getD .null),
    ("dispatch_state", .str (if b.sent then "sent" else "dispatching"))]

def bind (b : DispatchBinding) (descriptor : Members) : Members × Bool :=
  if get? descriptor "call_id" = some (.str b.callId) then
    (JsonValue.update descriptor b.entries, true)
  else (descriptor, false)

end DispatchBinding

def objectDescriptors (toolCalls : List JsonValue) : List Members :=
  toolCalls.filterMap (fun raw =>
    match raw with
    | .obj m => some m
    | _ => none)

/-- The outcome `merge_tool_dispatch` stores; `none` when no recorded call matches
or a group cannot be stored. -/
def mergeOutcome (b : DispatchBinding) : Option Members :=
  let outcome := request.outcomeDict
  let groups := readToolDispatchGroups outcome request.sessionId (some request.turnId)
  let ownerKey := (sessionId, resolveDispatchTurnId turnId request)
  match groups.find? (fun g => g.key = ownerKey) with
  | none => none
  | some owner =>
    let merged := (objectDescriptors owner.toolCalls).map b.bind
    if merged.any Prod.snd then
      writeToolDispatchGroups outcome (replaceDispatchGroup groups
          ⟨owner.sessionId, owner.turnId, merged.map (fun p => .obj p.1)⟩)
        (unreadableToolDispatchGroups outcome)
    else none

end Cognis.DirectTurn
