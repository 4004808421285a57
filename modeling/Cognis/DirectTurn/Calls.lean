import Cognis.DirectTurn.Store

namespace Cognis.DirectTurn

open JsonValue Coordination

def trustedEvidenceAdmissionKey : String := "trusted_evidence_admission"

def handoffPhase : String := "automatic_continuation_handoff"

/-- `value if isinstance(value, dict) else {}` for a dict read. -/
def dictAt (m : Members) (key : String) : Members :=
  match get? m key with
  | some (.obj d) => d
  | _ => []

/-- `m.get(key)`: a missing key and a stored null both read as none. -/
def getValue (m : Members) (key : String) : Option JsonValue :=
  match get? m key with
  | some .null => none
  | v => v

section

variable (db : Database)

/-- What a cancellation writes: idle work ends, active work is flagged. -/
def cancelValues (r : DirectTurnRequestRow) : RowValues :=
  if r.status.Claimable then
    { status := some .cancelled
      cancelRequestedAt := some (some db.now)
      terminalAt := some (some db.now)
      nextAttemptAt := some none
      updatedAt := db.now }
  else { cancelRequestedAt := some (some db.now), updatedAt := db.now }

def requestCancel (requestId : String) (r : DirectTurnRequestRow) : Option RowValues :=
  if r.requestId = requestId ∧ r.status.Nonterminal then some (cancelValues db r) else none

/-- The loop that follows committed handoffs from a request to its successor.
`none` is the missing `successor_request_id`; the fuel exceeds the number of
requests, and none is visited twice. -/
def followHandoffs (conversationId : String) :
    Nat → List String → Option DirectTurnRequestRow → Option (Option DirectTurnRequestRow)
  | 0, _, active => some active
  | _ + 1, _, none => some none
  | fuel + 1, seen, some a =>
    if a.conversationId = conversationId ∧ a.requestId ∉ seen ∧
        phaseOf a.outcomeDict = some handoffPhase then
      match get? a.outcomeDict "successor_request_id" with
      | none => none
      | some (.str successor) =>
        followHandoffs conversationId fuel (a.requestId :: seen) (db.find successor)
      | some _ => followHandoffs conversationId fuel (a.requestId :: seen) none
    else some (some a)

/-- The requests `cancel_conversation` stops; `none` raises. -/
def cancelTargets (conversationId : String) (clearQueue : Bool)
    (activeRequestId : Option String) : Option (List String) :=
  let rows := db.requests.filter (fun r => r.conversationId = conversationId ∧ r.status.Nonterminal)
  let ids := rows.map (·.requestId)
  if clearQueue then some ids
  else
    let given := (activeRequestId.filter (· ≠ "")).bind db.find
    let executing := rows.find? (fun r => r.status = .claimed ∨ r.status = .running)
    let handedOff := (db.requests.filter (fun r => r.conversationId = conversationId ∧
      r.status = .completed ∧ phaseOf r.outcomeDict = some handoffPhase)).getLast?
    (followHandoffs db conversationId (db.requests.length + 1) []
      ((given.or executing).or handedOff)).map fun active =>
        let listed := active.filter (fun a => a.requestId ∈ ids)
        if activeRequestId.isSome && active.isSome && listed.isNone then []
        else
          ((listed.or (rows.find? (fun r => r.status = .recoverable))).map (·.requestId)).toList

def cancelConversation (conversationId : String) (clearQueue : Bool)
    (activeRequestId : Option String) (r : DirectTurnRequestRow) : Option RowValues :=
  match cancelTargets db conversationId clearQueue activeRequestId with
  | none => none
  | some targets =>
    if r.requestId ∈ targets ∧ r.status.Nonterminal then some (cancelValues db r) else none

end

section

variable (c : Codec) (db : Database)

/-- `direct_turn_content_is_editable`. -/
def contentIsEditable (r : DirectTurnRequestRow) : Prop :=
  r.status = .queued ∧
    ¬ c.evidenceAdmitted
      ((get? (dictAt r.payload "metadata") trustedEvidenceAdmissionKey).getD .null)

instance (r : DirectTurnRequestRow) : Decidable (contentIsEditable c r) :=
  inferInstanceAs (Decidable (_ ∧ _))

/-- The payload `edit` proposes, with the admitted evidence carried over; `none` raises. -/
def editedPayload (payload : Members) (payloadVersion : Int) (r : DirectTurnRequestRow) :
    Option Members :=
  let currentAdmission := getValue (dictAt r.payload "metadata") trustedEvidenceAdmissionKey
  let proposedMetadata := dictAt payload "metadata"
  let proposedAdmission := getValue proposedMetadata trustedEvidenceAdmissionKey
  if ¬ contentIsEditable c r ∧ (getValue payload "content" ≠ getValue r.payload "content" ∨
        getValue payload "attachments" ≠ getValue r.payload "attachments") then none
  else if proposedAdmission ≠ none ∧ proposedAdmission ≠ currentAdmission then none
  else
    let metadata := match currentAdmission with
      | none => proposedMetadata
      | some a => insert proposedMetadata trustedEvidenceAdmissionKey a
    c.validatedPayload (insert payload "metadata" (.obj metadata)) payloadVersion

def edit (requestId : String) (payload : Members) (payloadVersion : Int)
    (expectedPayloadHash : Option String) (r : DirectTurnRequestRow) : Option RowValues :=
  if r.requestId = requestId ∧ r.status = .queued ∧
      (∀ h, expectedPayloadHash = some h → r.payloadHash = h) then
    (editedPayload c payload payloadVersion r).map fun p =>
      { payload := some p
        payloadHash := some (c.canonicalHash (.obj p))
        payloadVersion := some payloadVersion
        updatedAt := db.now }
  else none

/-- `row.session_id or outcome.get("session_id")`. -/
def retrySessionId (r : DirectTurnRequestRow) : Option JsonValue :=
  match r.sessionId.filter (· ≠ "") with
  | some s => some (.str s)
  | none => get? r.outcomeDict "session_id"

/-- Makes a provider-specific retry due; only the conversation's first
recoverable request is looked at. -/
def expediteProviderRetry (conversationId sessionId : String) (previousRuntimeRevision : Int)
    (r : DirectTurnRequestRow) : Option RowValues :=
  let head := db.requests.find?
    (fun r => r.conversationId = conversationId ∧ r.status = .recoverable)
  let target := dictAt r.outcomeDict "retry_target"
  if head.map (·.requestId) = some r.requestId ∧ r.status = .recoverable ∧
      retrySessionId r = some (.str sessionId) ∧
      get? target "scope" = some (.str "provider_model") ∧
      get? target "runtime_revision" = some (.num (toString previousRuntimeRevision)) ∧
      r.nextAttemptAt.isSome then
    some { nextAttemptAt := some (some db.now), updatedAt := db.now }
  else none

def completeFailureVisibility (requestId : String) (r : DirectTurnRequestRow) : Option RowValues :=
  if r.requestId = requestId ∧ r.status = .failed ∧
      phaseOf r.outcomeDict = some "permanent_payload_visibility_pending" then
    some { outcome := some (.obj [("phase", .str "permanent_payload_visibility_complete")])
           updatedAt := db.now }
  else none

end

/-- A predecessor to complete in the successor's admission transaction. -/
structure Handoff where
  requestId : String
  turnId : String
  lease : Lease
  deriving DecidableEq

section

variable (c : Codec) (db : Database)

def handoffOutcome (successor : DirectTurnRequestRow) : Members :=
  [("phase", .str handoffPhase), ("successor_request_id", .str successor.requestId),
    ("successor_turn_id", .str successor.turnId)]

def handoff (h : Handoff) (successor r : DirectTurnRequestRow) : Option RowValues :=
  if r.conversationId = successor.conversationId ∧ r.turnId = h.turnId then
    ownedFencedUpdate db h.requestId h.lease DirectTurnStatus.Active NotCancelled
      { status := some .completed
        outcome := some (.obj (handoffOutcome successor))
        terminalAt := some (some db.now)
        updatedAt := db.now } r
  else none

/-- `handoff` returns: it settles its predecessor or replays a committed handoff. -/
def HandoffReturns (h : Handoff) (successor : DirectTurnRequestRow) : Prop :=
  match db.find h.requestId with
  | none => False
  | some p => (handoff db h successor p).isSome = true ∨
    (p.conversationId = successor.conversationId ∧ p.turnId = h.turnId ∧
      p.status = .completed ∧ p.outcome = .obj (handoffOutcome successor))

instance (h : Handoff) (successor : DirectTurnRequestRow) :
    Decidable (HandoffReturns db h successor) :=
  match hf : db.find h.requestId with
  | none => isFalse (by simp [HandoffReturns, hf])
  | some p => decidable_of_iff
    ((handoff db h successor p).isSome = true ∨
      (p.conversationId = successor.conversationId ∧ p.turnId = h.turnId ∧
        p.status = .completed ∧ p.outcome = .obj (handoffOutcome successor)))
    (by simp only [HandoffReturns, hf])

structure Admission where
  conversationId : String
  sessionId : Option String
  agentId : String
  userId : String
  idempotencyScope : String
  idempotencyKey : String
  payload : Members
  payloadVersion : Int := 1
  generatedUserMessageMetadata : Bool := false
  requestId : String
  turnId : String
  /-- What the admission guard answers. -/
  guardAccepts : Bool := true
  /-- The transaction participant that completes a predecessor. -/
  predecessor : Option Handoff := none

def admissionDescriptorPayload (payload : Members) (generated : Bool) : Members :=
  match get? payload "metadata" with
  | some (.obj metadata) =>
    let kept := eraseKeys metadata [trustedEvidenceAdmissionKey]
    match generated, get? metadata "user_message_metadata" with
    | true, some (.obj envelope) =>
      insert payload "metadata"
        (.obj (insert kept "user_message_metadata" (.obj (eraseKeys envelope ["ts"]))))
    | _, _ => insert payload "metadata" (.obj kept)
  | _ => payload

variable (a : Admission)

def admissionDescriptor (payload : Members) (generated : Bool) : Members :=
  [("conversation_id", .str a.conversationId), ("agent_id", .str a.agentId),
    ("user_id", .str a.userId), ("payload_version", .num (toString a.payloadVersion)),
    ("payload", .obj (admissionDescriptorPayload payload generated))]

def admissionHash (payload : Members) : String :=
  c.canonicalHash (.obj (admissionDescriptor a payload a.generatedUserMessageMetadata ++
    [("generated_user_message_metadata", .bool a.generatedUserMessageMetadata)]))

def legacyAdmissionHash (payload : Members) : String :=
  c.canonicalHash (.obj (admissionDescriptor a payload false))

def newRequest (payload : Members) : DirectTurnRequestRow :=
  { admissionOrder := db.nextAdmissionOrder
    requestId := a.requestId
    turnId := a.turnId
    conversationId := a.conversationId
    sessionId := a.sessionId
    agentId := a.agentId
    userId := a.userId
    idempotencyScope := a.idempotencyScope
    idempotencyKey := a.idempotencyKey
    admissionHash := admissionHash c a payload
    payloadHash := c.canonicalHash (.obj payload)
    payloadVersion := a.payloadVersion
    payload := payload
    createdAt := db.now
    updatedAt := db.now }

def Conflicts (r : DirectTurnRequestRow) : Prop :=
  r.requestId = a.requestId ∨ r.turnId = a.turnId ∨
    (r.idempotencyScope = a.idempotencyScope ∧ r.idempotencyKey = a.idempotencyKey)

instance (a : Admission) : DecidablePred (Conflicts a) :=
  fun _ => inferInstanceAs (Decidable (_ ∨ _))

/-- `_admit_once` up to its participant: the row and whether it is new; `none` raises. -/
def admitOnce : Option (DirectTurnRequestRow × Bool) :=
  match c.validatedPayload a.payload a.payloadVersion with
  | none => none
  | some payload =>
    if a.guardAccepts = false then none
    else if ∃ r ∈ db.requests, Conflicts a r then
      match db.requests.find? (fun r =>
          r.idempotencyScope = a.idempotencyScope ∧ r.idempotencyKey = a.idempotencyKey) with
      | none => none
      | some r =>
        if r.admissionHash = admissionHash c a payload ∨
            r.admissionHash = legacyAdmissionHash c a payload then some (r, false)
        else none
    else some (newRequest c db a payload, true)

/-- `admit`: the request it returns, unless the transaction rolls back. -/
def admitRequest : Option (DirectTurnRequestRow × Bool) :=
  match admitOnce c db a, a.predecessor with
  | none, _ => none
  | some result, none => some result
  | some result, some h => if HandoffReturns db h result.1 then some result else none

end

structure DirectTurnRecoverySnapshot where
  conversationId : String
  status : DirectTurnStatus
  phase : String
  ownerControllerId : String
  ownerIncarnationId : String
  fencingToken : Nat
  updatedAt : Int
  phaseStartedAt : Option Int := none

structure OperatorRecovery where
  requestId : String
  actorEmail : String
  reason : String
  clientTransactionId : String
  expected : DirectTurnRecoverySnapshot

namespace OperatorRecovery

variable (c : Codec) (db : Database) (o : OperatorRecovery)

def digest : String := c.auditDigest o.actorEmail o.requestId o.clientTransactionId

def auditId : String := "audit_" ++ o.digest c

def recoveryOwner : String := "operator-recovery:" ++ o.digest c

/-- `OPERATOR_RECOVERY_LEASE_SECONDS`, in microseconds. -/
def leaseTtl : Int := 30000000

variable (r : DirectTurnRequestRow)

/-- `_outcome_datetime` of the recorded phase start. -/
def phaseStartedAt : Option Int :=
  match get? r.outcomeDict "phase_started_at" with
  | some (.str s) => c.fromisoformat s
  | _ => none

def Matches : Prop :=
  r.requestId = o.requestId ∧ r.status ≠ .ambiguous ∧ o.auditId c ∉ db.audits ∧
  r.conversationId = o.expected.conversationId ∧ r.status = o.expected.status ∧
  (phaseOf r.outcomeDict).getD "" = o.expected.phase ∧
  r.ownerControllerId = some o.expected.ownerControllerId ∧
  r.ownerIncarnationId = some o.expected.ownerIncarnationId ∧
  r.fencingToken = some o.expected.fencingToken ∧ r.updatedAt = o.expected.updatedAt ∧
  (o.expected.phaseStartedAt = none ∨ phaseStartedAt c r = o.expected.phaseStartedAt) ∧
  r.status.Active ∧ phaseOf r.outcomeDict = some toolInFlightPhase

instance (r : DirectTurnRequestRow) : Decidable (o.Matches c db r) :=
  inferInstanceAs (Decidable (_ ∧ _))

def recoveryLease : LeaseStore × Option Lease :=
  db.leases.acquireInSession (conversationLeaseKey r.conversationId) (o.recoveryOwner c) leaseTtl

/-- `resolve_stale_tool_ambiguous` on the request table. -/
def resolveStaleToolAmbiguous : Option RowValues :=
  if o.Matches c db r then
    (o.recoveryLease c db r).2.map fun lease =>
      { status := some .ambiguous
        ownerControllerId := some (some "operator-recovery")
        ownerIncarnationId := some (some (o.digest c))
        fencingToken := some (some lease.fencingToken)
        outcome := some (.obj [("phase", .str "ambiguous"), ("operator_recovery", .bool true),
          ("operator_recovery_reason", .str o.reason),
          ("operator_recovery_transaction_id", .str o.clientTransactionId),
          ("operator_recovery_actor", .str o.actorEmail),
          ("call_id", (get? r.outcomeDict "call_id").getD .null),
          ("call_ids", (get? r.outcomeDict "call_ids").getD .null),
          ("resolved_at", .str (c.isoformat db.now))])
        terminalAt := some (some db.now)
        updatedAt := db.now }
  else none

def leasesAfter : LeaseStore :=
  match db.find o.requestId with
  | none => db.leases
  | some r =>
    if o.Matches c db r then
      match (o.recoveryLease c db r).2 with
      | none => db.leases
      | some lease => ((o.recoveryLease c db r).1.release lease).1
    else db.leases

end OperatorRecovery

end Cognis.DirectTurn
