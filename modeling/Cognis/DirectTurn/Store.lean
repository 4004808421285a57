import Cognis.Coordination.Lease
import Cognis.DirectTurn.Dispatch

namespace Cognis.DirectTurn

open JsonValue Coordination

/-- The tables the store reads and writes; `leases` also carries the database
clock. Requests stand in admission order. -/
structure Database where
  leases : LeaseStore
  requests : List DirectTurnRequestRow
  /-- The identity sequence of `admission_order`. -/
  nextAdmissionOrder : Nat
  /-- Ids of the audit rows operator recovery has written. -/
  audits : List String

namespace Database

def empty : Database := ⟨LeaseStore.empty, [], 1, []⟩

variable (db : Database)

def now : Int := db.leases.now

def wait (elapsed : Nat) : Database := { db with leases := db.leases.wait elapsed }

def find (requestId : String) : Option DirectTurnRequestRow :=
  db.requests.find? (fun r => r.requestId = requestId)

def HasOpenPredecessor (r : DirectTurnRequestRow) : Prop :=
  ∃ e ∈ db.requests, e.conversationId = r.conversationId ∧
    e.admissionOrder < r.admissionOrder ∧ e.status.Nonterminal

instance (db : Database) (r : DirectTurnRequestRow) : Decidable (db.HasOpenPredecessor r) :=
  inferInstanceAs (Decidable (∃ e ∈ db.requests, _))

end Database

/-- The lease names the row's conversation and `_lease_predicate` holds of it. -/
def LeaseCurrent (db : Database) (lease : Lease) (r : DirectTurnRequestRow) : Prop :=
  lease.resourceKey = conversationLeaseKey r.conversationId ∧ db.leases.isCurrent lease = true

def OwnedBy (lease : Lease) (r : DirectTurnRequestRow) : Prop :=
  (match r.ownerControllerId, r.ownerIncarnationId with
    | some c, some i => lease.ownerId = ownerId c i
    | _, _ => False) ∧
  r.fencingToken = some lease.fencingToken

def Outdated (lease : Lease) (r : DirectTurnRequestRow) : Prop :=
  match r.fencingToken with
  | some token => token < lease.fencingToken
  | none => False

instance (db : Database) (lease : Lease) (r : DirectTurnRequestRow) :
    Decidable (LeaseCurrent db lease r) := inferInstanceAs (Decidable (_ ∧ _))

instance (lease : Lease) (r : DirectTurnRequestRow) : Decidable (OwnedBy lease r) :=
  have : Decidable (match r.ownerControllerId, r.ownerIncarnationId with
      | some c, some i => lease.ownerId = ownerId c i
      | _, _ => False) :=
    match r.ownerControllerId, r.ownerIncarnationId with
    | some c, some i => inferInstanceAs (Decidable (lease.ownerId = ownerId c i))
    | some _, none => inferInstanceAs (Decidable False)
    | none, some _ => inferInstanceAs (Decidable False)
    | none, none => inferInstanceAs (Decidable False)
  inferInstanceAs (Decidable (_ ∧ _))

instance (lease : Lease) (r : DirectTurnRequestRow) : Decidable (Outdated lease r) :=
  match h : r.fencingToken with
  | some token => decidable_of_iff (token < lease.fencingToken) (by simp [Outdated, h])
  | none => isFalse (by simp [Outdated, h])

section

variable (db : Database) (requestId : String) (lease : Lease) (statuses : DirectTurnStatus → Prop)

/-- `_fenced_update`: values for the picked row of the lease's conversation. -/
def fencedUpdate [DecidablePred statuses]
    (values : RowValues) (enforceFifo : Bool) (r : DirectTurnRequestRow) : Option RowValues :=
  if r.requestId = requestId ∧ statuses r.status ∧ LeaseCurrent db lease r ∧
      (enforceFifo = true → ¬ db.HasOpenPredecessor r) then some values
  else none

/-- `_owned_fenced_update`: the same for a row the lease owns. -/
def ownedFencedUpdate [DecidablePred statuses]
    (predicate : DirectTurnRequestRow → Prop) [DecidablePred predicate]
    (values : RowValues) (r : DirectTurnRequestRow) : Option RowValues :=
  if r.requestId = requestId ∧ statuses r.status ∧ LeaseCurrent db lease r ∧ OwnedBy lease r ∧
      predicate r then some values
  else none

/-- The statement the stale-recovery methods share: the row is held by an older
fence of the lease's conversation. -/
def staleUpdate [DecidablePred statuses]
    (predicate : DirectTurnRequestRow → Prop) [DecidablePred predicate]
    (values : RowValues) (r : DirectTurnRequestRow) : Option RowValues :=
  if r.requestId = requestId ∧ statuses r.status ∧ LeaseCurrent db lease r ∧ Outdated lease r ∧
      predicate r then some values
  else none

/-- A writer of the outcome of a live row the lease owns (`_owns_live_fence`). -/
def outcomeUpdate (outcome : DirectTurnRequestRow → Option Members) (r : DirectTurnRequestRow) :
    Option RowValues :=
  if r.requestId = requestId ∧ r.status.Active ∧ LeaseCurrent db lease r ∧ OwnedBy lease r then
    (outcome r).map fun o => { outcome := some (.obj o), updatedAt := db.now }
  else none

end

/-- `cancel_requested_at IS NULL`. -/
def NotCancelled (r : DirectTurnRequestRow) : Prop := r.cancelRequestedAt = none

instance : DecidablePred NotCancelled :=
  fun r => inferInstanceAs (Decidable (r.cancelRequestedAt = none))

/-- `outcome` as a column value: no dict is stored as null. -/
def column (outcome : Option Members) : JsonValue := (outcome.map .obj).getD .null

section

variable (c : Codec) (db : Database) (requestId : String) (lease : Lease)

def claim (controllerId incarnationId : String) (sessionId : Option String) :
    DirectTurnRequestRow → Option RowValues :=
  fun r =>
    if lease.ownerId ≠ ownerId controllerId incarnationId then none
    else fencedUpdate db requestId lease DirectTurnStatus.Claimable
      { status := some .claimed
        ownerControllerId := some (some controllerId)
        ownerIncarnationId := some (some incarnationId)
        fencingToken := some (some lease.fencingToken)
        nextAttempt := true
        claimedAt := some (some db.now)
        startedAt := some none
        terminalAt := some none
        nextAttemptAt := some none
        sessionId := sessionId.map some
        updatedAt := db.now } true r

def recoverStaleClaim (outcome : Option Members) : DirectTurnRequestRow → Option RowValues :=
  staleUpdate db requestId lease (· = .claimed) NotCancelled
    { status := some .recoverable
      ownerControllerId := some none
      ownerIncarnationId := some none
      outcome := some (column outcome)
      updatedAt := db.now }

def markStaleAmbiguous (outcome : Members) : DirectTurnRequestRow → Option RowValues :=
  staleUpdate db requestId lease (fun s => s = .running ∨ s = .absorbing) NotCancelled
    { status := some .ambiguous
      outcome := some (.obj outcome)
      terminalAt := some (some db.now)
      updatedAt := db.now }

def reconcileStaleAbsorbed : DirectTurnRequestRow → Option RowValues :=
  staleUpdate db requestId lease (· = .absorbing) NotCancelled
    { status := some .absorbed
      outcome := some (.obj [("phase", .str "reconciled_absorbed")])
      terminalAt := some (some db.now)
      updatedAt := db.now }

def reconcileStaleCompleted (outcome : Members) : DirectTurnRequestRow → Option RowValues :=
  staleUpdate db requestId lease (· = .running) NotCancelled
    { status := some .completed
      outcome := some (.obj outcome)
      terminalAt := some (some db.now)
      updatedAt := db.now }

def cancelStaleActive : DirectTurnRequestRow → Option RowValues :=
  staleUpdate db requestId lease DirectTurnStatus.Active (fun r => ¬ NotCancelled r)
    { status := some .cancelled
      ownerControllerId := some none
      ownerIncarnationId := some none
      outcome := some (.obj [("phase", .str "cancelled"),
        ("reason", .str "stale owner cancellation recovered")])
      terminalAt := some (some db.now)
      updatedAt := db.now }

def recoverStaleAbsorbing : DirectTurnRequestRow → Option RowValues :=
  staleUpdate db requestId lease (· = .absorbing) NotCancelled
    { status := some .recoverable
      ownerControllerId := some none
      ownerIncarnationId := some none
      absorbedByTurnId := some none
      outcome := some (.obj [("phase", .str "recovered_uncommitted_absorb")])
      updatedAt := db.now }

def recoverStaleRunning (outcome : Members) : DirectTurnRequestRow → Option RowValues :=
  staleUpdate db requestId lease (· = .running) NotCancelled
    { status := some .recoverable
      ownerControllerId := some none
      ownerIncarnationId := some none
      outcome := some (.obj outcome)
      updatedAt := db.now }

def markRunning : DirectTurnRequestRow → Option RowValues :=
  ownedFencedUpdate db requestId lease (· = .claimed) (fun _ => True)
    { status := some .running
      startedAt := some (some db.now)
      updatedAt := db.now }

/-- Absorption takes work out of its FIFO order. -/
def beginAbsorb (controllerId incarnationId absorbedByTurnId : String)
    (sessionId : Option String) : DirectTurnRequestRow → Option RowValues :=
  fun r =>
    if lease.ownerId ≠ ownerId controllerId incarnationId then none
    else fencedUpdate db requestId lease DirectTurnStatus.Claimable
      { status := some .absorbing
        ownerControllerId := some (some controllerId)
        ownerIncarnationId := some (some incarnationId)
        fencingToken := some (some lease.fencingToken)
        nextAttempt := true
        absorbedByTurnId := some (some absorbedByTurnId)
        outcome := some (.obj [("phase", .str "canonical_user_append"),
          ("phase_started_at", .str (c.isoformat db.now)),
          ("session_id", (sessionId.map .str).getD .null)])
        claimedAt := some (some db.now)
        updatedAt := db.now } false r

/-- `_mark_terminal`. -/
def markTerminalFrom (statuses : DirectTurnStatus → Prop) [DecidablePred statuses]
    (terminalStatus : DirectTurnStatus) (outcome : Option Members) :
    DirectTurnRequestRow → Option RowValues :=
  ownedFencedUpdate db requestId lease statuses (fun _ => True)
    { status := some terminalStatus
      outcome := some (column outcome)
      terminalAt := some (some db.now)
      updatedAt := db.now }

def markAbsorbed : DirectTurnRequestRow → Option RowValues :=
  markTerminalFrom db requestId lease (· = .absorbing) .absorbed none

def markTerminal (status : DirectTurnStatus) (outcome : Option Members) :
    DirectTurnRequestRow → Option RowValues :=
  fun r =>
    if status = .completed ∨ status = .failed ∨ status = .cancelled ∨ status = .ambiguous then
      markTerminalFrom db requestId lease DirectTurnStatus.Active status outcome r
    else none

/-- The one return to the FIFO that does not look at `cancel_requested_at`. -/
def markRecoverable (outcome : Option Members) : DirectTurnRequestRow → Option RowValues :=
  ownedFencedUpdate db requestId lease DirectTurnStatus.Active (fun _ => True)
    { status := some .recoverable
      ownerControllerId := some none
      ownerIncarnationId := some none
      outcome := some (column outcome)
      updatedAt := db.now }

def settleTransientFailure (outcome : Members) (retryAfter : Option Int) :
    DirectTurnRequestRow → Option RowValues :=
  ownedFencedUpdate db requestId lease DirectTurnStatus.Active NotCancelled
    { status := some .recoverable
      ownerControllerId := some none
      ownerIncarnationId := some none
      outcome := some (.obj outcome)
      nextAttemptAt := some (retryAfter.map (db.now + ·))
      terminalAt := some none
      updatedAt := db.now }

def markToolRecoveryTerminal (status : DirectTurnStatus) (outcome : Members) :
    DirectTurnRequestRow → Option RowValues :=
  fun r =>
    if status = .failed ∨ status = .ambiguous then
      ownedFencedUpdate db requestId lease DirectTurnStatus.Active (fun _ => True)
        { status := some status
          outcome := some (.obj outcome)
          terminalAt := some (some db.now)
          updatedAt := db.now } r
    else none

def finishToolRecovery (outcome : Members) : DirectTurnRequestRow → Option RowValues :=
  fun r =>
    ownedFencedUpdate db requestId lease DirectTurnStatus.Active (fun _ => True)
      (if r.cancelRequestedAt = none then
        { status := some .recoverable
          outcome := some (.obj outcome)
          ownerControllerId := some none
          ownerIncarnationId := some none
          fencingToken := some none
          updatedAt := db.now }
      else
        { status := some .cancelled
          outcome := some (.obj [("phase", .str "cancelled"),
            ("reason", .str "cancelled during tool recovery")])
          terminalAt := some (some db.now)
          ownerControllerId := some none
          ownerIncarnationId := some none
          fencingToken := some none
          updatedAt := db.now }) r

/-- A text entry of the outcome, or `now` rendered when it holds none. -/
def keptText (outcome : Members) (key fresh : String) : JsonValue :=
  match get? outcome key with
  | some (.str s) => .str s
  | _ => .str fresh

def beginToolRecovery (controllerId incarnationId : String) (deadline : Int) :
    DirectTurnRequestRow → Option RowValues :=
  fun r =>
    if lease.ownerId ≠ ownerId controllerId incarnationId then none
    else staleUpdate db requestId lease DirectTurnStatus.Active
      (fun r => get? r.outcomeDict "phase" = some (.str toolInFlightPhase))
      { ownerControllerId := some (some controllerId)
        ownerIncarnationId := some (some incarnationId)
        fencingToken := some (some lease.fencingToken)
        outcome := some (.obj (JsonValue.update r.outcomeDict
          [("recovery_started_at",
            keptText r.outcomeDict "recovery_started_at" (c.isoformat db.now)),
            ("recovery_deadline_at", keptText r.outcomeDict "recovery_deadline_at"
              (c.isoformat (db.now + max 1000000 deadline)))]))
        updatedAt := db.now } r

def checkpoint (phase : String) (metadata : Members) (clearToolDispatch : Bool) :
    DirectTurnRequestRow → Option RowValues :=
  outcomeUpdate db requestId lease
    (fun r => checkpointOutcome r (c.isoformat db.now) phase metadata clearToolDispatch)

variable (sessionId : String) (turnId : Option String)

def recordToolDispatch
    (descriptors : List JsonValue) (metadata : Members) : DirectTurnRequestRow → Option RowValues :=
  outcomeUpdate db requestId lease
    (fun r => recordOutcome r (c.isoformat db.now) sessionId turnId descriptors metadata)

def completeToolDispatch (callIds : List String)
    (metadata : Members) : DirectTurnRequestRow → Option RowValues :=
  outcomeUpdate db requestId lease
    (fun r => completeOutcome r (c.isoformat db.now) sessionId turnId callIds metadata)

def mergeToolDispatch (b : DispatchBinding) :
    DirectTurnRequestRow → Option RowValues :=
  outcomeUpdate db requestId lease
    (fun r => if r.cancelRequestedAt = none then mergeOutcome r sessionId turnId b else none)

end

end Cognis.DirectTurn
