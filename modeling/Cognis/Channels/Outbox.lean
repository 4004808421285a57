import Mathlib.Data.String.Basic

/-! The row of one plain-text delivery in the channel delivery outbox, and its guarded
updates. -/

namespace Cognis.Channels

variable (row : Row) (token : Nat) (lastError : String) (now : Nat)

inductive RowStatus where
  | pending
  | sending
  | sent
  | failed
  | uncertain
  | suppressed
  deriving DecidableEq

/-- `ChannelCapabilities`; `others` is the text of the fields that are not read here. -/
structure Capabilities where
  maxMessageLength : Option Nat
  supportsIdempotentSend : Bool
  others : String
  deriving DecidableEq

structure Projection where
  channelType : String
  capabilities : Capabilities
  content : String
  deriving DecidableEq

structure Receipt where
  chunkIndex : Nat
  content : String
  externalMessageId : Option String
  deriving DecidableEq

/-- `ChannelDeliveryOutboxRow` without attachments and deliverable; an empty fallback
text stands for none. -/
structure Row where
  deliveryId : String
  sourceType : String
  channelType : String
  fallbackText : String
  status : RowStatus := .pending
  attemptCount : Nat := 0
  completedChunkCount : Nat := 0
  projectedChunkCount : Option Nat := none
  projectionDigest : Option Projection := none
  inflightChunkIndex : Option Nat := none
  inflightIdempotent : Option Bool := none
  deliveryReceipts : List Receipt := []
  nextAttemptAt : Option Nat
  leaseToken : Option Nat := none
  leaseExpiresAt : Option Nat := none
  lastError : Option String := none
  deriving DecidableEq

section

variable (splitMarkdown : String → Nat → List String)

def splitMessage (text : String) (maxLength : Option Nat) : List String :=
  match maxLength with
  | none => if text = "" then [] else [text]
  | some n => splitMarkdown text n

def Projection.chunks (p : Projection) : List String :=
  splitMessage splitMarkdown p.content p.capabilities.maxMessageLength

end

/-- `_DELIVERY_LEASE_DURATION`, in seconds. -/
def deliveryLeaseDuration : Nat := 120

namespace Row

def leased : Bool :=
  row.status == .sending && row.leaseToken == some token

def updateWhere (found : Bool) (values : Row → Row) : Bool × Row :=
  if found then (true, values row) else (false, row)

def release (status : RowStatus) : Row :=
  { row with status := status, leaseToken := none, leaseExpiresAt := none }

/-- `list_channel_delivery_outbox_due` lists the row. -/
def due : Bool :=
  (row.status == .pending || row.status == .failed) && row.nextAttemptAt.all fun t => t ≤ now

/-- `list_channel_delivery_outbox_stale_sending` lists the row. -/
def staleSending : Bool :=
  row.status == .sending && row.leaseExpiresAt.any fun t => t ≤ now

/-- `claim_channel_delivery_outbox`. -/
def claim (ignoreNextAttempt : Bool) : Bool × Row :=
  row.updateWhere ((row.status == .pending || row.status == .failed) &&
      (ignoreNextAttempt || row.nextAttemptAt.all fun t => t ≤ now))
    fun row =>
      { row with
        status := .sending
        leaseToken := some token
        leaseExpiresAt := some (now + deliveryLeaseDuration) }

/-- `mark_channel_delivery_sent`. -/
def markSent (requireCompleteChunks : Bool) : Bool × Row :=
  row.updateWhere (row.leased token &&
      (!requireCompleteChunks || row.projectedChunkCount == some row.completedChunkCount))
    fun row =>
      { row.release .sent with
        inflightChunkIndex := none
        inflightIdempotent := none
        lastError := none }

/-- `mark_channel_delivery_chunk_sent`. -/
def markChunkSent (completedChunkCount projectedChunkCount : Nat)
    (digest : Projection) (now : Nat) (receipt : Receipt) : Bool × Row :=
  row.updateWhere (row.leased token && row.completedChunkCount < completedChunkCount &&
      row.inflightChunkIndex == some (completedChunkCount - 1) &&
      row.projectionDigest.all fun p => p == digest)
    fun row =>
      { row with
        completedChunkCount := completedChunkCount
        projectedChunkCount := some projectedChunkCount
        projectionDigest := some digest
        inflightChunkIndex := none
        inflightIdempotent := none
        leaseExpiresAt := some (now + deliveryLeaseDuration)
        deliveryReceipts := row.deliveryReceipts ++ [receipt] }

/-- `mark_channel_delivery_chunk_inflight`. -/
def markChunkInflight (chunkIndex projectedChunkCount : Nat)
    (digest : Projection) (idempotent : Bool) (now : Nat) : Bool × Row :=
  row.updateWhere (row.leased token && row.completedChunkCount == chunkIndex &&
      (row.projectedChunkCount.all fun n => n == projectedChunkCount) &&
      (row.projectionDigest.all fun p => p == digest) &&
      row.inflightChunkIndex.all fun i => i == chunkIndex)
    fun row =>
      { row with
        projectedChunkCount := some projectedChunkCount
        projectionDigest := some digest
        inflightChunkIndex := some chunkIndex
        inflightIdempotent := some idempotent
        leaseExpiresAt := some (now + deliveryLeaseDuration) }

/-- `renew_channel_delivery_lease`. -/
def renewLease : Bool × Row :=
  row.updateWhere (row.leased token) fun row =>
    { row with leaseExpiresAt := some (now + deliveryLeaseDuration) }

/-- `recover_stale_channel_delivery`, of what the caller has observed. -/
def recoverStale (observed : Row) (now : Nat) : Bool × Row :=
  let uncertain := observed.inflightChunkIndex.isSome && observed.inflightIdempotent != some true
  row.updateWhere (row.status == .sending && row.leaseToken == observed.leaseToken &&
      row.leaseExpiresAt == observed.leaseExpiresAt &&
      (row.leaseExpiresAt.any fun t => t ≤ now) &&
      row.inflightChunkIndex == observed.inflightChunkIndex &&
      row.inflightIdempotent == observed.inflightIdempotent)
    fun row =>
      { row.release (if uncertain then .uncertain else .failed) with
        lastError :=
          some (if uncertain then "stale_non_idempotent_send" else "stale_sending_recovered")
        attemptCount := row.attemptCount + 1
        nextAttemptAt := if uncertain then row.nextAttemptAt else some now }

/-- `mark_channel_delivery_failed`; the next attempt is a minute away. -/
def markFailed : Bool × Row :=
  row.updateWhere (row.leased token) fun row =>
    { row.release .failed with
      attemptCount := row.attemptCount + 1
      lastError := some lastError
      nextAttemptAt := some (now + 60) }

/-- `mark_channel_delivery_permanent_failure`. -/
def markPermanentFailure : Bool × Row :=
  row.updateWhere (row.leased token) fun row =>
    { row.release .suppressed with
      attemptCount := row.attemptCount + 1
      lastError := some lastError }

/-- `mark_channel_delivery_uncertain`. -/
def markUncertain : Bool × Row :=
  row.updateWhere (row.leased token) fun row =>
    { row.release .uncertain with
      attemptCount := row.attemptCount + 1
      lastError := some lastError }

/-- `suppress_channel_delivery_outbox`, without a reason. -/
def suppress : Bool × Row :=
  row.updateWhere (row.status == .pending || row.status == .failed || row.status == .sending)
    fun row => { row.release .suppressed with lastError := none }

/-- `complete_pending_delivery` of the managed channels, as far as it touches the row;
`bindingOk` is what it checks of the binding and its link. -/
def completePendingDelivery (bindingOk : Bool) : Bool × Row :=
  row.updateWhere
    (row.leased token && bindingOk && row.projectedChunkCount == some row.completedChunkCount)
    fun row =>
      { row.release .sent with
        inflightChunkIndex := none
        inflightIdempotent := none
        lastError := none }

/-- `abandon_pending_delivery`, by the holder of a lease or as a timeout of a row that
is not being sent. -/
def abandonPendingDelivery (token : Option Nat) (bindingOk uncertain : Bool)
    (lastError : String) : Bool × Row :=
  row.updateWhere (bindingOk &&
      match token with
      | some token => row.leased token
      | none => row.status == .pending || row.status == .failed)
    fun row =>
      { row.release (if uncertain then .uncertain else .suppressed) with
        attemptCount :=
          if !uncertain || row.status == .sending then row.attemptCount + 1 else row.attemptCount
        lastError := some lastError }

/-- `reconcile_pending_deliveries`, as far as it touches the row. -/
def reconcilePendingDelivery (bindingOk : Bool) : Bool × Row :=
  row.updateWhere (bindingOk && row.status == .sending &&
      row.projectedChunkCount == some row.completedChunkCount)
    fun row =>
      { row.release .sent with
        inflightChunkIndex := none
        inflightIdempotent := none
        lastError := none }

end Row

end Cognis.Channels
