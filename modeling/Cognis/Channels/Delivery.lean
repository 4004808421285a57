import Cognis.Channels.Outbox
import Cognis.Library.Pool
import Cognis.Library.Program
import Cognis.Library.PythonText
import Cognis.Library.Runs

/-! The controllers that deliver one outbox row, await by await, and the channel that
accepts their chunks. -/

namespace Cognis.Channels

/-- `ChannelDeliveryStatus`. -/
inductive DeliveryStatus where
  | sent
  | incomplete
  | part
  | unavailable
  | failed
  | uncertain
  | permanent
  deriving DecidableEq

structure IdempotencyKey where
  deliveryId : String
  digest : Projection
  index : Nat
  deriving DecidableEq

/-- `OutboundMessage`, as far as it differs between the sends of one row. -/
structure OutboundMessage where
  content : String
  idempotencyKey : Option IdempotencyKey
  deriving DecidableEq

/-- How `send_message` ends; a failure carries the JSON text of its metadata. -/
inductive SendReply where
  | messageId (id : Option String)
  | signalFailure (metadata : String)
  | policyBlocked (metadata : String)
  | nonRetryable
  | error
  deriving DecidableEq

/-- What a check outside of the row says. -/
inductive Answer where
  | yes
  | no
  | raised
  deriving DecidableEq

inductive Update where
  | claim (token : Nat) (ignoreNextAttempt : Bool)
  | markSent (token : Nat) (requireCompleteChunks : Bool)
  | markChunkSent (token completedChunkCount projectedChunkCount : Nat) (digest : Projection)
      (receipt : Receipt)
  | markChunkInflight (token chunkIndex projectedChunkCount : Nat) (digest : Projection)
      (idempotent : Bool)
  | recoverStale (observed : Row) (now : Nat)
  | markFailed (token : Nat) (lastError : String)
  | markPermanentFailure (token : Nat) (lastError : String)
  | markUncertain (token : Nat) (lastError : String)
  | suppress
  | completePendingDelivery (token : Nat)
  | abandonPendingDelivery (token : Option Nat) (uncertain : Bool) (lastError : String)
  | reconcilePendingDelivery
  deriving DecidableEq

/-- What a transaction reads besides the row. -/
structure Env where
  now : Nat := 0
  bindingOk : Bool := true
  originActive : Bool := true

def originScoped (sourceType : String) : Bool :=
  ["delegation", "task_gate_follow_up", "task_result_follow_up"].contains sourceType

def Update.apply (env : Env) : Update → Row → Bool × Row
  | .claim token ignoreNextAttempt, row =>
    let claimed := row.claim token env.now ignoreNextAttempt
    if claimed.1 && originScoped row.sourceType && !env.originActive then
      (false, claimed.2.suppress.2)
    else claimed
  | .markSent token requireCompleteChunks, row => row.markSent token requireCompleteChunks
  | .markChunkSent token completed projected digest receipt, row =>
    row.markChunkSent token completed projected digest env.now receipt
  | .markChunkInflight token index projected digest idempotent, row =>
    row.markChunkInflight token index projected digest idempotent env.now
  | .recoverStale observed now, row => row.recoverStale observed now
  | .markFailed token lastError, row => row.markFailed token lastError env.now
  | .markPermanentFailure token lastError, row => row.markPermanentFailure token lastError
  | .markUncertain token lastError, row => row.markUncertain token lastError
  | .suppress, row => row.suppress
  | .completePendingDelivery token, row => row.completePendingDelivery token env.bindingOk
  | .abandonPendingDelivery token uncertain lastError, row =>
    row.abandonPendingDelivery token env.bindingOk uncertain lastError
  | .reconcilePendingDelivery, row => row.reconcilePendingDelivery env.bindingOk

/-- An await. -/
inductive Op where
  | ask
  /-- The final content in a task's result. -/
  | taskContent
  /-- `find_adapter_for_channel`, with the adapter's capabilities. -/
  | adapter
  | get
  | listStaleSending (now : Nat)
  | listDue (now : Nat)
  /-- No reply is an exception, that may come before or after the commit. -/
  | update (u : Update)
  | send (index : Nat) (message : OutboundMessage)
  deriving DecidableEq

abbrev Op.Reply : Op → Type
  | .ask => Answer
  | .taskContent => String
  | .adapter => Option Capabilities
  | .get => Row
  | .listStaleSending _ => Option Row
  | .listDue _ => Option Row
  | .update _ => Option (Bool × Row)
  | .send _ _ => SendReply

abbrev Delivery := Program Op Op.Reply

def ask : Delivery Answer := Program.perform Op.ask

def update (u : Update) : Delivery (Option (Bool × Row)) := Program.perform (Op.update u)

/-- A transaction of which it only matters whether it raises. -/
def commit (u : Update) : Delivery Bool := do
  return (← update u).isSome

/-- The last transaction of a call. -/
def finish (u : Update) : Delivery Unit := do
  let _ ← update u
  return ()

def isManaged (row : Row) : Bool := row.sourceType == "managed_channel_final"

def checkFence (applies : Bool) : Delivery Bool := do
  if !applies then return true
  match ← ask with
  | .yes => return true
  | .no =>
    finish .suppress
    return false
  | .raised => return false

variable (deliveryId : String) (s : System)

/-- `chunk_idempotent` of a chunk without media. -/
def chunkIdempotent (digest : Projection) : Bool :=
  digest.capabilities.supportsIdempotentSend && deliveryId != ""

def idempotencyKey (digest : Projection) (index : Nat) : Option IdempotencyKey :=
  if chunkIdempotent deliveryId digest then some ⟨deliveryId, digest, index⟩ else none

structure Outcome where
  status : DeliveryStatus
  failureMetadata : Option String := none
  deriving DecidableEq

section

variable (splitMarkdown : String → Nat → List String) (token : Nat) (row : Row)

/-- `save_chunk_start`; an exception in it ends the attempt as its refusal does. -/
def saveChunkStart (index projected : Nat) (digest : Projection) (idempotent : Bool) :
    Delivery Bool := do
  -- the heartbeat has not lost the lease
  if (← ask) != .yes then return false
  if !(← checkFence (row.sourceType == "project_task_result")) then return false
  if !(← checkFence (originScoped row.sourceType)) then return false
  if !(← checkFence (isManaged row)) then return false
  match ← update (.markChunkInflight token index projected digest idempotent) with
  | some (saved, _) => return saved
  | none => return false

/-- `except Exception` of a send. -/
def sendFailed (idempotent delivered : Bool) : Outcome :=
  if !idempotent then ⟨.uncertain, none⟩
  else if delivered then ⟨.part, none⟩
  else ⟨.failed, none⟩

/-- `isinstance(message_id, str) and message_id.strip()`. -/
def validMessageId (id : Option String) : Bool :=
  id.any fun id => id.toList.any fun c => !PythonText.isSpace c

def sendMessage (digest : Projection) (projected index : Nat) (chunk : String)
    (delivered : Bool) : Delivery (Option Outcome) := do
  let idempotent := chunkIdempotent row.deliveryId digest
  match ← Program.perform (Op.send index ⟨chunk, idempotencyKey row.deliveryId digest index⟩) with
  | .messageId id =>
    if (row.channelType == "signal" || idempotent) && !validMessageId id then
      return some (sendFailed idempotent delivered)
    else
      match ← update (.markChunkSent token (index + 1) projected digest ⟨index, chunk, id⟩) with
      | some (true, _) => return none
      | _ => return some ⟨if idempotent then .part else .uncertain, none⟩
  | .signalFailure metadata => return some ⟨.uncertain, some metadata⟩
  | .policyBlocked metadata => return some ⟨.permanent, some metadata⟩
  | .nonRetryable => return some ⟨.permanent, none⟩
  | .error => return some (sendFailed idempotent delivered)

def sendChunk (digest : Projection) (projected index : Nat) (chunk : String)
    (delivered : Bool) : Delivery (Option Outcome) := do
  let idempotent := chunkIdempotent row.deliveryId digest
  if !(← saveChunkStart token row index projected digest idempotent) then
    return some ⟨.failed, none⟩
  else if row.sourceType == "channel_recipient" then
    -- the route may have been bound or closed meanwhile
    match ← ask with
    | .yes => sendMessage token row digest projected index chunk delivered
    | .no => return some ⟨.permanent, none⟩
    | .raised => return some (sendFailed idempotent delivered)
  else sendMessage token row digest projected index chunk delivered

def sendChunks (digest : Projection) (projected : Nat) :
    (index : Nat) → (delivered : Bool) → List String → Delivery Outcome
  | _, delivered, [] => return ⟨if delivered then .sent else .failed, none⟩
  | index, delivered, chunk :: chunks => do
    match ← sendChunk token row digest projected index chunk delivered with
    | none => sendChunks digest projected (index + 1) true chunks
    | some outcome => return outcome

/-- `_send_to_route` without attachments and deliverable. -/
def sendToRoute (content : String) : Delivery Outcome := do
  match ← Program.perform Op.adapter with
  | none => return ⟨.unavailable, none⟩
  | some capabilities =>
    let digest : Projection := ⟨row.channelType, capabilities, content⟩
    let chunks := digest.chunks splitMarkdown
    let start := row.completedChunkCount
    if content = "" then return ⟨.failed, none⟩
    else if (row.projectionDigest.any fun p => p != digest) && 0 < start then
      return ⟨.uncertain, none⟩
    else if (row.projectedChunkCount.any fun n => n != chunks.length) && 0 < start then
      return ⟨.uncertain, none⟩
    else if chunks.length ≤ start && !chunks.isEmpty then return ⟨.sent, none⟩
    else sendChunks token row digest chunks.length start (0 < start) (chunks.drop start)

end

/-- The arguments of `_deliver_outbox` with what its controller is configured with; an
empty text stands for none. -/
structure DeliverCall where
  finalContent : String := ""
  fallbackText : String := ""
  ignoreNextAttempt : Bool := false
  managedService : Bool := false
  deriving DecidableEq

/-- `a or b`. -/
def orText (a b : String) : String := if a = "" then b else a

def managedDeliveryMaxAttempts : Nat := 3

/-- The text of `last_error` after an attempt. -/
def Outcome.lastError (o : Outcome) : String :=
  o.failureMetadata.getD <|
    match o.status with
    | .uncertain => "external_send_outcome_uncertain"
    | .permanent => "nonretryable_channel_failure"
    | .incomplete => "attachment_materialization_incomplete"
    | .unavailable => "channel_adapter_unavailable"
    | _ => "channel_send_failed"

def settlement (token : Nat) (row : Row) (managed : Bool) (o : Outcome) : Update :=
  if managed && o.status == .sent then .completePendingDelivery token
  else if managed && [DeliveryStatus.uncertain, .incomplete, .permanent].contains o.status then
    .abandonPendingDelivery (some token) (o.status == .uncertain) o.lastError
  else if managed && [DeliveryStatus.unavailable, .failed].contains o.status &&
      managedDeliveryMaxAttempts ≤ row.attemptCount + 1 then
    .abandonPendingDelivery (some token) false o.lastError
  else
    match o.status with
    | .sent => .markSent token true
    | .uncertain => .markUncertain token o.lastError
    | .permanent => .markPermanentFailure token o.lastError
    | _ => .markFailed token o.lastError

section

variable (splitMarkdown : String → Nat → List String) (token : Nat)

def deliverClaimed (row : Row) (content : String) (managedService : Bool) : Delivery Unit := do
  -- a managed row has to get the send lease of its binding
  match ← (if isManaged row then ask else pure .yes) with
  | .no => return ()
  | .raised => finish (settlement token row (isManaged row && managedService) ⟨.failed, none⟩)
  | .yes =>
    let outcome ← sendToRoute splitMarkdown token row content
    finish (settlement token row (isManaged row && managedService) outcome)

/-- `_deliver_outbox` without attachments and deliverable; an exception that nothing
catches ends it. -/
def deliverOutbox (c : DeliverCall) : Delivery Unit := do
  let pending ← Program.perform Op.get
  -- the manager owns the account, and no earlier progress of the conversation waits
  if (← ask) != .yes then return ()
  if (← ask) != .yes then return ()
  if !(← checkFence (isManaged pending)) then return ()
  match ← update (.claim token c.ignoreNextAttempt) with
  | some (true, row) =>
    if !(← checkFence (isManaged row)) then return ()
    let content := orText c.finalContent (orText c.fallbackText row.fallbackText)
    if content = "" then finish (.markSent token false)
    else deliverClaimed splitMarkdown token row content c.managedService
  | _ => return ()

def recoverStaleRow (observed : Option Row) (now : Nat) : Delivery Bool :=
  match observed with
  | none => return true
  | some observed =>
    if observed.leaseToken.isSome && observed.leaseExpiresAt.isSome then
      commit (.recoverStale observed now)
    else return true

def reconcilePendingDeliveries (managedService : Bool) : Delivery Bool :=
  if managedService then commit .reconcilePendingDelivery else return true

def abandonOverdue (row : Row) (managedService : Bool) : Delivery Bool := do
  if !(isManaged row && managedService) then return false
  else if (← ask) != .yes then return false
  else
    match ← update (.abandonPendingDelivery none false "channel_delivery_timeout") with
    | some (abandoned, _) => return abandoned
    | none => return true

/-- `recover_pending_deliveries`, as far as it is about the row. -/
def recoverPendingDeliveries (managedService : Bool) (now : Nat) : Delivery Unit := do
  if !(← reconcilePendingDeliveries managedService) then return ()
  let observed ← Program.perform (Op.listStaleSending now)
  if !(← recoverStaleRow observed now) then return ()
  if !(← reconcilePendingDeliveries managedService) then return ()
  match ← Program.perform (Op.listDue now) with
  | none => return ()
  | some row =>
    if ← abandonOverdue row managedService then return ()
    else
      let finalContent ←
        if row.sourceType == "task_final_result" then Program.perform Op.taskContent else pure ""
      deliverOutbox splitMarkdown token
        { finalContent := finalContent
          fallbackText := row.fallbackText
          managedService := managedService }

end

/-- A chunk the channel has taken. -/
structure Accepted where
  index : Nat
  content : String
  idempotencyKey : Option IdempotencyKey
  deriving DecidableEq

/-- A controller at work, by the lease token it uses. -/
structure Process where
  token : Nat
  rest : Delivery Unit

structure System where
  row : Row
  accepted : List Accepted
  processes : List Process
  nextToken : Nat

/-- What is decided outside of an await: the answers, the texts, whether a list shows the
row, whether a transaction raises and has been committed, how a send ends. -/
structure Oracle where
  answer : Answer := .yes
  taskContent : String := ""
  capabilities : Option Capabilities := none
  listed : Bool := true
  env : Env := {}
  raised : Bool := false
  committed : Bool := true
  reply : SendReply := .messageId none
  accepts : Bool := true

def accept (accepted : List Accepted) (index : Nat) (message : OutboundMessage) :
    List Accepted :=
  if message.idempotencyKey.isSome &&
      accepted.any fun a => a.idempotencyKey == message.idempotencyKey then accepted
  else accepted ++ [⟨index, message.content, message.idempotencyKey⟩]

def SendReply.taken (reply : SendReply) (accepts : Bool) : Bool :=
  match reply with
  | .messageId _ => true
  | _ => accepts

namespace System

def perform (oracle : Oracle) : (o : Op) → o.Reply × System
  | .ask => (oracle.answer, s)
  | .taskContent => (oracle.taskContent, s)
  | .adapter => (oracle.capabilities, s)
  | .get => (s.row, s)
  | .listStaleSending now =>
    (if oracle.listed && s.row.staleSending now then some s.row else none, s)
  | .listDue now => (if oracle.listed && s.row.due now then some s.row else none, s)
  | .update u =>
    let updated := u.apply oracle.env s.row
    if oracle.raised then (none, if oracle.committed then { s with row := updated.2 } else s)
    else (some updated, { s with row := updated.2 })
  | .send index message =>
    (oracle.reply,
      if oracle.reply.taken oracle.accepts then
        { s with accepted := accept s.accepted index message }
      else s)

def become (i : Nat) (x : Option Process) : System :=
  { s with processes := Pool.update s.processes i x }

def advance (i : Nat) (oracle : Oracle) (p : Process) : System :=
  match p.rest with
  | .done _ => s.become i none
  | .call o k => (s.perform oracle o).2.become i (some ⟨p.token, k (s.perform oracle o).1⟩)

def start (work : Nat → Delivery Unit) : System :=
  { s with
    processes := s.processes ++ [⟨s.nextToken, work s.nextToken⟩]
    nextToken := s.nextToken + 1 }

end System

inductive Event where
  | deliver (c : DeliverCall)
  | recover (managedService : Bool) (now : Nat)
  | advance (i : Nat) (oracle : Oracle)
  /-- The heartbeat of a delivery renews its lease. -/
  | heartbeat (i now : Nat)
  | kill (i : Nat)

def step (splitMarkdown : String → Nat → List String) (s : System) : Event → System
  | .deliver c => s.start fun token => deliverOutbox splitMarkdown token c
  | .recover managedService now =>
    s.start fun token => recoverPendingDeliveries splitMarkdown token managedService now
  | .advance i oracle =>
    match s.processes[i]? with
    | none => s
    | some p => s.advance i oracle p
  | .heartbeat i now =>
    match s.processes[i]? with
    | none => s
    | some p => { s with row := (s.row.renewLease p.token now).2 }
  | .kill i => s.become i none

def Row.created (sourceType channelType fallbackText : String)
    (nextAttemptAt : Option Nat) : Row where
  deliveryId := deliveryId
  sourceType := sourceType
  channelType := channelType
  fallbackText := fallbackText
  nextAttemptAt := nextAttemptAt

def System.created (row : Row) : System := ⟨row, [], [], 0⟩

end Cognis.Channels
