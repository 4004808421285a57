import Mathlib.Data.List.FinRange
import Mathlib.Data.String.Basic

namespace Cognis.ClusterSignals

inductive ClusterSignalKind
  | chatScopeChanged
  | channelOutboxChanged
  | taskProgressChanged
  | taskQueueChanged
  | notificationStateChanged
  | inboxChanged
  | scheduleActionChanged
  | executorStateChanged
  | executorMonitorChanged
  | sidebarChanged
  | eventStoreSessionInvalidated
  | workInvalidated
  | turnCancelRequested
  deriving DecidableEq

inductive ClusterEventStoreId
  | intaris
  deriving DecidableEq

structure ClusterSignalScope where
  conversationId : Option String := none
  sessionId : Option String := none
  taskId : Option String := none
  scheduleId : Option String := none
  stepRunId : Option String := none
  notificationId : Option String := none
  executorId : Option String := none
  ownerToken : Option String := none
  eventStoreId : Option ClusterEventStoreId := none
  eventSessionToken : Option String := none
  workScopeKey : Option String := none
  workMaterialized : Option Bool := none
  directRequestId : Option String := none
  deriving DecidableEq

/-- A signal as the JSON decoder returns it, before the field checks. -/
structure ClusterSignal where
  version : Int := 1
  kind : ClusterSignalKind
  originControllerId : String
  scope : ClusterSignalScope
  revision : String
  deriving DecidableEq

def lengthWithin (lower upper : Nat) (value : String) : Bool :=
  lower ≤ value.length && value.length ≤ upper

/-- A text field that is present counts as true unless it is empty. -/
def truthy (value : Option String) : Bool := value.any (· != "")

namespace ClusterSignalScope

variable (scope : ClusterSignalScope)

def fieldsValid : Bool :=
  scope.conversationId.all (lengthWithin 0 160) && scope.sessionId.all (lengthWithin 0 160) &&
    scope.taskId.all (lengthWithin 0 160) && scope.scheduleId.all (lengthWithin 0 160) &&
    scope.stepRunId.all (lengthWithin 0 160) && scope.notificationId.all (lengthWithin 0 160) &&
    scope.executorId.all (lengthWithin 0 160) && scope.ownerToken.all (lengthWithin 32 64) &&
    scope.eventSessionToken.all (lengthWithin 64 64) &&
    scope.workScopeKey.all (lengthWithin 1 320) &&
    scope.directRequestId.all (lengthWithin 1 160)

/-- Some field other than the two of the event store counts as true. -/
def hasIdentity : Bool :=
  truthy scope.conversationId || truthy scope.sessionId || truthy scope.taskId ||
    truthy scope.scheduleId || truthy scope.stepRunId || truthy scope.notificationId ||
    truthy scope.executorId || truthy scope.ownerToken || truthy scope.workScopeKey ||
    scope.workMaterialized == some true || truthy scope.directRequestId

end ClusterSignalScope

namespace ClusterSignal

def validateEventStoreScope (signal : ClusterSignal) : Bool :=
  if signal.kind = .eventStoreSessionInvalidated then
    signal.scope.eventStoreId.isSome && signal.scope.eventSessionToken.isSome &&
      !signal.scope.hasIdentity
  else
    signal.scope.eventStoreId.isNone && signal.scope.eventSessionToken.isNone

def valid (signal : ClusterSignal) : Bool :=
  signal.version == 1 && lengthWithin 1 160 signal.originControllerId &&
    lengthWithin 1 160 signal.revision && signal.scope.fieldsValid &&
    signal.validateEventStoreScope

end ClusterSignal

/-- What a signal says, without its origin: the key of the dedup table, which renders the scope
as JSON, and the data of the event that is emitted, which holds it as a dict. -/
structure Invalidation where
  kind : ClusterSignalKind
  scope : ClusterSignalScope
  revision : String
  deriving DecidableEq

def ClusterSignal.invalidation (signal : ClusterSignal) : Invalidation :=
  ⟨signal.kind, signal.scope, signal.revision⟩

inductive LaneKey
  | conversation (id : String)
  | task (id : String)
  | notification (id : String)
  | event (token : String)
  | work (key : String)
  | scope (scope : ClusterSignalScope)
  deriving DecidableEq

def dispatchLaneKey (scope : ClusterSignalScope) : LaneKey :=
  if truthy scope.conversationId then .conversation (scope.conversationId.getD "")
  else if truthy scope.taskId then .task (scope.taskId.getD "")
  else if truthy scope.notificationId then .notification (scope.notificationId.getD "")
  else if truthy scope.eventSessionToken then .event (scope.eventSessionToken.getD "")
  else if truthy scope.workScopeKey then .work (scope.workScopeKey.getD "")
  else .scope scope

def maxPayloadBytes : Nat := 2048
def maxPendingSignals : Nat := 512
def maxDedupEntries : Nat := 2048
def maxDispatchConcurrency : Nat := 32
def maxDispatchLanes : Nat := 2048

/-- A dispatch worker waits for a signal, waits for the lock of the signal's lane, or emits the
signal and holds the lock. -/
inductive Worker
  | idle
  | waiting (signal : ClusterSignal) (lock : Nat)
  | emitting (signal : ClusterSignal) (lock : Nat)
  deriving DecidableEq

def Worker.signal : Worker → Option ClusterSignal
  | .idle => none
  | .waiting signal _ => some signal
  | .emitting signal _ => some signal

def Worker.held : Worker → Option Nat
  | .emitting _ lock => some lock
  | _ => none

/-- The service with its dedup table, the oldest key first, and two histories: the keys that
were put into the queue and the events on the local bus. -/
structure Service where
  controllerId : String
  pending : List ClusterSignal := []
  dedup : List Invalidation := []
  dispatchLocks : List (LaneKey × Nat) := []
  nextLock : Nat := 0
  workers : Fin maxDispatchConcurrency → Worker := fun _ => .idle
  put : List Invalidation := []
  bus : List Invalidation := []

namespace Service

variable (decode : String → Option ClusterSignal)

/-- The signal of a payload that another controller sent, when the payload is valid. The JSON
decoder is a parameter. -/
def admitted (s : Service) (payload : String) :
    Option ClusterSignal :=
  if maxPayloadBytes < payload.utf8ByteSize then none
  else (decode payload).filter fun signal =>
    signal.valid && signal.originControllerId != s.controllerId

def remember (dedup : List Invalidation) (key : Invalidation) : List Invalidation :=
  (dedup ++ [key]).drop ((dedup ++ [key]).length - maxDedupEntries)

def receivePayload (s : Service) (payload : String) :
    Service :=
  match s.admitted decode payload with
  | none => s
  | some signal =>
    let key := signal.invalidation
    if s.dedup.contains key then { s with dedup := s.dedup.erase key ++ [key] }
    else
      let s := { s with dedup := remember s.dedup key }
      if s.pending.length < maxPendingSignals then
        { s with pending := s.pending ++ [signal], put := s.put ++ [key] }
      else s

variable (s : Service)

def locked (lock : Nat) : Bool :=
  (List.finRange maxDispatchConcurrency).any fun i => (s.workers i).held == some lock

/-- Drops lanes that are not locked, at most `n` of them and never `lane`. -/
def evictLanes (locked : Nat → Bool) (lane : LaneKey) :
    Nat → List (LaneKey × Nat) → List (LaneKey × Nat)
  | 0, table => table
  | n + 1, table =>
    match table.findIdx? fun entry => entry.1 != lane && !locked entry.2 with
    | none => table
    | some i => evictLanes locked lane n (table.eraseIdx i)

def laneLock (lane : LaneKey) : Nat × List (LaneKey × Nat) × Nat :=
  match s.dispatchLocks.lookup lane with
  | some lock =>
    (lock, (s.dispatchLocks.filter fun entry => entry.1 != lane) ++ [(lane, lock)], s.nextLock)
  | none =>
    let table := s.dispatchLocks ++ [(lane, s.nextLock)]
    (s.nextLock, evictLanes s.locked lane (table.length - maxDispatchLanes) table,
      s.nextLock + 1)

variable (i : Fin maxDispatchConcurrency)

def setWorker (w : Worker) : Service :=
  { s with workers := fun j => if j = i then w else s.workers j }

def dispatchSignal (signal : ClusterSignal) :
    Service :=
  let (lock, table, nextLock) := s.laneLock (dispatchLaneKey signal.scope)
  let s := { s with dispatchLocks := table, nextLock }
  if s.locked lock then s.setWorker i (.waiting signal lock)
  else s.setWorker i (.emitting signal lock)

def emitLocal (signal : ClusterSignal) : Service :=
  { s with bus := s.bus ++ [signal.invalidation] }

/-- What worker `i` does next; a worker that can only wait leaves the state as it is. -/
def dispatchWorker : Service :=
  match s.workers i with
  | .idle =>
    match s.pending with
    | [] => s
    | signal :: rest => { s with pending := rest }.dispatchSignal i signal
  | .waiting signal lock =>
    if s.locked lock then s else s.setWorker i (.emitting signal lock)
  | .emitting signal _ => (s.emitLocal signal).setWorker i .idle

end Service

inductive Event
  | receive (payload : String)
  | worker (i : Fin maxDispatchConcurrency)

def step (decode : String → Option ClusterSignal) (s : Service) : Event → Service
  | .receive payload => s.receivePayload decode payload
  | .worker i => s.dispatchWorker i

end Cognis.ClusterSignals
