import Cognis.Library.JsonValue
import Cognis.Library.Pool
import Cognis.Library.Program
import Cognis.Library.Runs

/-! The event log of a session, as the guardrails service keeps it: appends are atomic,
sequence numbers increase, and a repeated idempotency key appends nothing. -/

namespace Cognis.ToolSettlement

open JsonValue (Members get?)

structure SessionEvent where
  type : String
  data : Members
  deriving DecidableEq

structure LogEntry where
  seq : Nat
  type : String
  data : JsonValue
  deriving DecidableEq

structure EventAppendResult where
  ok : Bool
  count : Nat
  firstSeq : Nat
  lastSeq : Nat
  deriving DecidableEq

structure EventReadResult where
  events : List LogEntry
  hasMore : Bool
  deriving DecidableEq

structure EventLog where
  entries : List LogEntry
  lastSeq : Nat
  ledger : List (String × EventAppendResult)

def EventLog.empty : EventLog := ⟨[], 0, []⟩

variable (log : EventLog)

/-- Append an entry, leaving `gap` sequence numbers out. -/
def EventLog.append (gap : Nat) (type : String) (data : JsonValue)
    (key : Option String) : EventAppendResult × EventLog :=
  let seq := log.lastSeq + 1 + gap
  let result : EventAppendResult := ⟨true, 1, seq, seq⟩
  (result,
    { entries := log.entries ++ [⟨seq, type, data⟩]
      lastSeq := seq
      ledger := (key.map fun k => (k, result)).toList ++ log.ledger })

/-- `record_events` with one event. -/
def EventLog.record (gap : Nat) (type : String) (data : JsonValue)
    (key : Option String) : EventAppendResult × EventLog :=
  match key.bind fun k => log.ledger.lookup k with
  | some result => (result, log)
  | none => log.append gap type data key

/-- `read_events` after a sequence number, where a reader may not see every entry yet. -/
def EventLog.readAfter (visible : Nat → Bool) (afterSeq limit : Nat) : EventReadResult :=
  let found := log.entries.filter fun e => afterSeq < e.seq && visible e.seq
  ⟨found.take limit, limit < found.length⟩

/-- `read_events` of one sequence number. -/
def EventLog.readSeq (visible : Nat → Bool) (seq : Nat) : List LogEntry :=
  (log.entries.filter fun e => e.seq == seq && visible e.seq).take 1

/-- `next_event_page_after_seq`; `error` is the pagination error. -/
def nextEventPageAfterSeq (page : EventReadResult) (afterSeq : Nat) : Except Unit (Option Nat) :=
  if !page.hasMore then .ok none
  else
    let next := (page.events.map (·.seq)).foldl max afterSeq
    if next ≤ afterSeq then .error () else .ok (some next)

structure Descriptor where
  sessionId : String
  turnId : String
  callId : String
  toolName : String
  deriving DecidableEq

section

variable (d : Descriptor)

def toolResultIdempotencyKey : String :=
  d.sessionId ++ ":turn:" ++ d.turnId ++ ":tool-result:" ++ d.callId

def toolCallRepairIdempotencyKey : String :=
  d.sessionId ++ ":turn:" ++ d.turnId ++ ":tool-call-repair:" ++ d.callId

def toolCallRepairReconciliationIdempotencyKey (acknowledgedSeq : Nat) : String :=
  d.sessionId ++ ":turn:" ++ d.turnId ++ ":tool-call-repair-reconcile:" ++ d.callId ++ ":" ++
    toString acknowledgedSeq

end

inductive SettlementError where
  /-- `CanonicalToolHistoryError`. -/
  | history (message : String)
  /-- `CanonicalToolRepairUnavailable`, with the result event once it is known. -/
  | repairUnavailable (callEvent : SessionEvent) (appendResult : EventAppendResult)
      (resultEvent : Option SessionEvent)
  | runtime (message : String)
  /-- The call is cancelled, or ends before its history scan does. -/
  | cancelled
  deriving DecidableEq

/-- An await of the settlement. -/
inductive Op where
  | readAfter (afterSeq limit : Nat)
  | readSeq (seq : Nat)
  | record (event : SessionEvent) (key : String)
  /-- `_wait_or_cancel`: whether the cancel event is set. -/
  | wait
  deriving DecidableEq

abbrev Op.Reply : Op → Type
  | .readAfter _ _ => EventReadResult
  | .readSeq _ => List LogEntry
  | .record _ _ => EventAppendResult
  | .wait => Bool

abbrev Settle := ExceptT SettlementError (Program Op Op.Reply)

def readAfter (afterSeq limit : Nat) : Settle EventReadResult :=
  ExceptT.lift (Program.perform (Op.readAfter afterSeq limit))

def readSeq (seq : Nat) : Settle (List LogEntry) :=
  ExceptT.lift (Program.perform (Op.readSeq seq))

def recordEvents (event : SessionEvent) (key : String) : Settle EventAppendResult :=
  ExceptT.lift (Program.perform (Op.record event key))

def waitOrCancel : Settle Unit := do
  if ← ExceptT.lift (Program.perform Op.wait) then throw .cancelled

def sameCanonicalEvent (leftType : String) (leftData : JsonValue) (right : LogEntry) : Bool :=
  leftType == right.type && leftData == right.data

def Descriptor.owns (d : Descriptor) (data : JsonValue) : Bool :=
  match data with
  | .obj members =>
    get? members "call_id" == some (.str d.callId) && get? members "turn_id" == some (.str d.turnId)
  | _ => false

def Descriptor.namesTool (d : Descriptor) (data : JsonValue) : Bool :=
  match data with
  | .obj members => get? members "name" == some (.str d.toolName)
  | _ => false

def Descriptor.isCall (d : Descriptor) (e : LogEntry) : Bool :=
  e.type == "tool_call" && d.owns e.data

def Descriptor.isResult (d : Descriptor) (e : LogEntry) : Bool :=
  e.type == "tool_result" && d.owns e.data

structure Pair where
  call : Option LogEntry := none
  result : Option LogEntry := none
  deriving DecidableEq

def conflictingCall : SettlementError := .history "conflicting duplicate canonical tool_call"

def conflictingResult : SettlementError :=
  .history "conflicting duplicate canonical tool_result"

def noteFirst (found : Option LogEntry) (e : LogEntry) (conflict : SettlementError) :
    Except SettlementError LogEntry :=
  match found with
  | none => .ok e
  | some first => if sameCanonicalEvent first.type first.data e then .ok first else .error conflict

def noteEvent (d : Descriptor) (pair : Pair) (e : LogEntry) : Except SettlementError Pair :=
  if d.isCall e then
    if d.namesTool e.data then
      (noteFirst pair.call e conflictingCall).map fun call => { pair with call := some call }
    else .error (.history "tool_call name does not match descriptor")
  else if d.isResult e then
    if d.namesTool e.data then
      (noteFirst pair.result e conflictingResult).map fun result =>
        { pair with result := some result }
    else .error (.history "tool_result name does not match descriptor")
  else .ok pair

def noteEvents (d : Descriptor) : Pair → List LogEntry → Except SettlementError Pair
  | pair, [] => .ok pair
  | pair, e :: es =>
    match noteEvent d pair e with
    | .ok pair => noteEvents d pair es
    | .error e => .error e

def readPageSize : Nat := 500

/-- `read_canonical_tool_pairs` of one descriptor, over at most `pages` pages. -/
def readCanonicalToolPairs (d : Descriptor) (allowMissingCalls : Bool) :
    (pages : Nat) → (afterSeq : Nat) → Pair → Settle Pair
  | 0, _, _ => throw .cancelled
  | pages + 1, afterSeq, pair => do
    let page ← readAfter afterSeq readPageSize
    let pair ← ExceptT.mk (pure (noteEvents d pair page.events))
    match nextEventPageAfterSeq page afterSeq with
    | .error _ => throw (.history "canonical event pagination did not advance")
    | .ok (some next) => readCanonicalToolPairs d allowMissingCalls pages next pair
    | .ok none =>
      if pair.call.isNone && !allowMissingCalls then
        throw (.history "canonical tool_call is missing")
      else return pair

/-- `read_canonical_tool_pair`: the result of the pair. -/
def readCanonicalToolPair (d : Descriptor) (pages afterSeq : Nat) : Settle (Option LogEntry) := do
  let pair ← readCanonicalToolPairs d false pages afterSeq {}
  return pair.result

/-- `max(0, (seq or 1) - 1)`. -/
def windowStart (seq : Option Nat) : Nat :=
  (if seq.getD 0 = 0 then 1 else seq.getD 0) - 1

def validatedTargetedToolResult (d : Descriptor) (events : List LogEntry) : Option LogEntry :=
  match events with
  | [e] => if d.isResult e && d.namesTool e.data then some e else none
  | _ => none

def validatedTargetedToolCall (d : Descriptor) (seq : Nat) (events : List LogEntry) :
    Option LogEntry :=
  match events with
  | [e] => if e.seq == seq && d.isCall e && d.namesTool e.data then some e else none
  | _ => none

section

variable (d : Descriptor) (pages : Nat) (event : SessionEvent) (acknowledgedSeq : Option Nat)

def checkSnapshot (call : LogEntry) : Settle Unit :=
  if sameCanonicalEvent event.type (.obj event.data) call then pure ()
  else throw (.history "canonical tool_call conflicts with durable recovery snapshot")

def callIsPresent : Settle Bool := do
  waitOrCancel
  let pair ← readCanonicalToolPairs d true pages (windowStart acknowledgedSeq) {}
  waitOrCancel
  match pair.call with
  | none => return false
  | some call =>
    checkSnapshot event call
    return true

/-- `_TOOL_CALL_REPAIR_READ_DELAYS`, in milliseconds. -/
def toolCallRepairReadDelays : List Nat := [0, 50, 100, 250, 500, 1000, 2000, 3000, 3000]

def waitForCall : List Nat → Settle Bool
  | [] => return false
  | _ :: delays => do
    waitOrCancel
    if ← callIsPresent d pages event acknowledgedSeq then return true
    else waitForCall delays

def reconcileToolCall (repaired : EventAppendResult) : Settle Unit := do
  if ← waitForCall d pages event acknowledgedSeq toolCallRepairReadDelays then return ()
  else
    let reconciled ← recordEvents event
      (toolCallRepairReconciliationIdempotencyKey d repaired.firstSeq)
    waitOrCancel
    if !reconciled.ok then
      throw (.runtime "canonical tool_call reconciliation append failed")
    else if ← waitForCall d pages event acknowledgedSeq toolCallRepairReadDelays then return ()
    else throw (.repairUnavailable event reconciled none)

def repairToolCall : Settle Unit := do
  waitOrCancel
  let repaired ← recordEvents event (toolCallRepairIdempotencyKey d)
  waitOrCancel
  if !repaired.ok then throw (.runtime "canonical tool_call repair append failed")
  else if 0 < repaired.firstSeq then
    let evidence ← readSeq repaired.firstSeq
    match validatedTargetedToolCall d repaired.firstSeq evidence with
    | some call => checkSnapshot event call
    | none => reconcileToolCall d pages event acknowledgedSeq repaired
  else reconcileToolCall d pages event acknowledgedSeq repaired

def restoreMissingToolCall : Settle Unit := do
  if event.type != "tool_call" then
    throw (.history "durable tool_call snapshot has an invalid type")
  else if !(d.owns (.obj event.data) && d.namesTool (.obj event.data)) then
    throw (.history "durable tool_call snapshot does not match descriptor")
  else if ← callIsPresent d pages event acknowledgedSeq then return ()
  else if ← waitForCall d pages event acknowledgedSeq toolCallRepairReadDelays then return ()
  else repairToolCall d pages event acknowledgedSeq

end

/-- What a settlement reports: an entry of the log, or the caller's own event. -/
structure CanonicalEvent where
  seq : Option Nat
  type : String
  data : JsonValue
  deriving DecidableEq

def LogEntry.canonical (e : LogEntry) : CanonicalEvent := ⟨some e.seq, e.type, e.data⟩

structure ToolResultSettlement where
  appendResult : EventAppendResult
  event : CanonicalEvent
  appended : Bool
  deriving DecidableEq

/-- The arguments of `append_tool_result_once` besides the descriptor; `pages` bounds the
pages its scans read. -/
structure SettlementCall where
  event : SessionEvent
  knownAbsent : Bool := false
  verifyAfterAppend : Bool := true
  targetedEvidence : Bool := false
  toolCallEvent : Option SessionEvent := none
  toolCallSeq : Option Nat := none
  pages : Nat
  deriving DecidableEq

section

variable (d : Descriptor) (c : SettlementCall)

def withResultEvent (event : SessionEvent) : SettlementError → SettlementError
  | .repairUnavailable callEvent appendResult _ =>
    .repairUnavailable callEvent appendResult (some event)
  | e => e

def restoreCall : Settle Unit :=
  match c.toolCallEvent with
  | none => pure ()
  | some event =>
    ExceptT.mk ((fun r => r.mapError (withResultEvent c.event)) <$>
      (restoreMissingToolCall d c.pages event c.toolCallSeq).run)

def findExisting : Settle (Option LogEntry) :=
  if !c.knownAbsent && !c.targetedEvidence then readCanonicalToolPair d c.pages 0
  else return none

variable (appendResult : EventAppendResult)

def SettlementCall.settledBy (winner : LogEntry) :
    ToolResultSettlement :=
  ⟨appendResult, winner.canonical, winner.data == .obj c.event.data⟩

def verifyByPair : Settle ToolResultSettlement := do
  match ← readCanonicalToolPair d c.pages (windowStart c.toolCallSeq) with
  | none => throw (.history "canonical tool_result is missing after append")
  | some winner => return c.settledBy appendResult winner

def verifyAppended : Settle ToolResultSettlement := do
  if c.targetedEvidence && 0 < appendResult.firstSeq then
    let evidence ← readSeq appendResult.firstSeq
    match (validatedTargetedToolResult d evidence).filter fun _ => c.toolCallEvent.isNone with
    | some winner => return c.settledBy appendResult winner
    | none => verifyByPair d c appendResult
  else verifyByPair d c appendResult

def appendToolResultOnce : Settle ToolResultSettlement := do
  restoreCall d c
  match ← findExisting d c with
  | some existing => return ⟨⟨true, 0, existing.seq, existing.seq⟩, existing.canonical, false⟩
  | none =>
    let appendResult ← recordEvents c.event (toolResultIdempotencyKey d)
    if !appendResult.ok then throw (.runtime "canonical tool_result append failed")
    else if !c.verifyAfterAppend then
      return ⟨appendResult, ⟨none, c.event.type, .obj c.event.data⟩, true⟩
    else verifyAppended d c appendResult

end

abbrev SettlementResult := Except SettlementError ToolResultSettlement

structure Process where
  call : SettlementCall
  rest : Program Op Op.Reply SettlementResult

structure System where
  log : EventLog
  processes : List Process
  outcomes : List (SettlementCall × SettlementResult)

/-- What the service and the clock decide of an await: which entries a read shows, the
sequence numbers left out, whether an append is taken, whether the caller is cancelled. -/
structure Oracle where
  visible : Nat → Bool := fun _ => true
  gap : Nat := 0
  ok : Bool := true
  cancelled : Bool := false

def EventLog.perform (oracle : Oracle) : (o : Op) → o.Reply × EventLog
  | .readAfter afterSeq limit => (log.readAfter oracle.visible afterSeq limit, log)
  | .readSeq seq => (log.readSeq oracle.visible seq, log)
  | .record event key =>
    if oracle.ok then log.record oracle.gap event.type (.obj event.data) (some key)
    else (⟨false, 0, 0, 0⟩, log)
  | .wait => (oracle.cancelled, log)

inductive Event where
  | start (call : SettlementCall)
  | advance (i : Nat) (oracle : Oracle)
  | kill (i : Nat)
  /-- Another writer appends to the session. -/
  | other (type : String) (data : JsonValue) (key : Option String) (gap : Nat)

def System.become (s : System) (i : Nat) (x : Option Process) : System :=
  { s with processes := Pool.update s.processes i x }

def System.advance (s : System) (i : Nat) (oracle : Oracle) (p : Process) : System :=
  match p.rest with
  | .done result => { s with outcomes := s.outcomes ++ [(p.call, result)] }.become i none
  | .call o k =>
    { s with log := (s.log.perform oracle o).2 }.become i
      (some ⟨p.call, k (s.log.perform oracle o).1⟩)

def step (d : Descriptor) (s : System) : Event → System
  | .start call =>
      { s with processes := s.processes ++ [⟨call, (appendToolResultOnce d call).run⟩] }
  | .advance i oracle =>
    match s.processes[i]? with
    | none => s
    | some p => s.advance i oracle p
  | .kill i => s.become i none
  | .other type data key gap => { s with log := (s.log.record gap type data key).2 }

def System.empty : System := ⟨.empty, [], []⟩

end Cognis.ToolSettlement
