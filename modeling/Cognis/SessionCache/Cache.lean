import Mathlib.Algebra.GroupWithZero.Nat
import Cognis.Memory.Aliases

namespace Cognis.SessionCache

variable (entry : CachedSessionState) (e : CachedEvent)

section

open Memory (isVersionOne strip)

structure SessionEvent where
  type : String
  data : JsonValue.Members
  deriving DecidableEq

@[ext] structure CachedEvent where
  seq : Nat
  type : String
  data : JsonValue.Members
  deriving DecidableEq

def positiveInt : JsonValue → Option Nat
  | .num text =>
    let n := Nat.ofDigitChars 10 text.toList 0
    if 0 < n ∧ Nat.repr n = text then some n else none
  | _ => none

structure ProjectionDecision where
  operation : String
  renderingPolicyVersion : Nat
  parameters : List (String × Nat)
  deriving DecidableEq

def compactResultRenderingPolicyVersion : Nat := 2

def allowedParameterKeys (operation : String) : Option (List String) :=
  List.lookup operation
    [("compact_result", []), ("compact_attachment", []), ("clear_arguments", ["threshold"]),
      ("compact_delegation_result", []), ("omit_event", ["event_seq"]), ("omit_tool_group", [])]

def allowedVersions (operation : String) : List Nat :=
  if operation = "compact_result" then [1, compactResultRenderingPolicyVersion] else [1]

def boundedParameters (allowed : List String) : JsonValue → Option (List (String × Nat))
  | .obj members =>
    if (members.map Prod.fst).all allowed.contains ∧ allowed.all (members.map Prod.fst).contains
    then members.mapM fun m => (positiveInt m.2).map (m.1, ·)
    else none
  | _ => none

def encodedLength (parameters : List (String × Nat)) : Nat :=
  2 + (parameters.length - 1) + (parameters.map fun p => 3 + p.1.length + (Nat.repr p.2).length).sum

/-- The call and the decision that one entry of `decisions` records, if it is valid. -/
def projectionDecision : JsonValue → Option (String × ProjectionDecision)
  | .obj raw => do
    let operation ← Memory.textOf (JsonValue.get? raw "operation")
    let eventSeq := ((JsonValue.get? raw "event_seq").bind positiveInt).filter
      fun _ => operation = "omit_event"
    let callId ← match eventSeq with
      | some n => some ("event:" ++ Nat.repr n)
      | none => Memory.textOf (JsonValue.get? raw "call_id")
    let allowed ← allowedParameterKeys operation
    let version ← (JsonValue.get? raw "rendering_policy_version").bind positiveInt
    let parameters ← match eventSeq with
      | some n => boundedParameters allowed (.obj [("event_seq", .num (Nat.repr n))])
      | none =>
        boundedParameters allowed ((JsonValue.get? raw "parameters").getD (.obj []))
    guard (callId ≠ "" ∧ callId.length ≤ 256 ∧ (allowedVersions operation).contains version ∧
      encodedLength parameters ≤ 512)
    return (callId, ⟨operation, version, parameters⟩)
  | _ => none

def prefixEventTypes : List String := ["system_message", "developer_message", "context_snapshot"]

namespace CachedEvent

/-- `event.data.get(key) == text`. -/
def hasText (key text : String) : Bool :=
  JsonValue.get? e.data key == some (.str text)

/-- `event.data.get(key) is True`. -/
def hasTrue (key : String) : Bool :=
  JsonValue.get? e.data key == some (.bool true)

/-- The delta under `memory_aliases`, unless it is null. -/
def aliasDelta : Option JsonValue :=
  (JsonValue.get? e.data "memory_aliases").filter (· ≠ .null)

def decisions (e : CachedEvent) : List (String × ProjectionDecision) :=
  if e.type = "lifecycle" ∧ e.hasText "event" "context_projection" then
    match JsonValue.get? e.data "decisions" with
    | some (.arr raw) => raw.filterMap projectionDecision
    | _ => []
  else []

def isRetryAdmissionNotice : Bool :=
  e.type == "system_message" && e.hasText "event" "system_notice" &&
    e.hasText "kind" "model_recovery" && e.hasText "scope" "turn"

/-- `_loaded_skill_id_from_event` -/
def loadedSkillId : Option String :=
  if (e.type = "developer_message" ∧ e.hasText "kind" "loaded_skill") ∨
      (e.type = "lifecycle" ∧ e.hasText "event" "loaded_skill_snapshot") then
    (Memory.textOf (JsonValue.get? e.data "skill_id")).filter fun text => strip text ≠ ""
  else none

def legacySkillId : Option String :=
  e.loadedSkillId.filter fun _ =>
    !isVersionOne (JsonValue.get? e.data "append_only_loaded_skill_version")

def isReplayableContext : Bool :=
  e.type == "developer_message" && e.hasTrue "context_injection" && e.hasTrue "replayable" &&
    e.hasText "visibility" "agent_context"

def isCompaction : Bool := e.type == "compaction_summary"

end CachedEvent

/-- The text under `summary`. -/
def summaryText (data : JsonValue.Members) : Option String :=
  Memory.textOf (JsonValue.get? data "summary")

end

section

open Memory (MemoryAliasState)
open SortByKey

abbrev Decisions := OrderedMap String (List ProjectionDecision)

/-- The cache entry of one session, its fields that events change. `applied` records the events
that were applied since the last reset, in the order in which they were. -/
structure CachedSessionState where
  events : List CachedEvent := []
  eventSeqs : List Nat := []
  lastEventSeq : Nat := 0
  lastCompactionSeq : Nat := 0
  lastCompactionSummary : Option String := none
  initialized : Bool := false
  canonicalStale : Bool := false
  projectionDecisions : Decisions := .empty
  memoryAliases : MemoryAliasState := {}
  applied : List CachedEvent := []

def addDecision (decisions : Decisions) (p : String × ProjectionDecision) : Decisions :=
  let existing := (decisions.get? p.1).getD []
  decisions.set p.1 (if existing.contains p.2 then existing else existing ++ [p.2])

def supersede (events : List CachedEvent) (e : CachedEvent) : List CachedEvent :=
  match e.legacySkillId with
  | none => events
  | some skillId =>
    let superseded :=
      (events.filter fun existing => existing.legacySkillId == some skillId).map (·.seq)
    events.filter fun existing => !superseded.contains existing.seq

namespace CachedSessionState

def applyAliases : CachedSessionState :=
  match e.aliasDelta with
  | none => entry
  | some delta => { entry with memoryAliases := (entry.memoryAliases.apply delta).1 }

def applyDecisions : CachedSessionState :=
  { entry with projectionDecisions := e.decisions.foldl addDecision entry.projectionDecisions }

def applyLoadedSkill : CachedSessionState :=
  { entry with events := supersede entry.events e }

/-- Puts an event that is not yet summarised behind the others. -/
def retain : CachedSessionState :=
  if entry.lastCompactionSeq < e.seq then { entry with events := entry.events ++ [e] } else entry

def advance : CachedSessionState :=
  { entry with lastEventSeq := max entry.lastEventSeq e.seq }

def cut (seq : Nat) (summary : Option String) : CachedSessionState :=
  { entry with
    lastCompactionSummary := summary
    lastCompactionSeq := seq
    events := entry.events.filter fun existing => seq < existing.seq }

def applyCachedEvent : CachedSessionState :=
  let entry := { entry with
    eventSeqs := entry.eventSeqs.insert e.seq
    applied := entry.applied ++ [e] }
  let entry := ((entry.applyAliases e).applyDecisions e).applyLoadedSkill e
  if e.isRetryAdmissionNotice then (entry.retain e).advance e
  else if prefixEventTypes.contains e.type then
    (if e.isReplayableContext then entry.retain e else entry).advance e
  else if e.isCompaction then
    { entry.cut e.seq (summaryText e.data) with projectionDecisions := .empty }.advance e
  else (entry.retain e).advance e

def tailSeq : Nat := (entry.events.getLast?.map (·.seq)).getD 0

def sortEvents : CachedSessionState :=
  { entry with events := sortBy CachedEvent.seq entry.events }

/-- One round of the loop of `_apply_intaris_events`, with its flag. -/
def applyIntarisEvent (loop : CachedSessionState × Bool) (e : CachedEvent) :
    CachedSessionState × Bool :=
  let (entry, appendedOutOfOrder) := loop
  if entry.eventSeqs.contains e.seq then (entry.advance e, appendedOutOfOrder)
  else
    let applied := entry.applyCachedEvent e
    (applied, appendedOutOfOrder ||
      (decide (entry.events.length < applied.events.length) && decide (e.seq < entry.tailSeq)))

def applyIntarisEvents (raw : List CachedEvent) : CachedSessionState :=
  let (entry, appendedOutOfOrder) :=
    (sortBy CachedEvent.seq raw).foldl applyIntarisEvent (entry, false)
  let entry := if appendedOutOfOrder then entry.sortEvents else entry
  { entry with initialized := true }

def replaceFromIntarisEvents (raw : List CachedEvent) : CachedSessionState :=
  let entry := { entry with
    events := []
    eventSeqs := []
    lastEventSeq := 0
    lastCompactionSeq := 0
    lastCompactionSummary := none
    memoryAliases := {}
    applied := [] }
  entry.applyIntarisEvents raw

/-- The loop of `append_recorded_events`: the entry and the events that it did not have. -/
def appendNew (entry : CachedSessionState) : List CachedEvent → CachedSessionState
  | [] => entry
  | e :: rest =>
    if entry.eventSeqs.contains e.seq then appendNew entry rest
    else appendNew (entry.applyCachedEvent e) rest

def recordedEvents (batch : List CachedEvent) : List CachedEvent :=
  batch.filter fun e => !entry.eventSeqs.contains e.seq

def hasGap (firstSeq : Nat) : Bool :=
  entry.initialized && decide (0 < entry.lastEventSeq) &&
    decide (entry.lastEventSeq + 1 < firstSeq)

/-- `append_recorded_events` up to the backfill of a gap. -/
def appendRecordedEvents (batch : List CachedEvent) (firstSeq lastSeq : Nat) : CachedSessionState :=
  let appended := entry.appendNew batch
  let watermark := if entry.hasGap firstSeq then entry.lastEventSeq
    else max appended.lastEventSeq lastSeq
  let outOfOrder := (entry.recordedEvents batch).head?.any fun e => decide (e.seq < entry.tailSeq)
  let appended := if outOfOrder then appended.sortEvents else appended
  { appended with
    lastEventSeq := watermark
    initialized := entry.initialized || decide (firstSeq ≤ 1) }

/-- `apply_compaction` of a confirmed summary. -/
def applyCompaction : CachedSessionState :=
  { entry.cut e.seq (summaryText e.data) with applied := entry.applied ++ [e] }.advance e

def invalidateCanonical : CachedSessionState :=
  { entry with
    events := []
    lastEventSeq := 0
    lastCompactionSeq := 0
    lastCompactionSummary := none
    initialized := false
    canonicalStale := true
    applied := [] }

end CachedSessionState

end

/-- What the reads of a refresh meet: whether one fails, and whether the immutable prefix is
missing, so that a second read follows. -/
structure ReadReplies where
  fails : Bool := false
  missingPrefix : Bool := false
  rebuildFails : Bool := false

structure CacheRun where
  log : List SessionEvent := []
  entry : CachedSessionState := {}

inductive CacheEvent
  /-- A writer appends to the log. -/
  | write (e : SessionEvent)
  | refresh (replies : ReadReplies)
  | acquireContextSnapshot (replies : ReadReplies)
  /-- The controller learns that `count` events of its own were recorded. -/
  | appendRecorded (firstSeq count : Nat)
  /-- The controller learns that its summary was recorded. -/
  | applyCompaction (seq : Nat)
  | invalidateCanonical

/-- The events of a log behind `afterSeq`. -/
def eventsAfter (log : List SessionEvent) (afterSeq : Nat) : List CachedEvent :=
  (log.zipIdx 1).filterMap fun p => if afterSeq < p.2 then some ⟨p.2, p.1.type, p.1.data⟩ else none

namespace CacheRun

def batch (s : CacheRun) (firstSeq count : Nat) : List CachedEvent :=
  (eventsAfter s.log (firstSeq - 1)).filter fun e => decide (e.seq < firstSeq + count)

def failed : CachedSessionState :=
  { entry with canonicalStale := true }

def completed : CachedSessionState :=
  { entry with canonicalStale := false }

/-- Whether a warm refresh reads the whole stream again. -/
def rebuilds (replies : ReadReplies) (read : List CachedEvent) : Bool :=
  replies.missingPrefix || read.any fun e => e.type == "context_snapshot"

/-- `_refresh` of the entry under its lock. -/
def refreshed (log : List SessionEvent) (entry : CachedSessionState) (replies : ReadReplies) :
    CachedSessionState :=
  if !entry.initialized || entry.canonicalStale then
    if replies.fails then failed entry
    else completed { entry.replaceFromIntarisEvents (eventsAfter log 0) with initialized := true }
  else if replies.fails then failed entry
  else
    let read := eventsAfter log entry.lastEventSeq
    let entry := entry.applyIntarisEvents read
    if rebuilds replies read then
      if replies.rebuildFails then failed entry
      else completed (entry.replaceFromIntarisEvents (eventsAfter log 0))
    else completed entry

/-- One operation on the session; what is not acknowledged by the log changes nothing. -/
def step (s : CacheRun) : CacheEvent → CacheRun
  | .write e => { s with log := s.log ++ [e] }
  | .refresh replies => { s with entry := refreshed s.log s.entry replies }
  | .acquireContextSnapshot replies =>
    if s.entry.initialized && !s.entry.canonicalStale then s
    else { s with entry := refreshed s.log s.entry replies }
  | .appendRecorded firstSeq count =>
    if 1 ≤ firstSeq ∧ 1 ≤ count ∧ firstSeq + count ≤ s.log.length + 1 then
      { s with
        entry := s.entry.appendRecordedEvents (s.batch firstSeq count) firstSeq
          (firstSeq + count - 1) }
    else s
  | .applyCompaction seq =>
    match (s.batch seq 1).head? with
    | some e =>
      if 1 ≤ seq ∧ e.isCompaction then { s with entry := s.entry.applyCompaction e } else s
    | none => s
  | .invalidateCanonical => { s with entry := s.entry.invalidateCanonical }

end CacheRun

end Cognis.SessionCache
