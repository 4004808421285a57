import Cognis.RuntimeRelay.Admission

namespace Cognis.RuntimeRelay

variable (settings : RelaySettings) (s : RelayRun)

def runtimeMaxAgeSeconds : Int := 30

def futureSkewSeconds : Int := 5

structure RelaySettings where
  origin : RelayOrigin
  stateMaxEntries : Nat := 4096
  stateTtl : Nat := 900

/-- One entry of the table `_seen`. -/
structure SeenEntry where
  eventId : String
  expiresAt : Nat
  revision : RedisInteger
  kind : RelayKind
  conversationId : String
  generation : GenerationKey
  deriving DecidableEq

/-- The table `_seen` in the order of its entries. -/
abbrev Seen := List SeenEntry

namespace Seen

def expireSeen (now : Nat) (seen : Seen) : Seen :=
  seen.dropWhile fun entry => decide (entry.expiresAt ≤ now)

def maxRevision (revisions : List RedisInteger) : Nat :=
  revisions.foldl (fun highest revision => max highest revision.val) 0

/-- The decision of `_seen_decision` on the table that is left after expiry; `none` where the
envelope may go on. -/
def decision (seen : Seen) (e : Envelope) : Option String :=
  if seen.any fun entry => entry.eventId == e.eventId then some "duplicate"
  else
    let matching := seen.filter fun entry => entry.generation == e.generationKey
    let terminalRevisions :=
      (matching.filter fun entry => entry.kind == .terminal).map (·.revision)
    if !terminalRevisions.isEmpty then
      if e.kind == .runtime then some "stale"
      else if e.sourceRevision.val ≤ maxRevision terminalRevisions then some "stale" else none
    else if e.kind == .terminal then none
    else if !matching.isEmpty &&
        e.sourceRevision.val ≤ maxRevision (matching.map (·.revision)) then some "stale"
    else none

/-- `_remember`: the entry goes to the end, and the first ones go when there are too many. -/
def remember (now : Nat) (seen : Seen) (e : Envelope) : Seen :=
  let entry : SeenEntry :=
    ⟨e.eventId, now + settings.stateTtl, e.sourceRevision, e.kind, e.conversationId,
      e.generationKey⟩
  let entries := seen.filter (fun other => other.eventId != e.eventId) ++ [entry]
  entries.drop (entries.length - settings.stateMaxEntries)

def invalidate (seen : Seen) (conversationId : String) : Seen :=
  seen.filter fun entry => entry.conversationId != conversationId

end Seen

/-- Where the first task of the conversation's chain stands. -/
inductive ReceiveStage
  | waiting
  | validating
  | applying
  deriving DecidableEq

/-- What a relay did, for the record. -/
inductive RelayNote
  | started (e : Envelope) (now : Nat)
  | completed (e : Envelope) (now : Nat)
  | rememberedOther
  | invalidated
  deriving DecidableEq

/-- The latest key of one conversation, the messages published on it, and one relay that receives
them: the chain of its tasks for the conversation, its clock and its table. The notes are newest
first. -/
structure RelayRun where
  latest : Option Wire := none
  published : List Wire := []
  cursor : Nat := 0
  queue : List Envelope := []
  stage : ReceiveStage := .waiting
  seen : Seen := []
  now : Nat := 0
  notes : List RelayNote := []

inductive RelayEvent
  /-- A controller runs the script with this message. -/
  | publish (w : Wire)
  /-- The relay gets a published message, not before the last one it got. -/
  | deliver (i : Nat)
  /-- The first task runs up to the validator. The age is taken from the wall clock and the table
  from the clock of the loop, and a host may set the first while the second runs on. -/
  | examine (wallClock : Int) (hasSubscriber : Bool)
  /-- The validator returns or fails. -/
  | validated (accepts : Bool)
  /-- The apply callback returns or fails. -/
  | applied (succeeds : Bool)
  | elapse (seconds : Nat)
  /-- The chain of another conversation applies an envelope. -/
  | rememberOther (e : Envelope)
  | invalidate (conversationId : String)

namespace RelayRun

def publish (w : Wire) : RelayRun :=
  match admitAndPublish s.latest w with
  | .ok outcome =>
    { s with latest := outcome.stored, published := s.published ++ outcome.published }
  | .error _ => s

/-- `_schedule_receive` of a decoded message. -/
def deliver (i : Nat) : RelayRun :=
  match s.published[i]? with
  | none => s
  | some w =>
    if i < s.cursor then s else { s with cursor := i, queue := s.queue ++ [w.envelope] }

def examine (wallClock : Int) (hasSubscriber : Bool) : RelayRun :=
  match s.queue, s.stage with
  | e :: rest, .waiting =>
    let age := wallClock - e.generatedAt
    if e.origin = settings.origin || runtimeMaxAgeSeconds < age || age < -futureSkewSeconds ||
        !hasSubscriber then
      { s with queue := rest }
    else
      let seen := s.seen.expireSeen s.now
      if (seen.decision e).isSome then { s with queue := rest, seen }
      else { s with stage := .validating, seen }
  | _, _ => s

def validated (accepts : Bool) : RelayRun :=
  match s.queue, s.stage with
  | e :: rest, .validating =>
    if accepts then { s with stage := .applying, notes := .started e s.now :: s.notes }
    else { s with queue := rest, stage := .waiting }
  | _, _ => s

def applied (succeeds : Bool) : RelayRun :=
  match s.queue, s.stage with
  | e :: rest, .applying =>
    if succeeds then
      { s with
        queue := rest
        stage := .waiting
        seen := s.seen.remember settings s.now e
        notes := .completed e s.now :: s.notes }
    else { s with queue := rest, stage := .waiting }
  | _, _ => s

def step : RelayEvent → RelayRun
  | .publish w => s.publish w
  | .deliver i => s.deliver i
  | .examine wallClock hasSubscriber => s.examine settings wallClock hasSubscriber
  | .validated accepts => s.validated accepts
  | .applied succeeds => s.applied settings succeeds
  | .elapse seconds => { s with now := s.now + seconds }
  | .rememberOther e =>
    { s with
      seen := s.seen.remember settings s.now e
      notes := .rememberedOther :: s.notes }
  | .invalidate conversationId =>
    { s with
      seen := s.seen.invalidate conversationId
      notes := .invalidated :: s.notes }

end RelayRun

end Cognis.RuntimeRelay
