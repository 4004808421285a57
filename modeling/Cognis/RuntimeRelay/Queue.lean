import Mathlib.Algebra.GroupWithZero.Nat
import Cognis.Library.JsonValue
import Cognis.Library.Lua
import Cognis.Library.OrderedMap

namespace Cognis.RuntimeRelay

open List

variable (e : Envelope)

variable {r : BoundaryReceipt} {receipts : List BoundaryReceipt} {α β : Type}

def maxRedisSafeInteger : Nat := 2 ^ 53 - 1

abbrev RedisInteger := { n : Nat // n ≤ maxRedisSafeInteger }

inductive RelayKind
  | runtime
  | terminal
  | relinquished
  deriving DecidableEq

def RelayKind.text : RelayKind → String
  | .runtime => "runtime"
  | .terminal => "terminal"
  | .relinquished => "relinquished"

structure RelayOrigin where
  controllerId : String
  incarnationId : String
  runtimeEpoch : String
  deriving DecidableEq

@[ext] structure RelayOwner where
  controllerId : String
  incarnationId : String
  deriving DecidableEq

inductive RuntimeLifecycle
  | active
  | inactive
  | recoverable
  | terminal
  | relinquished
  | legacy
  deriving DecidableEq

def RuntimeLifecycle.text : RuntimeLifecycle → String
  | .active => "active"
  | .inactive => "inactive"
  | .recoverable => "recoverable"
  | .terminal => "terminal"
  | .relinquished => "relinquished"
  | .legacy => "legacy"

structure RuntimeAuthority where
  directRequestId : String
  turnId : String
  fencingToken : Nat
  lifecycle : RuntimeLifecycle
  sourceEpoch : Option String := none
  sourceRevision : Option Nat := none
  deriving DecidableEq

/-- `body` is the rendered JSON of the fields that the relay does not read. -/
structure RuntimeActiveTurn where
  turnId : String
  sessionId : String
  body : String := ""
  deriving DecidableEq

structure TimelineItem where
  stable : Bool
  turnId : Option String
  body : String := ""
  deriving DecidableEq

structure Envelope where
  kind : RelayKind
  eventId : String
  generatedAt : Int
  origin : RelayOrigin
  conversationId : String
  sessionId : String
  turnId : String
  directRequestId : String
  owner : RelayOwner
  fencingToken : RedisInteger
  sourceRevision : RedisInteger
  authority : Option RuntimeAuthority := none
  activeTurn : Option RuntimeActiveTurn := none
  hasActiveTurn : Bool := activeTurn.isSome
  volatileItems : List TimelineItem := []
  volatileItemsComplete : Bool := false
  contextUsage : Option JsonValue.Members := none
  lastGeneration : Option String := none
  deriving DecidableEq

namespace Envelope

variable (e : Envelope)

def inactive : Bool := e.kind != .runtime

def authorityCoherent (authority : RuntimeAuthority) : Bool :=
  authority.directRequestId == e.directRequestId && authority.turnId == e.turnId &&
    authority.fencingToken == e.fencingToken.val &&
    !(authority.lifecycle == .active && !e.hasActiveTurn)

def validateCoherence : Bool :=
  e.hasActiveTurn == e.activeTurn.isSome &&
    e.activeTurn.all (fun turn => turn.turnId == e.turnId && turn.sessionId == e.sessionId) &&
    !(e.inactive && e.hasActiveTurn) && e.authority.all e.authorityCoherent &&
    e.volatileItems.all fun item => !item.stable && item.turnId.all (· == e.turnId)

end Envelope

/-- `_generation_key`: the envelopes of one generation from one origin. -/
structure GenerationKey where
  conversationId : String
  sessionId : String
  turnId : String
  directRequestId : String
  owner : RelayOwner
  fencingToken : RedisInteger
  origin : RelayOrigin
  deriving DecidableEq

def Envelope.generationKey (e : Envelope) : GenerationKey :=
  ⟨e.conversationId, e.sessionId, e.turnId, e.directRequestId, e.owner, e.fencingToken, e.origin⟩

/-- The JSON document that is stored and published: the envelope itself or the compressed wire
frame around it. The fields of both that the admission script does not read are left out. -/
inductive WireForm
  | plain
  | compressed (rawSize : Nat) (rawSha256 payloadB64 : String)
  deriving DecidableEq

namespace RelayOrigin

def decoded (o : RelayOrigin) : Lua.Value :=
  .table [("controller_id", .string o.controllerId), ("incarnation_id", .string o.incarnationId),
    ("runtime_epoch", .string o.runtimeEpoch)]

end RelayOrigin

namespace RelayOwner

def decoded (o : RelayOwner) : Lua.Value :=
  .table [("controller_id", .string o.controllerId), ("incarnation_id", .string o.incarnationId)]

end RelayOwner

namespace RuntimeAuthority

def decoded (a : RuntimeAuthority) : Lua.Value :=
  .table [("protocol", .string "runtime_authority_v1"),
    ("direct_request_id", .string a.directRequestId), ("turn_id", .string a.turnId),
    ("fencing_token", .number a.fencingToken), ("lifecycle", .string a.lifecycle.text),
    ("source_epoch", .ofOption a.sourceEpoch),
    ("source_revision", (a.sourceRevision.map .number).getD .null)]

end RuntimeAuthority

/-- One message as the relay serialises it. -/
structure Wire where
  envelope : Envelope
  form : WireForm
  deriving DecidableEq

namespace Wire

def admissionFields (e : Envelope) : List (String × Lua.Value) :=
  [("kind", .string e.kind.text), ("direct_request_id", .string e.directRequestId),
    ("turn_id", .string e.turnId), ("owner", e.owner.decoded), ("origin", e.origin.decoded),
    ("fencing_token", .number e.fencingToken.val),
    ("source_revision", .number e.sourceRevision.val),
    ("authority", (e.authority.map RuntimeAuthority.decoded).getD .null),
    ("volatile_items_complete", .bool e.volatileItemsComplete)]

/-- `cjson.decode` of the document. -/
def decoded (w : Wire) : Lua.Value :=
  match w.form with
  | .plain =>
    .table ([("version", .number 1), ("event_id", .string w.envelope.eventId),
      ("conversation_id", .string w.envelope.conversationId),
      ("session_id", .string w.envelope.sessionId),
      ("has_active_turn", .bool w.envelope.hasActiveTurn)] ++ admissionFields w.envelope)
  | .compressed rawSize rawSha256 payloadB64 =>
    .table ([("wire_version", .number 2), ("codec", .string "zlib"),
      ("raw_size", .number rawSize), ("raw_sha256", .string rawSha256),
      ("payload_b64", .string payloadB64)] ++ admissionFields w.envelope)

end Wire

def jsonNat (n : Nat) : JsonValue := .num (Nat.repr n)

def JsonNat.read : JsonValue → Option Nat
  | .num text =>
    let n := Nat.ofDigitChars 10 text.toList 0
    if Nat.repr n = text then some n else none
  | _ => none

@[simp] theorem JsonNat.read_jsonNat (n : Nat) : JsonNat.read (jsonNat n) = some n := by
  simp [JsonNat.read, jsonNat]

structure BoundaryReceipt where
  sessionId : String
  seq : Nat
  queueId : String
  clientMessageId : String
  deriving DecidableEq

namespace BoundaryReceipt

def text : JsonValue → Option String
  | .str s => some s
  | _ => none

/-- `model_dump(mode="json")`. -/
def modelDump (r : BoundaryReceipt) : JsonValue :=
  .obj [("session_id", .str r.sessionId), ("seq", jsonNat r.seq), ("queue_id", .str r.queueId),
    ("client_message_id", .str r.clientMessageId)]

/-- The model of a dict that has these four fields and no others. -/
def modelValidate : JsonValue → Option BoundaryReceipt
  | .obj members => do
    guard (members.all fun m =>
      ["session_id", "seq", "queue_id", "client_message_id"].contains m.1)
    let sessionId ← (JsonValue.get? members "session_id").bind text
    let seq ← (JsonValue.get? members "seq").bind JsonNat.read
    guard (1 ≤ seq)
    let queueId ← (JsonValue.get? members "queue_id").bind text
    let clientMessageId ← (JsonValue.get? members "client_message_id").bind text
    return ⟨sessionId, seq, queueId, clientMessageId⟩
  | _ => none

theorem seq_pos {value : JsonValue} (h : modelValidate value = some r) :
    1 ≤ r.seq := by
  cases value with
  | obj =>
    simp only [modelValidate, Option.bind_eq_bind, Option.bind_eq_some_iff, Option.pure_def,
      Option.some.injEq, guard] at h
    obtain ⟨_, -, _, -, seq, -, _, hpos, _, -, _, -, rfl⟩ := h
    by_contra hzero
    rw [if_neg hzero] at hpos
    cases hpos
  | _ => cases h

theorem modelValidate_modelDump (h : 1 ≤ r.seq) : modelValidate r.modelDump = some r := by
  simp [modelValidate, modelDump, JsonValue.get?_cons, text, guard, h]

def key (r : BoundaryReceipt) : String × Nat := (r.sessionId, r.seq)

end BoundaryReceipt

def boundaryReceiptsField : String := "__boundary_receipts"

/-- `_relay_boundary_receipts`: nothing where the field is no list; a receipt that is not valid
raises, here `none`. -/
def relayBoundaryReceipts (e : Envelope) : Option (List BoundaryReceipt) :=
  match JsonValue.get? (e.contextUsage.getD []) boundaryReceiptsField with
  | some (.arr items) => items.mapM BoundaryReceipt.modelValidate
  | _ => some []

def deduplicated (receipts : List BoundaryReceipt) : List BoundaryReceipt :=
  (OrderedMap.ofList (receipts.map fun r => (r.key, r))).values

theorem mem_of_mem_deduplicated (h : r ∈ deduplicated receipts) : r ∈ receipts := by
  obtain ⟨k, hk⟩ := OrderedMap.mem_values.mp h
  obtain ⟨r', hr', heq⟩ := mem_map.mp (OrderedMap.mem_of_get?_ofList hk)
  obtain rfl : r' = r := congrArg Prod.snd heq
  exact hr'

theorem key_mem_deduplicated
    (h : r ∈ receipts) : r.key ∈ (deduplicated receipts).map BoundaryReceipt.key := by
  have hkey : r.key ∈ (receipts.map fun r => (r.key, r)).map Prod.fst := by
    rw [map_map]
    exact mem_map_of_mem h
  obtain ⟨r', hr'⟩ := Option.isSome_iff_exists.mp (OrderedMap.isSome_get?_ofList hkey)
  obtain ⟨r'', -, heq⟩ := mem_map.mp (OrderedMap.mem_of_get?_ofList hr')
  obtain ⟨hsame, rfl⟩ := Prod.mk.inj heq
  rw [← hsame]
  exact mem_map_of_mem (OrderedMap.mem_values.mpr ⟨_, hr'⟩)

namespace Envelope

def withReceipts (e : Envelope) (receipts : List BoundaryReceipt) : Envelope :=
  { e with
    contextUsage := some (JsonValue.insert (e.contextUsage.getD []) boundaryReceiptsField
      (.arr (receipts.map BoundaryReceipt.modelDump))) }

end Envelope

variable {values : List α} {results : List β} {f : α → Option β}

theorem forall₂_of_mapM (h : values.mapM f = some results) :
    Forall₂ (fun value result => f value = some result) values results := by
  induction values generalizing results with
  | nil =>
    cases h
    exact .nil
  | cons value values ih =>
    simp only [mapM_cons, Option.bind_eq_bind, Option.bind_eq_some_iff, Option.pure_def,
      Option.some.injEq] at h
    obtain ⟨first, hfirst, rest, hrest, rfl⟩ := h
    exact .cons hfirst (ih hrest)

theorem exists_mapM (h : ∀ value ∈ values, ∃ result, f value = some result) :
    ∃ results, values.mapM f = some results := by
  induction values with
  | nil => exact ⟨[], rfl⟩
  | cons value values ih =>
    obtain ⟨first, hfirst⟩ := h value mem_cons_self
    obtain ⟨rest, hrest⟩ := ih fun v hv => h v (mem_cons_of_mem _ hv)
    exact ⟨first :: rest, by rw [mapM_cons, hfirst, hrest]; rfl⟩

variable {R : α → β → Prop}

theorem exists_of_mem_right (h : Forall₂ R values results) {result : β} (hmem : result ∈ results) :
    ∃ value ∈ values, R value result := by
  induction h with
  | nil => cases hmem
  | cons hfirst _ ih =>
    rcases mem_cons.mp hmem with rfl | hrest
    · exact ⟨_, mem_cons_self, hfirst⟩
    · obtain ⟨value, hvalue, hR⟩ := ih hrest
      exact ⟨value, mem_cons_of_mem _ hvalue, hR⟩

theorem exists_of_mem_left (h : Forall₂ R values results) {value : α} (hmem : value ∈ values) :
    ∃ result ∈ results, R value result := by
  obtain ⟨result, hresult, hR⟩ := exists_of_mem_right h.flip hmem
  exact ⟨result, hresult, hR⟩

theorem seq_pos_of_relayBoundaryReceipts {e : Envelope}
    (h : relayBoundaryReceipts e = some receipts) : ∀ r ∈ receipts, 1 ≤ r.seq := by
  unfold relayBoundaryReceipts at h
  split at h
  · intro r hr
    obtain ⟨value, -, hvalue⟩ := exists_of_mem_right (forall₂_of_mapM h) hr
    exact BoundaryReceipt.seq_pos hvalue
  · cases h
    simp

theorem relayBoundaryReceipts_withReceipts (h : ∀ r ∈ receipts, 1 ≤ r.seq) :
    relayBoundaryReceipts (e.withReceipts receipts) = some receipts := by
  have hread : (receipts.map BoundaryReceipt.modelDump).mapM BoundaryReceipt.modelValidate =
      some receipts := by
    induction receipts with
    | nil => rfl
    | cons r receipts ih =>
      rw [map_cons, mapM_cons, BoundaryReceipt.modelValidate_modelDump
        (h r mem_cons_self), ih fun r' hr' => h r' (mem_cons_of_mem _ hr')]
      rfl
  simp only [relayBoundaryReceipts, Envelope.withReceipts, Option.getD_some,
    JsonValue.get?_insert_self, hread]

def maxRawPayloadBytes : Nat := 2 * 1024 * 1024

abbrev DumpLength := Envelope → Nat

variable (dumpLength : DumpLength) (q : BoundedRelayQueue) (candidate : QueuedEnvelope)

/-- `raw_encoded`; an envelope over the limit raises. -/
def rawEncoded (e : Envelope) : Option Nat :=
  if maxRawPayloadBytes < dumpLength e then none else some (dumpLength e)

structure QueuedEnvelope where
  ident : Nat
  envelope : Envelope
  payload : Nat
  cumulativeBoundary : Bool
  deriving DecidableEq

namespace QueuedEnvelope

variable (q : QueuedEnvelope)

def isProgress : Bool :=
  q.envelope.kind == .runtime && !q.cumulativeBoundary

def isTerminal : Bool := q.envelope.inactive

def generationKey : GenerationKey := q.envelope.generationKey

end QueuedEnvelope

structure BoundedRelayQueue where
  maxItems : Nat
  maxBytes : Nat
  items : List QueuedEnvelope := []
  bytes : Nat := 0
  nextIdent : Nat := 0

namespace BoundedRelayQueue

def progressSinceBoundary (generation : GenerationKey) : List QueuedEnvelope → List QueuedEnvelope
  | [] => []
  | queued :: rest =>
    if queued.generationKey ≠ generation then progressSinceBoundary generation rest
    else if queued.cumulativeBoundary then []
    else if queued.isProgress then queued :: progressSinceBoundary generation rest
    else progressSinceBoundary generation rest

def upToLastBoundary (generation : GenerationKey) (items : List QueuedEnvelope) : Nat :=
  (items.reverse.dropWhile fun queued =>
    !(queued.generationKey == generation && queued.cumulativeBoundary)).length

def coalesce (items : List QueuedEnvelope) (candidate : QueuedEnvelope) : List QueuedEnvelope :=
  if candidate.isProgress then progressSinceBoundary candidate.generationKey items.reverse
  else
    (items.take (upToLastBoundary candidate.generationKey items)).filter fun queued =>
      queued.generationKey == candidate.generationKey &&
        (!queued.isTerminal || (candidate.isTerminal &&
          queued.envelope.sourceRevision.val < candidate.envelope.sourceRevision.val))

def mergedReceipts (removed : List QueuedEnvelope) : Option (List BoundaryReceipt) := do
  let own ← relayBoundaryReceipts candidate.envelope
  let others ← removed.mapM fun queued => relayBoundaryReceipts queued.envelope
  return own ++ others.flatten

def withMergedReceipts (receipts : List BoundaryReceipt) : Option QueuedEnvelope :=
  if receipts.isEmpty then some candidate
  else do
    let envelope := candidate.envelope.withReceipts (deduplicated receipts)
    let payload ← rawEncoded dumpLength envelope
    return { candidate with envelope, payload, cumulativeBoundary := true }

def overflows (count bytes size : Nat) : Bool :=
  q.maxItems ≤ count || q.maxBytes < bytes + size

def victim (survivors : List QueuedEnvelope) : Option Nat :=
  (survivors.findIdx? QueuedEnvelope.isProgress).or
    (survivors.findIdx? fun queued => !queued.isTerminal)

/-- Drops victims until the item fits, at most `n` of them; `none` where none is left to drop. -/
def evict (q : BoundedRelayQueue) (size : Nat) :
    Nat → List QueuedEnvelope → Nat → Option (List QueuedEnvelope × Nat)
  | 0, survivors, bytes => some (survivors, bytes)
  | n + 1, survivors, bytes =>
    if q.overflows survivors.length bytes size then
      match victim survivors with
      | none => none
      | some i =>
        q.evict size n (survivors.eraseIdx i) (bytes - ((survivors[i]?.map (·.payload)).getD 0))
    else some (survivors, bytes)

def payloadBytes (items : List QueuedEnvelope) : Nat := (items.map (·.payload)).sum

def survivors : List QueuedEnvelope :=
  let removedIds := (coalesce q.items candidate).map (·.ident)
  q.items.filter fun queued => !removedIds.contains queued.ident

def place (item : QueuedEnvelope) (survivors : List QueuedEnvelope) : Bool × BoundedRelayQueue :=
  match q.evict item.payload survivors.length survivors (payloadBytes survivors) with
  | none => (false, q)
  | some (kept, bytes) =>
    if q.overflows kept.length bytes item.payload then (false, q)
    else
      (true, { q with
          items := kept ++ [{ item with ident := q.nextIdent }]
          bytes := bytes + item.payload
          nextIdent := q.nextIdent + 1 })

/-- `put`; `none` where it raises. -/
def put (item : QueuedEnvelope) : Option (Bool × BoundedRelayQueue) :=
  if q.maxBytes < item.payload then some (false, q)
  else do
    let receipts ← mergedReceipts item (coalesce q.items item)
    let merged ← withMergedReceipts dumpLength item receipts
    return q.place merged (q.survivors item)

/-- `get` of a queue that is not empty. -/
def get : Option (QueuedEnvelope × BoundedRelayQueue) :=
  match q.items with
  | [] => none
  | item :: rest => some (item, { q with items := rest, bytes := q.bytes - item.payload })

end BoundedRelayQueue

/-- `ChatV2RuntimeRedisRelay.enqueue`; `none` where it raises. -/
def enqueue (envelope : Envelope) (cumulativeBoundary : Bool) : Option (Bool × BoundedRelayQueue) :=
  match rawEncoded dumpLength envelope with
  | none => some (false, q)
  | some payload =>
    q.put dumpLength ⟨q.nextIdent, envelope, payload, cumulativeBoundary || envelope.inactive⟩

end Cognis.RuntimeRelay
