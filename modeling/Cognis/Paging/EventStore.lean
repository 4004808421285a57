import Mathlib.Data.Prod.Lex
import Mathlib.Data.String.Basic
import Cognis.Library.OrderedMap
import Cognis.Library.SortByKey

namespace Cognis.Paging

variable (ctx : CursorContext) (events : List RawSessionEvent) (refs : List ConversationSessionRef)

variable (ref : ConversationSessionRef) (e : RawSessionEvent)

section

open SortByKey

/-- Values of an event's `data` dict. Nested lists and dicts are held as their
JSON text: nothing modelled here looks inside them. -/
inductive PyValue where
  | none
  | bool (b : Bool)
  | int (i : Int)
  | str (s : String)
  | list (json : String)
  | dict (json : String)
  deriving DecidableEq

abbrev PyDict := OrderedMap String PyValue

structure RawSessionEvent where
  storeId : String
  sessionId : String
  seq : Nat
  type : String
  data : PyDict := OrderedMap.empty
  eventId : Option String := none
  /-- Microseconds; `none` is a missing timestamp. -/
  timestamp : Option Int := none
  lane : Option String := none
  promptVisibility : Option String := none
  deriving DecidableEq

structure SessionEventPage where
  events : List RawSessionEvent
  hasMoreBefore : Bool
  deriving DecidableEq

structure SessionReader where
  events : List RawSessionEvent
  ascending : events.Pairwise (fun a b => a.seq < b.seq)

def SessionReader.before (r : SessionReader) : Option Nat → List RawSessionEvent
  | none => r.events
  | some beforeSeq => r.events.filter (fun e => e.seq < beforeSeq)

/-- A backward read: the `limit` newest events below `beforeSeq` in seq order,
flagged when older ones exist. -/
def SessionReader.readSessionEvents (r : SessionReader) (beforeSeq : Option Nat)
    (limit : Nat) : SessionEventPage :=
  ⟨(r.before beforeSeq).drop ((r.before beforeSeq).length - limit),
    limit < (r.before beforeSeq).length⟩

structure ConversationSessionRef where
  sessionId : String
  eventStoreSessionId : String
  store : String := "intaris"
  role : String := "root"
  ordinal : Nat
  reader : SessionReader
  /-- The event store stamps every event with the stream it was read from. -/
  readerSession : ∀ e ∈ reader.events, e.sessionId = eventStoreSessionId
  readerStore : ∀ e ∈ reader.events, e.storeId = store

namespace ConversationSessionRef

def stream (ref : ConversationSessionRef) : String × String :=
  (ref.store, ref.eventStoreSessionId)

end ConversationSessionRef

/-- The ordered sessions of one timeline scope: ordinals number them in order and
no stream is listed twice. -/
structure Lineage where
  refs : List ConversationSessionRef
  ordinals : refs.Pairwise (fun a b => a.ordinal < b.ordinal)
  streams : refs.Pairwise (fun a b => a.stream ≠ b.stream)

def tag (ref : ConversationSessionRef) (event : RawSessionEvent) : RawSessionEvent :=
  { event with
    storeId := ref.store
    data := (event.data.set "_lineage_index" (.int ref.ordinal)).set "cognis_session_id"
      (.str ref.sessionId) }

def tagEvents (ref : ConversationSessionRef) : List RawSessionEvent := events.map (tag ref)

/-- `int(event.data.get("_lineage_index") or 0)`. -/
def lineageIndex (event : RawSessionEvent) : Int :=
  match event.data.get? "_lineage_index" with
  | some (.int i) => i
  | some (.bool b) => b.toNat
  | _ => 0

abbrev EventKey := Int ×ₗ (Nat ×ₗ String)

def eventKey (event : RawSessionEvent) : EventKey :=
  toLex (lineageIndex event, toLex (event.seq, event.eventId.getD ""))

def sortRawEvents : List RawSessionEvent :=
  sortBy eventKey events

/-- `events[-n:]`, whose `-0` is the whole list. -/
def lastN (n : Nat) (events : List RawSessionEvent) : List RawSessionEvent :=
  if n = 0 then events else events.drop (events.length - n)

@[simp] theorem tag_seq : (tag ref e).seq = e.seq := rfl

@[simp] theorem tag_storeId : (tag ref e).storeId = ref.store := rfl

@[simp] theorem tag_sessionId : (tag ref e).sessionId = e.sessionId := rfl

@[simp] theorem tag_eventId : (tag ref e).eventId = e.eventId := rfl

@[simp] theorem tag_timestamp : (tag ref e).timestamp = e.timestamp := rfl

@[simp] theorem lineageIndex_tag : lineageIndex (tag ref e) = ref.ordinal := by
  simp [lineageIndex, tag, OrderedMap.get?_set]

@[simp] theorem tagEvents_length (ref : ConversationSessionRef) :
    (tagEvents events ref).length = events.length := by simp [tagEvents]

@[simp] theorem tagEvents_append (xs ys : List RawSessionEvent) (ref : ConversationSessionRef) :
    tagEvents (xs ++ ys) ref = tagEvents xs ref ++ tagEvents ys ref := by simp [tagEvents]

theorem eventKey_lt_of_seq_lt {a b : RawSessionEvent}
    (h : a.seq < b.seq) : eventKey (tag ref a) < eventKey (tag ref b) := by
  simp [eventKey, Prod.Lex.toLex_lt_toLex, h]

theorem eventKey_lt_of_ordinal_lt {r₁ r₂ : ConversationSessionRef} (a b : RawSessionEvent)
    (h : r₁.ordinal < r₂.ordinal) : eventKey (tag r₁ a) < eventKey (tag r₂ b) := by
  simp [eventKey, Prod.Lex.toLex_lt_toLex, h]

end

structure ChatV2SyncError where
  code : String
  message : String
  deriving DecidableEq

structure CursorSessionWatermark where
  store : String
  sessionId : String
  lastSeq : Nat
  deriving DecidableEq

structure CursorLineageEntry where
  store : String
  sessionId : String
  role : String
  ordinal : Nat
  deriving DecidableEq

/-- Times are seconds. `version` has a single literal value and is left out. -/
structure InternalChatCursorPayload where
  scopeKey : String
  projectionVersion : String
  sessionWatermarks : List CursorSessionWatermark := []
  beforePositions : List CursorSessionWatermark := []
  ordinalFrontiers : List Nat := []
  lineage : List CursorLineageEntry := []
  graphFingerprint : Option String := none
  viewRevision : Nat
  issuedAt : Nat
  expiresAt : Option Nat := none
  deriving DecidableEq

/-- A cursor token: the payload next to its signature. The base64 and JSON text
layer is transparent; what the server trusts is the signature. -/
structure CursorToken where
  payload : InternalChatCursorPayload
  signature : String
  deriving DecidableEq

/-- What a paging request fixes besides the cursor: the scope it is for, the server's
secret and projection version, its keyed hash and the lineage digest. -/
structure CursorContext where
  scopeKey : String
  secret : String
  projectionVersion : String
  sign : InternalChatCursorPayload → String → String
  sha256 : String → String

def cursorTtl : Nat := 30 * 24 * 60 * 60

variable (payload : InternalChatCursorPayload)

def encodeCursor : CursorToken :=
  ⟨payload, ctx.sign payload ctx.secret⟩

def decodeCursor (token : CursorToken) : Except ChatV2SyncError InternalChatCursorPayload :=
  if token.signature = ctx.sign token.payload ctx.secret then .ok token.payload
  else .error ⟨"cursor_invalid", "Invalid chat cursor signature"⟩

/-- `validate_cursor`, its `ChatCursorError` already turned into the reset reason
that every caller here raises. -/
def validateCursor (token : CursorToken) (now : Nat) :
    Except ChatV2SyncError InternalChatCursorPayload := do
  let payload ← decodeCursor ctx token
  if payload.scopeKey ≠ ctx.scopeKey then
    throw ⟨"cursor_invalid", "Chat cursor belongs to a different timeline scope"⟩
  if payload.projectionVersion ≠ ctx.projectionVersion then
    throw
      ⟨"projection_version_changed", "Chat cursor was issued for a different projection version"⟩
  match payload.expiresAt with
  | some expiresAt =>
    if expiresAt ≤ now then throw ⟨"cursor_expired", "Chat cursor has expired"⟩
    return payload
  | none => return payload

def lineageEntries : List CursorLineageEntry :=
  refs.map (fun ref => ⟨ref.store, ref.eventStoreSessionId, ref.role, ref.ordinal⟩)

def lineageFingerprint : String :=
  ctx.sha256 (String.intercalate "|" (refs.map (fun ref =>
    toString ref.ordinal ++ ":" ++ ref.store ++ ":" ++ ref.eventStoreSessionId ++ ":" ++ ref.role)))

abbrev StreamPositions := OrderedMap (String × String) Nat

def encodeBeforeCursor (sourcePosition : Option CursorSessionWatermark) (now : Nat)
    (beforePositions : List CursorSessionWatermark) : Option CursorToken :=
  if sourcePosition = none ∧ beforePositions = [] then none
  else
    let positions : StreamPositions :=
      OrderedMap.ofList
        (beforePositions.map (fun item => ((item.store, item.sessionId), item.lastSeq)))
    some (encodeCursor ctx {
      scopeKey := ctx.scopeKey
      projectionVersion := ctx.projectionVersion
      sessionWatermarks := sourcePosition.toList
      beforePositions := []
      -- A missing stream would be a KeyError; every caller covers all refs.
      ordinalFrontiers := if beforePositions = [] then []
        else refs.map (fun ref => (positions.get? ref.stream).getD 0)
      lineage := if beforePositions = [] then lineageEntries refs else []
      graphFingerprint := if beforePositions = [] then none else some (lineageFingerprint ctx refs)
      viewRevision := (sourcePosition.map (·.lastSeq)).getD 0
      issuedAt := now
      expiresAt := some (now + cursorTtl) })

/-- `min` takes the first event of least key, the head of the stable sort. -/
def earliestEventPosition : Option CursorSessionWatermark :=
  (sortRawEvents events).head?.map (fun event => ⟨event.storeId, event.sessionId, event.seq⟩)

theorem validateCursor_encodeCursor
    (now : Nat) (hs : payload.scopeKey = ctx.scopeKey)
    (hv : payload.projectionVersion = ctx.projectionVersion)
    (he : ∀ t ∈ payload.expiresAt, now < t) :
    validateCursor ctx (encodeCursor ctx payload) now = .ok payload := by
  have hd : decodeCursor ctx (encodeCursor ctx payload) = .ok payload := by
    simp [decodeCursor, encodeCursor]
  unfold validateCursor
  rw [hd]
  cases hx : payload.expiresAt with
  | none => simp [hs, hv, hx, bind, Except.bind, pure, Except.pure]
  | some t =>
    have ht : ¬ t ≤ now := not_le.mpr (he t (by simp [hx]))
    simp [hs, hv, hx, ht, bind, Except.bind, pure, Except.pure]

end Cognis.Paging
