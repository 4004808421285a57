import Mathlib.Algebra.GroupWithZero.Nat
import Cognis.Library.Runs
import Cognis.Paging.EventStore

namespace Cognis.Paging

open List Runs SortByKey

structure Streams where
  log : String × String → List RawSessionEvent
  ascending : ∀ key, (log key).Pairwise (fun a b => a.seq < b.seq)

def Streams.lastSeq (s : Streams) (key : String × String) : Nat :=
  ((s.log key).getLast?.map (·.seq)).getD 0

theorem Streams.seq_le_lastSeq (s : Streams) {key : String × String} {e : RawSessionEvent}
    (he : e ∈ s.log key) : e.seq ≤ s.lastSeq key := by
  obtain ⟨l, last, hsplit⟩ := eq_nil_or_concat (s.log key) |>.resolve_left
    (ne_nil_of_mem he)
  rw [concat_eq_append] at hsplit
  have hlast : s.lastSeq key = last.seq := by
    rw [Streams.lastSeq, hsplit, getLast?_concat]
    rfl
  have hordered := s.ascending key
  rw [hsplit] at he hordered
  rw [hlast]
  rcases mem_append.mp he with hold | hnew
  · exact Nat.le_of_lt ((pairwise_append.mp hordered).2.2 e hold last mem_cons_self)
  · rw [mem_singleton.mp hnew]

def Streams.append (s : Streams) (key : String × String) (e : RawSessionEvent)
    (h : s.lastSeq key < e.seq) : Streams where
  log := Function.update s.log key (s.log key ++ [e])
  ascending key' := by
    by_cases hkey : key' = key
    · rw [hkey, Function.update_self, pairwise_append]
      refine ⟨s.ascending key, pairwise_singleton _ _, ?_⟩
      intro a ha b hb
      rw [mem_singleton.mp hb]
      exact Nat.lt_of_le_of_lt (s.seq_le_lastSeq ha) h
    · rw [Function.update_of_ne hkey]
      exact s.ascending key'

structure ForwardPage where
  events : List RawSessionEvent
  hasMoreAfter : Bool

/-- A forward read: the first `limit` events after a sequence number, and whether
there are more. -/
def Streams.readSessionEvents (s : Streams) (key : String × String) (afterSeq limit : Nat) :
    ForwardPage :=
  let later := (s.log key).filter (afterSeq < ·.seq)
  ⟨later.take limit, limit < later.length⟩

/-- A `ConversationSessionRef` whose stream is read from the growing log. -/
structure SyncRef where
  sessionId : String
  eventStoreSessionId : String
  store : String := "intaris"
  role : String := "root"
  ordinal : Nat
  deriving DecidableEq

def SyncRef.key (ref : SyncRef) : String × String := (ref.store, ref.eventStoreSessionId)

/-- `_tag_events` on one event. -/
def SyncRef.tag (ref : SyncRef) (event : RawSessionEvent) : RawSessionEvent :=
  { event with
    storeId := ref.store
    data := (event.data.set "_lineage_index" (.int ref.ordinal)).set "cognis_session_id"
      (.str ref.sessionId) }

/-- `_lineage_entries`. -/
def SyncRef.entry (ref : SyncRef) : CursorLineageEntry :=
  ⟨ref.store, ref.eventStoreSessionId, ref.role, ref.ordinal⟩

def InternalChatCursorPayload.watermark (p : InternalChatCursorPayload) (key : String × String) :
    Nat :=
  ((OrderedMap.ofList (p.sessionWatermarks.map fun w => ((w.store, w.sessionId), w.lastSeq))).get?
    key).getD 0

def encodeCursorForWatermarks (ctx : CursorContext) (refs : List SyncRef)
    (watermarks : StreamPositions) (now : Nat) : CursorToken :=
  encodeCursor ctx {
    scopeKey := ctx.scopeKey
    projectionVersion := ctx.projectionVersion
    sessionWatermarks := (sortBy (fun p => toLex p.1) watermarks.entries).map fun p =>
      ⟨p.1.1, p.1.2, p.2⟩
    lineage := refs.map SyncRef.entry
    viewRevision := watermarks.values.sum
    issuedAt := now
    expiresAt := some (now + cursorTtl) }

/-- `event_attachment_post_processor`: the attachments of an event are replaced by
what the artifact store makes of them. -/
def hydrateAttachments (hydrated : Nat → RawSessionEvent → PyValue)
    (events : List RawSessionEvent) : List RawSessionEvent :=
  events.mapIdx fun i event =>
    match event.data.get? "attachments" with
    | some (.list json) =>
      if json = "[]" then event
      else { event with data := event.data.set "attachments" (hydrated i event) }
    | _ => event

inductive SyncResponse where
  | reset (reason : String)
  /-- The events whose projection the response holds, and its `cursor_after`. -/
  | delta (events : List RawSessionEvent) (cursorAfter : CursorToken)

structure SyncRequest where
  refs : List SyncRef
  limit : Nat
  now : Nat
  previous : InternalChatCursorPayload
  /-- The watermark of each session, once it is read. -/
  marks : List (Option Nat)
  /-- The page of each session, once it is read; `some none` is a session without
  new events. -/
  pages : List (Option (Option ForwardPage))

/-- `current_watermarks`. -/
def SyncRequest.watermarks (r : SyncRequest) : StreamPositions :=
  OrderedMap.ofList ((r.refs.map SyncRef.key).zip (r.marks.map (·.getD 0)))

def SyncRequest.watermark (r : SyncRequest) (key : String × String) : Nat :=
  (r.watermarks.get? key).getD 0

/-- The events and the flag of `_read_events_after_cursor`. -/
def SyncRequest.readEvents (r : SyncRequest) : List RawSessionEvent × Bool :=
  let pages := r.refs.zip (r.pages.map Option.join)
  let raw := pages.flatMap fun p => (p.2.map fun page => page.events.map p.1.tag).getD []
  let tooLarge := pages.any fun p => p.2.any (·.hasMoreAfter)
  let sorted := sortRawEvents raw
  if r.limit + 1 ≤ sorted.length then (sorted.take (r.limit + 1), true) else (sorted, tooLarge)

/-- `build_chat_sync_response` after the reads. `paired` are the events that the
hydration of pairings read back, `itemCount` the size of the projected timeline. -/
def SyncRequest.respond (ctx : CursorContext) (itemCount : List RawSessionEvent → Nat)
    (hydrated : Nat → RawSessionEvent → PyValue) (r : SyncRequest)
    (paired : List RawSessionEvent) : SyncResponse :=
  let (raw, tooLarge) := r.readEvents
  if tooLarge || r.limit < raw.length then .reset "range_too_large"
  else
    let processed := hydrateAttachments hydrated raw
    let events := if paired = [] then processed else sortRawEvents (paired ++ processed)
    if r.limit < itemCount events then .reset "range_too_large"
    else .delta events (encodeCursorForWatermarks ctx r.refs r.watermarks r.now)

structure SyncSystem where
  streams : Streams
  cursor : CursorToken
  request : Option SyncRequest
  /-- The responses so far with the cursor each was asked for with. -/
  responses : List (CursorToken × SyncResponse)

inductive SyncEvent where
  | append (key : String × String) (event : RawSessionEvent)
  | request (refs : List SyncRef) (limit now : Nat)
  /-- The watermark of a session is read; the store may know an older one. -/
  | mark (i : Nat) (known : Nat)
  | page (i : Nat)
  | respond (paired : List RawSessionEvent)

def syncMinLimit : Nat := 1

def syncMaxLimit : Nat := 1000

/-- The request up to its first read. An invalid cursor or limit is an error and no
response. -/
def SyncSystem.start (ctx : CursorContext) (s : SyncSystem) (refs : List SyncRef)
    (limit now : Nat) : SyncSystem :=
  if limit < syncMinLimit ∨ syncMaxLimit < limit then s
  else
    match validateCursor ctx s.cursor now with
    | .error error =>
      if error.code = "cursor_invalid" then s
      else { s with responses := s.responses ++ [(s.cursor, .reset error.code)] }
    | .ok previous =>
      if previous.lineage ≠ refs.map SyncRef.entry then
        { s with responses := s.responses ++ [(s.cursor, .reset "lineage_changed")] }
      else
        { s with request := some ⟨refs, limit, now, previous, refs.map fun _ => none,
            refs.map fun _ => none⟩ }

/-- The read of `_read_changed`. -/
def SyncRequest.readChanged (r : SyncRequest) (streams : Streams) (ref : SyncRef) :
    Option ForwardPage :=
  let afterSeq := r.previous.watermark ref.key
  if r.watermark ref.key ≤ afterSeq then none
  else some (streams.readSessionEvents ref.key afterSeq (r.limit + 1))

/-- One append or one read. The pages are read after all the watermarks, the response
is built after all the pages. -/
def syncStep (ctx : CursorContext) (itemCount : List RawSessionEvent → Nat)
    (hydrated : Nat → RawSessionEvent → PyValue) (s : SyncSystem) : SyncEvent → SyncSystem
  | .append key event =>
    if h : s.streams.lastSeq key < event.seq then
      { s with streams := s.streams.append key event h }
    else s
  | .request refs limit now => if s.request.isSome then s else s.start ctx refs limit now
  | .mark i known =>
    match s.request with
    | none => s
    | some r =>
      match r.refs[i]? with
      | none => s
      | some ref =>
        if r.marks[i]? = some none then
          let marks := r.marks.set i (some (min known (s.streams.lastSeq ref.key)))
          { s with request := some { r with marks := marks } }
        else s
  | .page i =>
    match s.request with
    | none => s
    | some r =>
      match r.refs[i]? with
      | none => s
      | some ref =>
        if r.marks.all (·.isSome) && (r.pages[i]?).any (·.isNone) then
          let pages := r.pages.set i (some (r.readChanged s.streams ref))
          { s with request := some { r with pages := pages } }
        else s
  | .respond paired =>
    match s.request with
    | none => s
    | some r =>
      if r.pages.all (·.isSome) then
        let response := r.respond ctx itemCount hydrated paired
        { s with
          request := none
          responses := s.responses ++ [(s.cursor, response)]
          cursor :=
            match response with
            | .delta _ cursorAfter => cursorAfter
            | .reset _ => s.cursor }
      else s

end Cognis.Paging
