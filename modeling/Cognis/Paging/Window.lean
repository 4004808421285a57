import Mathlib.Algebra.GroupWithZero.Nat
import Cognis.Paging.EventStore

namespace Cognis.Paging

open List SortByKey

def snapshotWindowEventLimit : Nat := 800
def snapshotInitialSessionFanout : Nat := 1
def snapshotMaxSessionFanout : Nat := 8
def backfillMinLimit : Nat := 1
def backfillMaxLimit : Nat := 200

structure EventWindow where
  events : List RawSessionEvent := []
  hasMoreBefore : Bool := false
  beforePositions : List CursorSessionWatermark := []
  deriving DecidableEq

variable (ctx : CursorContext) (c : Chunk) (event : RawSessionEvent)
  (refs : List ConversationSessionRef) (positions : CompositePositions) (limit : Nat)
  (ref : ConversationSessionRef) (before : Option CursorToken)

def validateBackfillLimit : Except ChatV2SyncError Nat :=
  if limit < backfillMinLimit ∨ backfillMaxLimit < limit then
    .error ⟨"invalid_limit", "limit must be between 1 and 200"⟩
  else .ok limit

structure PageRead where
  lineageIndex : Nat
  ref : ConversationSessionRef
  page : SessionEventPage

/-- Accumulators shared by the two single-position sweeps. -/
structure Sweep where
  rawEvents : List RawSessionEvent := []
  remaining : Nat
  hasMoreBefore : Bool := false

def Sweep.stopped (s : Sweep) : Bool := s.hasMoreBefore || s.remaining == 0

/-- The inner `for batch_offset` loop of `_read_latest_window`, newest page first. -/
def latestBatch : List PageRead → Sweep → Sweep
  | [], s => s
  | r :: rest, s =>
    let tagged := tagEvents (lastN s.remaining r.page.events) r.ref
    let s' : Sweep := ⟨s.rawEvents ++ tagged, s.remaining - tagged.length, s.hasMoreBefore⟩
    if r.page.hasMoreBefore then { s' with hasMoreBefore := true }
    else if s'.remaining = 0 then
      { s' with hasMoreBefore := if 0 < r.lineageIndex then true else s'.hasMoreBefore }
    else latestBatch rest s'

def readPage (beforeSeq : Option Nat) (lineageIndex : Nat)
    (ref : ConversationSessionRef) : PageRead :=
  ⟨lineageIndex, ref, ref.reader.readSessionEvents beforeSeq limit⟩

/-- The `while remaining > 0 and next_index > 0` loop; `fuel` bounds its rounds. -/
def latestRounds (refs : List ConversationSessionRef) (limit : Nat) :
    Nat → Nat → Nat → Sweep → Sweep
  | 0, _, _, s => s
  | fuel + 1, nextIndex, batchSize, s =>
    if 0 < s.remaining ∧ 0 < nextIndex then
      let batchStart := nextIndex - batchSize
      let batchRefs := (refs.take nextIndex).drop batchStart
      let pages :=
        batchRefs.mapIdx (fun offset ref => readPage limit none (batchStart + offset) ref)
      let s' := latestBatch pages.reverse s
      if s'.stopped then s'
      else latestRounds refs limit fuel batchStart (min (batchSize * 2) snapshotMaxSessionFanout) s'
    else s

def readLatestWindow (initialReadWindow : Option Nat) : EventWindow :=
  let limit := initialReadWindow.getD snapshotWindowEventLimit
  let s := latestRounds refs limit refs.length refs.length snapshotInitialSessionFanout
    { remaining := limit }
  { events := sortRawEvents s.rawEvents, hasMoreBefore := s.hasMoreBefore }

/-- The `for lineage_index` loop of `_read_backfill_window`, newest page first. The
target page keeps only events below the cursor. -/
def backfillSweep (targetIndex targetSeq : Nat) : List PageRead → Sweep → Sweep
  | [], s => s
  | r :: rest, s =>
    if s.remaining = 0 then { s with hasMoreBefore := true }
    else
      let events := if r.lineageIndex = targetIndex then
        r.page.events.filter (fun event => event.seq < targetSeq) else r.page.events
      let tagged := tagEvents (lastN s.remaining events) r.ref
      let s' : Sweep := ⟨s.rawEvents ++ tagged, s.remaining - tagged.length, s.hasMoreBefore⟩
      if r.page.hasMoreBefore then { s' with hasMoreBefore := true }
      else backfillSweep targetIndex targetSeq rest { s' with hasMoreBefore :=
            if s'.remaining = 0 ∧ 0 < r.lineageIndex then true else s'.hasMoreBefore }

def datetimeMin : Int := -62135596800000000

abbrev GlobalKey := Int ×ₗ (Int ×ₗ (String ×ₗ (Nat ×ₗ String)))

def globalEventKey : GlobalKey :=
  toLex (event.timestamp.getD datetimeMin, toLex (lineageIndex event,
    toLex (event.storeId, toLex (event.seq, event.eventId.getD ""))))

/-- `(store_id, session_id, seq, event_id)`. -/
def selectionId : String × String × Nat × Option String :=
  (event.storeId, event.sessionId, event.seq, event.eventId)

/-- The positions of a composite request: each stream's frontier, `none` at the start. -/
abbrev CompositePositions := OrderedMap (String × String) (Option Nat)

def globalPositions (now : Nat) : Except ChatV2SyncError CompositePositions := do
  match before with
  | none => return OrderedMap.ofList (refs.map (fun ref => (ref.stream, none)))
  | some token =>
    let payload ← validateCursor ctx token now
    if payload.lineage ≠ [] ∧ payload.lineage ≠ lineageEntries refs then
      throw ⟨"lineage_changed", "Timeline cursor lineage no longer matches"⟩
    if payload.graphFingerprint ≠ none ∧
        payload.graphFingerprint ≠ some (lineageFingerprint ctx refs) then
      throw ⟨"lineage_changed", "Composite Work cursor graph fingerprint no longer matches"⟩
    let positions ←
      if payload.ordinalFrontiers ≠ [] then
        if payload.ordinalFrontiers.length ≠ refs.length then
          throw ⟨"lineage_changed", "Composite Work cursor frontier count no longer matches"⟩
        else pure (OrderedMap.ofList ((refs.zip payload.ordinalFrontiers).map
          (fun p => (p.1.stream, some p.2))))
      else if payload.beforePositions ≠ [] then
        pure (OrderedMap.ofList (payload.beforePositions.map
          (fun item => ((item.store, item.sessionId), some item.lastSeq))))
      else throw ⟨"invalid_before_cursor", "Composite Work cursor has no stream frontiers"⟩
    if ∀ key ∈ positions.keys ++ refs.map (·.stream),
        key ∈ positions.keys ∧ key ∈ refs.map (·.stream) then
      return positions
    else throw ⟨"lineage_changed", "Composite Work cursor stream set no longer matches"⟩

def pageBelow (page : SessionEventPage) (beforeSeq : Option Nat) : List RawSessionEvent :=
  match beforeSeq with
  | none => page.events
  | some s => page.events.filter (fun event => event.seq < s)

def initialFrontier (beforeSeq : Option Nat) (events : List RawSessionEvent) : Nat :=
  match beforeSeq with
  | some s => s
  | none => match events.map (·.seq) with
    | [] => 0
    | q :: qs => qs.foldl max q + 1

def lowerFrontier (positions : StreamPositions) (event : RawSessionEvent) : StreamPositions :=
  positions.set (event.storeId, event.sessionId)
    (min ((positions.get? (event.storeId, event.sessionId)).getD event.seq) event.seq)

def streamKeyLe (a b : (String × String) × Nat) : Prop :=
  toLex (a.1.1, toLex (a.1.2, a.2)) ≤ toLex (b.1.1, toLex (b.1.2, b.2))

instance : DecidableRel streamKeyLe := fun a b =>
  inferInstanceAs
    (Decidable (toLex (a.1.1, toLex (a.1.2, a.2)) ≤ toLex (b.1.1, toLex (b.1.2, b.2))))

def beforeOf : Option Nat :=
  (positions.get? ref.stream).getD none

def streamPage : SessionEventPage :=
  ref.reader.readSessionEvents (beforeOf positions ref) limit

def streamEvents : List RawSessionEvent :=
  pageBelow (streamPage positions limit ref) (beforeOf positions ref)

def candidates : List RawSessionEvent :=
  refs.flatMap (fun ref => tagEvents (streamEvents positions limit ref) ref)

def selectNewest : List RawSessionEvent :=
  topBy globalEventKey limit (candidates refs positions limit)

def nextFrontiers : StreamPositions :=
  (selectNewest refs positions limit).foldl lowerFrontier (OrderedMap.ofList (refs.map (fun ref =>
      (ref.stream, initialFrontier (beforeOf positions ref) (streamEvents positions limit ref)))))

/-- The part of `_read_global_backfill_window` after the cursor has been resolved. -/
def globalWindow : EventWindow :=
  let newest := selectNewest refs positions limit
  let selectedIds := newest.map selectionId
  { hasMoreBefore := refs.any (fun ref => (streamPage positions limit ref).hasMoreBefore ||
      (streamPage positions limit ref).events.any
        (fun event => !selectedIds.contains (selectionId event)))
    events := (sortBy globalEventKey newest).mapIdx (fun index event =>
      { event with data := event.data.set "_lineage_index" (.int index) })
    beforePositions := ((nextFrontiers refs positions limit).entries.insertionSort streamKeyLe).map
      (fun p => ⟨p.1.1, p.1.2, p.2⟩) }

def readGlobalBackfillWindow (limit now : Nat) : Except ChatV2SyncError EventWindow := do
  let positions ← globalPositions ctx refs before now
  return globalWindow refs positions limit

/-- The single-position branch of `_read_backfill_window`. -/
def readSinglePosition (payload : InternalChatCursorPayload)
    (limit : Nat) : Except ChatV2SyncError EventWindow :=
  if payload.lineage ≠ lineageEntries refs then
    .error ⟨"lineage_changed", "Timeline cursor lineage no longer matches"⟩
  else match payload.sessionWatermarks with
  | [target] =>
    match refs.findIdx? (fun ref => ref.store = target.store ∧
        ref.eventStoreSessionId = target.sessionId) with
    | none => .error ⟨"invalid_before_cursor", "Timeline cursor session is unknown"⟩
    | some targetIndex =>
      let pages := (refs.take (targetIndex + 1)).mapIdx (fun index ref =>
        readPage limit (if index = targetIndex then some target.lastSeq else none) index ref)
      let s := backfillSweep targetIndex target.lastSeq pages.reverse { remaining := limit }
      .ok { events := sortRawEvents s.rawEvents, hasMoreBefore := s.hasMoreBefore }
  | _ => .error ⟨"invalid_before_cursor", "Timeline cursor has invalid shape"⟩

def readBackfillWindow (limit now : Nat) : Except ChatV2SyncError EventWindow := do
  let useGlobal ← match before with
    | none => pure (decide (1 < refs.length))
    | some token =>
      if 1 < refs.length then do
        let candidate ← validateCursor ctx token now
        pure (!candidate.beforePositions.isEmpty || !candidate.ordinalFrontiers.isEmpty)
      else pure false
  if useGlobal then readGlobalBackfillWindow ctx refs before limit now
  else match before with
    | none => return readLatestWindow refs (some limit)
    | some token =>
      let payload ← validateCursor ctx token now
      readSinglePosition refs payload limit

/-- The cursor `build_chat_snapshot` and `build_timeline_backfill_response` put next
to a window. -/
def beforeCursorOf (now : Nat) (window : EventWindow) : Option CursorToken :=
  if window.hasMoreBefore then
    encodeBeforeCursor ctx refs (earliestEventPosition window.events) now window.beforePositions
  else none

inductive PagingError where
  | sync (error : ChatV2SyncError)
  | outOfFuel
  deriving DecidableEq

/-- Follow the before-cursors from `window` until no older history is announced.
Request `i` is served at time `clock i`. -/
def followBefore (ctx : CursorContext) (refs : List ConversationSessionRef) (limit : Nat)
    (clock : Nat → Nat) : Nat → Nat → EventWindow → Except PagingError (List EventWindow)
  | fuel, i, window =>
    if window.hasMoreBefore then
      match fuel with
      | 0 => .error .outOfFuel
      | fuel + 1 =>
        match readBackfillWindow ctx refs (beforeCursorOf ctx refs (clock i) window) limit
            (clock (i + 1)) with
        | .error e => .error (.sync e)
        | .ok next => (followBefore ctx refs limit clock fuel (i + 1) next).map (window :: ·)
    else .ok [window]

def position : String × String × Nat :=
  (event.storeId, event.sessionId, event.seq)

def returnedPositions (windows : List EventWindow) : List (String × String × Nat) :=
  windows.flatMap (fun w => w.events.map position)

def ReturnedOnce (windows : List EventWindow) : Prop :=
  ∀ ref ∈ refs, ∀ event ∈ ref.reader.events, (returnedPositions windows).count
      (ref.store, ref.eventStoreSessionId, event.seq) = 1

instance (refs : List ConversationSessionRef) (windows : List EventWindow) :
    Decidable (ReturnedOnce refs windows) :=
  inferInstanceAs (Decidable (∀ ref ∈ refs, ∀ event ∈ ref.reader.events, _ = 1))

abbrev Chunk := ConversationSessionRef × List RawSessionEvent

def Chunk.tagged : List RawSessionEvent := tagEvents c.2 c.1

def chunkLog (chunks : List Chunk) : List RawSessionEvent := chunks.flatMap Chunk.tagged

/-- The events a sweep with budget `r` keeps, newest session first. -/
def sweepEvents : Nat → List Chunk → List RawSessionEvent
  | _, [] => []
  | r, c :: rest =>
    if r ≤ c.2.length then tagEvents (c.2.drop (c.2.length - r)) c.1
    else c.tagged ++ sweepEvents (r - c.2.length) rest

/-- The flag of a sweep over sessions of the given sizes, newest first. -/
def moreBefore (limit : Nat) : Nat → List Nat → Bool
  | _, [] => false
  | r, n :: ns =>
    if limit < n then true else if r ≤ n then !ns.isEmpty else moreBefore limit (r - n) ns

def Chunk.size : Nat := c.2.length

@[simp] theorem Chunk.tagged_length : c.tagged.length = c.size := by
  simp [Chunk.tagged, Chunk.size]

@[simp] theorem chunkLog_append (xs ys : List Chunk) :
    chunkLog (xs ++ ys) = chunkLog xs ++ chunkLog ys := by simp [chunkLog]

@[simp] theorem chunkLog_singleton : chunkLog [c] = c.tagged := by simp [chunkLog]

theorem chunkLog_length (chunks : List Chunk) :
    (chunkLog chunks).length = (chunks.map Chunk.size).sum := by
  induction chunks with
  | nil => rfl
  | cons => simp_all [chunkLog]

/-- The pages of a sweep, each with the chunk it was cut from and numbered by how many
sessions are still older. -/
inductive Serves (limit : Nat) : List PageRead → List Chunk → Prop
  | nil : Serves limit [] []
  | cons {r : PageRead} {rest : List PageRead} {events : List RawSessionEvent}
      {chunks : List Chunk} (hi : r.lineageIndex = rest.length)
      (hp : r.page = ⟨events.drop (events.length - limit), limit < events.length⟩)
      (h : Serves limit rest chunks) : Serves limit (r :: rest) ((r.ref, events) :: chunks)

variable {limit : Nat} {reads : List PageRead} {chunks : List Chunk}

theorem Serves.length_eq (h : Serves limit reads chunks) : reads.length = chunks.length := by
  induction h with
  | nil => rfl
  | cons _ _ _ ih => simp [ih]

theorem lastN_drop {r : Nat} (hr : 0 < r) (hl : r ≤ limit) (events : List RawSessionEvent) :
    lastN r (events.drop (events.length - limit)) = events.drop (events.length - r) := by
  rw [lastN, if_neg (by omega), drop_drop, length_drop]
  congr 1
  omega

theorem latestBatch_spec (h : Serves limit reads chunks) (s : Sweep) (hr : 0 < s.remaining)
    (hl : s.remaining ≤ limit) (hm : s.hasMoreBefore = false) :
    (latestBatch reads s).rawEvents = s.rawEvents ++ sweepEvents s.remaining chunks ∧
    (latestBatch reads s).hasMoreBefore = moreBefore limit s.remaining (chunks.map Chunk.size) := by
  induction h generalizing s with
  | nil => simp [latestBatch, sweepEvents, moreBefore, hm]
  | @cons r rest events chunks hi hp hs ih =>
    have hcut : lastN s.remaining r.page.events = events.drop (events.length - s.remaining) := by
      rw [hp]
      exact lastN_drop hr hl events
    have hmore : r.page.hasMoreBefore = decide (limit < events.length) := by rw [hp]
    have hlen := hs.length_eq
    simp only [latestBatch, hcut, hmore, tagEvents_length, length_drop, map_cons,
      Chunk.size, moreBefore, sweepEvents]
    by_cases hbig : limit < events.length
    · have hfit : s.remaining ≤ events.length := by omega
      simp [hbig, hfit]
    · by_cases hfit : s.remaining ≤ events.length
      · have hzero : s.remaining - (events.length - (events.length - s.remaining)) = 0 := by omega
        have hidx : (0 < r.lineageIndex) ↔ chunks ≠ [] := by
          rw [hi, hlen]; exact length_pos_iff
        by_cases hc : chunks = [] <;> simp [hbig, hfit, hzero, hidx, hc, hm]
      · have hall : events.length - s.remaining = 0 := by omega
        have hne : s.remaining - events.length ≠ 0 := by omega
        obtain ⟨he, hf⟩ := ih ⟨s.rawEvents ++ tagEvents events r.ref,
          s.remaining - events.length, s.hasMoreBefore⟩ (by simp; omega) (by simp; omega) hm
        simp only [hbig, hfit, hall, Nat.sub_zero, hne, drop_zero, if_false,
          decide_false, Bool.false_eq_true]
        exact ⟨by rw [he, append_assoc]; rfl, hf⟩

theorem latestBatch_append (xs ys : List PageRead) (s : Sweep) (hs : s.stopped = false) :
    latestBatch (xs ++ ys) s =
      if (latestBatch xs s).stopped then latestBatch xs s
      else latestBatch ys (latestBatch xs s) := by
  induction xs generalizing s with
  | nil => simp [latestBatch, hs]
  | cons r xs ih =>
    have hm : s.hasMoreBefore = false := by simp_all [Sweep.stopped]
    simp only [cons_append, latestBatch]
    by_cases hmore : r.page.hasMoreBefore = true
    · simp [hmore, Sweep.stopped]
    · by_cases hzero : s.remaining - (tagEvents (lastN s.remaining r.page.events) r.ref).length = 0
      · simp only [hmore, hzero, if_true, Bool.false_eq_true, if_false]
        simp [Sweep.stopped]
      · simp only [hmore, hzero, if_false, Bool.false_eq_true]
        exact ih _ (by simpa [Sweep.stopped, hm] using hzero)

def allReads (limit n : Nat) : List PageRead :=
  ((refs.take n).mapIdx (fun index ref => readPage limit none index ref)).reverse

theorem allReads_split (limit : Nat) {n m : Nat} (hm : m ≤ n) (hn : n ≤ refs.length) :
    allReads refs limit n =
      (((refs.take n).drop m).mapIdx
        (fun offset ref => readPage limit none (m + offset) ref)).reverse
        ++ allReads refs limit m := by
  have htake : refs.take n = refs.take m ++ (refs.take n).drop m := by
    conv_lhs => rw [← take_append_drop m (refs.take n)]
    rw [take_take, Nat.min_eq_left hm]
  have hlen : (refs.take m).length = m := by simp; omega
  unfold allReads
  rw [htake, mapIdx_append, reverse_append, hlen]
  simp only [drop_append, hlen, Nat.sub_self, drop_zero, drop_of_length_le (le_of_eq hlen),
    nil_append]
  simp only [Nat.add_comm]

theorem latestRounds_eq (limit fuel nextIndex batchSize : Nat) (s : Sweep) (hs : s.stopped = false)
    (hf : nextIndex ≤ fuel) (hn : nextIndex ≤ refs.length) (hb : 0 < batchSize) :
    latestRounds refs limit fuel nextIndex batchSize s = latestBatch
      (allReads refs limit nextIndex) s := by
  induction fuel generalizing nextIndex batchSize s with
  | zero =>
    have h0 : nextIndex = 0 := by omega
    simp [latestRounds, h0, allReads, latestBatch]
  | succ fuel ih =>
    have hr : 0 < s.remaining := by
      have h : s.remaining ≠ 0 := by simp_all [Sweep.stopped]
      omega
    by_cases h0 : nextIndex = 0
    · simp [latestRounds, h0, allReads, latestBatch]
    · rw [allReads_split refs limit (Nat.sub_le nextIndex batchSize) hn,
        latestBatch_append _ _ s hs,
        latestRounds, if_pos ⟨hr, by omega⟩]
      dsimp only
      split_ifs with hstop
      · rfl
      · exact ih _ _ _ (by simpa using hstop) (by omega) (by omega)
          (by simp [snapshotMaxSessionFanout]; omega)

variable {targetIndex targetSeq : Nat}

/-- On the pages the store serves, a backfill stops where the latest rounds do: the next read
after the room is used up finds only what the lineage index said before. -/
theorem backfillSweep_eq (h : Serves limit reads chunks)
    (ht : ∀ r ∈ reads, r.lineageIndex = targetIndex → ∀ e ∈ r.page.events, e.seq < targetSeq)
    (s : Sweep) (hr : 0 < s.remaining) :
    backfillSweep targetIndex targetSeq reads s = latestBatch reads s := by
  induction h generalizing s with
  | nil => rfl
  | @cons r rest events chunks hi hp hs ih =>
    -- The store already cut the target page below the cursor, so its filter keeps all.
    have hkeep : (if r.lineageIndex = targetIndex then
        r.page.events.filter (fun event => event.seq < targetSeq) else r.page.events) =
        r.page.events := by
      split_ifs with hx
      · exact filter_eq_self.mpr (fun e he => by simpa using ht r (by simp) hx e he)
      · rfl
    rw [backfillSweep, if_neg hr.ne', hkeep, latestBatch]
    dsimp only
    split
    · rfl
    · generalize s.remaining - (tagEvents (lastN s.remaining r.page.events) r.ref).length = left
      by_cases hzero : left = 0
      · cases rest <;> simp [backfillSweep, hzero, hi]
      · rw [if_neg hzero, if_neg fun hboth => hzero hboth.1]
        exact ih (fun q hq => ht q (mem_cons_of_mem _ hq)) _ (Nat.pos_of_ne_zero hzero)

theorem backfillSweep_spec (h : Serves limit reads chunks)
    (ht : ∀ r ∈ reads, r.lineageIndex = targetIndex → ∀ e ∈ r.page.events, e.seq < targetSeq)
    (s : Sweep) (hr : 0 < s.remaining) (hl : s.remaining ≤ limit) (hm : s.hasMoreBefore = false) :
    (backfillSweep targetIndex targetSeq reads s).rawEvents =
      s.rawEvents ++ sweepEvents s.remaining chunks ∧
    (backfillSweep targetIndex targetSeq reads s).hasMoreBefore =
      moreBefore limit s.remaining (chunks.map Chunk.size) := by
  rw [backfillSweep_eq h ht s hr]
  exact latestBatch_spec h s hr hl hm

theorem sweepEvents_perm (r : Nat) (chunks : List Chunk) : (sweepEvents r chunks).Perm
      ((chunkLog chunks.reverse).drop ((chunkLog chunks.reverse).length - r)) := by
  induction chunks generalizing r with
  | nil => simp [sweepEvents, chunkLog]
  | cons c rest ih =>
    rw [reverse_cons, chunkLog_append, chunkLog_singleton, length_append,
      Chunk.tagged_length, drop_append]
    unfold sweepEvents
    split_ifs with h
    · have h' : r ≤ c.size := h
      have hold : (chunkLog rest.reverse).drop ((chunkLog rest.reverse).length + c.size - r) = [] :=
        drop_of_length_le (by omega)
      have hcut : (chunkLog rest.reverse).length + c.size - r - (chunkLog rest.reverse).length =
          c.2.length - r := by simp only [Chunk.size] at h' ⊢; omega
      rw [hold, hcut]
      simp [Chunk.tagged, tagEvents, map_drop]
    · have h' : c.size < r := by simpa [Chunk.size] using h
      have hcut : (chunkLog rest.reverse).length + c.size - r =
          (chunkLog rest.reverse).length - (r - c.2.length) := by
        simp only [Chunk.size] at h' ⊢; omega
      have hall : (chunkLog rest.reverse).length - (r - c.2.length) -
          (chunkLog rest.reverse).length = 0 := by omega
      rw [hcut, hall, drop_zero]
      exact perm_append_comm.trans ((ih _).append_right _)

end Cognis.Paging
