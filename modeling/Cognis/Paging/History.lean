import Mathlib.Algebra.Order.BigOperators.Group.List
import Cognis.Paging.Window

namespace Cognis.Paging

open List SortByKey

def lineageChunks (refs : List ConversationSessionRef) : List Chunk :=
  refs.map (fun ref => (ref, ref.reader.events))

def historyLog (refs : List ConversationSessionRef) : List RawSessionEvent :=
  chunkLog (lineageChunks refs)

def Lineage.eventCount (lin : Lineage) : Nat := (historyLog lin.refs).length

def Lineage.oldestCount (lin : Lineage) : Nat :=
  (lin.refs.head?.map (fun ref => ref.reader.events.length)).getD 0

@[simp] theorem historyLog_append (xs ys : List ConversationSessionRef) :
    historyLog (xs ++ ys) = historyLog xs ++ historyLog ys := by
  simp [historyLog, lineageChunks]

@[simp] theorem historyLog_cons (ref : ConversationSessionRef)
    (refs : List ConversationSessionRef) :
    historyLog (ref :: refs) = tagEvents ref.reader.events ref ++ historyLog refs := by
  simp [historyLog, lineageChunks, chunkLog, Chunk.tagged]

variable {refs before after : List ConversationSessionRef} {limit unread : Nat}
  {ref : ConversationSessionRef} {older newer : List RawSessionEvent} {e : RawSessionEvent}

theorem mem_historyLog {x : RawSessionEvent} :
    x ∈ historyLog refs ↔ ∃ ref ∈ refs, ∃ e ∈ ref.reader.events, x = tag ref e := by
  simp [historyLog, lineageChunks, chunkLog, Chunk.tagged, tagEvents, eq_comm]

theorem historyLog_ascending (h : refs.Pairwise (fun a b => a.ordinal < b.ordinal)) :
    Ascending eventKey (historyLog refs) := by
  induction refs with
  | nil => simp [historyLog, lineageChunks, chunkLog, Ascending]
  | cons ref refs ih =>
    obtain ⟨hout, hrest⟩ := pairwise_cons.mp h
    rw [historyLog_cons, Ascending, pairwise_append]
    refine ⟨?_, ih hrest, ?_⟩
    · rw [tagEvents, pairwise_map]
      exact ref.reader.ascending.imp (fun h => eventKey_lt_of_seq_lt ref h)
    · intro a ha b hb
      obtain ⟨e, _, rfl⟩ := mem_map.mp ha
      obtain ⟨ref', hr', e', _, rfl⟩ := mem_historyLog.mp hb
      exact eventKey_lt_of_ordinal_lt e e' (hout ref' hr')

theorem position_nodup (h : refs.Pairwise (fun a b => a.stream ≠ b.stream)) :
    ((historyLog refs).map position).Nodup := by
  induction refs with
  | nil => simp [historyLog, lineageChunks, chunkLog]
  | cons ref refs ih =>
    obtain ⟨hout, hrest⟩ := pairwise_cons.mp h
    rw [historyLog_cons, map_append, nodup_append]
    refine ⟨?_, ih hrest, ?_⟩
    · rw [tagEvents, map_map, Nodup, pairwise_map]
      refine ref.reader.ascending.imp (fun {a b} hab he => ?_)
      have : a.seq = b.seq := by simpa [position] using congrArg (·.2.2) he
      omega
    · intro p hp q hq hpq
      subst hpq
      obtain ⟨a, ha, rfl⟩ := mem_map.mp hp
      obtain ⟨e, he, rfl⟩ := mem_map.mp ha
      obtain ⟨b, hb, hbp⟩ := mem_map.mp hq
      obtain ⟨ref', hr', e', he', rfl⟩ := mem_historyLog.mp hb
      apply hout ref' hr'
      simp only [position, tag_storeId, tag_sessionId, tag_seq, Prod.mk.injEq] at hbp
      rw [ConversationSessionRef.stream, ConversationSessionRef.stream, ← ref.readerSession e he,
        ← ref'.readerSession e' he', hbp.1, hbp.2.1]

/-- A sweep announces nothing older exactly when it consumed every session but the
oldest and that one fits a page, also when the budget then cut it short. -/
theorem moreBefore_eq_false_iff {r : Nat} {ns : List Nat} (hne : ns ≠ []) (h0 : 0 < r)
    (hr : r ≤ limit) :
    moreBefore limit r ns = false ↔ ns.sum - ns.getLast hne < r ∧ ns.getLast hne ≤ limit := by
  induction ns generalizing r with
  | nil => exact absurd rfl hne
  | cons n ns ih =>
    rw [sum_cons]
    unfold moreBefore
    cases ns with
    | nil =>
      split_ifs with hbig hfit <;> simp [moreBefore] <;> omega
    | cons m ns =>
      have hlast : (m :: ns).getLast (by simp) ≤ (m :: ns).sum :=
        single_le_sum (by simp) _ (getLast_mem _)
      rw [getLast_cons (by simp)]
      split_ifs with hbig hfit
      · simp only [false_iff, not_and, not_le]
        omega
      · simp only [isEmpty_cons, Bool.not_false, Bool.true_eq_false, false_iff, not_and, not_le]
        omega
      · rw [ih (by simp) (by omega) (by omega)]
        omega

/-- The flag of a read that found `unread` events, `oldest` of them in the oldest session. -/
def announcesOlder (oldest unread limit : Nat) : Bool :=
  !(decide (unread - min unread oldest < limit) && decide (min unread oldest ≤ limit))

theorem announcesOlder_eq_false_iff (oldest unread limit : Nat) :
    announcesOlder oldest unread limit = false ↔
      unread - min unread oldest < limit ∧ min unread oldest ≤ limit := by
  simp only [announcesOlder, Bool.not_eq_eq_eq_not, Bool.not_false, Bool.and_eq_true,
    decide_eq_true_eq]

/-- The window that a read of `limit` events returns when `unread` events are left. -/
def Lineage.windowAt (lin : Lineage) (unread limit : Nat) : EventWindow :=
  { events := ((historyLog lin.refs).take unread).drop (unread - limit)
    hasMoreBefore := announcesOlder lin.oldestCount unread limit }

theorem serves_allReads (limit : Nat) (refs : List ConversationSessionRef) :
    Serves limit (refs.mapIdx (fun index ref => readPage limit none index ref)).reverse
      (lineageChunks refs).reverse := by
  induction refs using reverseRecOn with
  | nil => exact .nil
  | append_singleton refs ref ih =>
    rw [mapIdx_concat, reverse_append, lineageChunks, map_append, reverse_append]
    exact .cons (by simp [readPage]) rfl ih

theorem sum_sizes_reverse (chunks : List Chunk) :
    (chunks.reverse.map Chunk.size).sum = (chunkLog chunks).length := by
  rw [chunkLog_length, map_reverse, sum_reverse]

variable (lin : Lineage)

theorem readLatestWindow_eq {w : Nat} (hw : 0 < w) :
    readLatestWindow lin.refs (some w) = lin.windowAt lin.eventCount w := by
  have hserve := serves_allReads w lin.refs
  have hround := latestRounds_eq lin.refs w lin.refs.length lin.refs.length
    snapshotInitialSessionFanout { remaining := w } (by simp [Sweep.stopped]; omega)
    (le_refl _) (le_refl _) (by decide)
  rw [allReads, take_length] at hround
  obtain ⟨hev, hmore⟩ := latestBatch_spec hserve { remaining := w } hw (le_refl w) rfl
  have hasc := historyLog_ascending lin.ordinals
  have hsub : Ascending eventKey ((historyLog lin.refs).drop (lin.eventCount - w)) :=
    hasc.sublist (drop_sublist _ _)
  have hperm := sweepEvents_perm w (lineageChunks lin.refs).reverse
  rw [reverse_reverse] at hperm
  unfold readLatestWindow Lineage.windowAt
  simp only [Option.getD_some, hround, hev, hmore, nil_append]
  congr 1
  · rw [sortRawEvents, sortBy_eq_of_perm hsub hperm, Lineage.eventCount, take_length]
  · cases hrefs : lin.refs with
    | nil =>
      simp [announcesOlder, lineageChunks, moreBefore, Lineage.eventCount, Lineage.oldestCount,
        hrefs, historyLog, chunkLog, hw]
    | cons ref refs =>
      have hne : ((lineageChunks (ref :: refs)).reverse.map Chunk.size) ≠ [] := by
        simp [lineageChunks]
      have hlast : ((lineageChunks (ref :: refs)).reverse.map Chunk.size).getLast hne =
          ref.reader.events.length := by
        simp [lineageChunks, Chunk.size]
      have hsum := sum_sizes_reverse (lineageChunks (ref :: refs))
      have hcount : lin.eventCount = (chunkLog (lineageChunks (ref :: refs))).length := by
        rw [Lineage.eventCount, hrefs]; rfl
      have hold : lin.oldestCount = ref.reader.events.length := by
        simp [Lineage.oldestCount, hrefs]
      have hle : lin.oldestCount ≤ lin.eventCount := by
        rw [hold, Lineage.eventCount, hrefs, historyLog_cons]; simp
      rw [Bool.eq_iff_iff, ← not_iff_not, Bool.not_eq_true,
        moreBefore_eq_false_iff hne hw (le_refl w),
        hlast, hsum, ← hcount, ← hold, Bool.not_eq_true, announcesOlder_eq_false_iff,
        Nat.min_eq_right hle]

/-- Below a cursor at event `e` of session `ref`, the sessions before it are unread in
full and `ref` down to `e`. -/
theorem readSinglePosition_eq (hrefs : lin.refs = before ++ ref :: after)
    (hev : ref.reader.events = older ++ e :: newer) {payload : InternalChatCursorPayload}
    (hl : payload.lineage = lineageEntries lin.refs)
    (hw : payload.sessionWatermarks = [⟨ref.store, ref.eventStoreSessionId, e.seq⟩])
    (hlim : 0 < limit) :
    readSinglePosition lin.refs payload limit =
      .ok (lin.windowAt ((historyLog before).length + older.length) limit) := by
  have hfind : lin.refs.findIdx? (fun r => r.store = ref.store ∧
      r.eventStoreSessionId = ref.eventStoreSessionId) = some before.length := by
    have hs := lin.streams
    rw [hrefs] at hs ⊢
    rw [findIdx?_append, findIdx?_eq_none_iff.mpr]
    · simp [findIdx?_cons]
    · intro r hr
      have hne := (pairwise_append.mp hs).2.2 r hr ref (by simp)
      simpa [ConversationSessionRef.stream] using hne
  have hasc : older.Pairwise (fun a b => a.seq < b.seq) ∧ ∀ a ∈ older, a.seq < e.seq := by
    have h := ref.reader.ascending
    rw [hev, pairwise_append] at h
    exact ⟨h.1, fun a ha => h.2.2 a ha e (by simp)⟩
  have hbelow : ref.reader.before (some e.seq) = older := by
    have h := ref.reader.ascending
    rw [hev, pairwise_append, pairwise_cons] at h
    rw [SessionReader.before, hev, filter_append, filter_cons_of_neg (by simp)]
    rw [filter_eq_self.mpr (fun a ha => by simpa using hasc.2 a ha),
      filter_eq_nil_iff.mpr (fun a ha => by simpa using (h.2.1.1 a ha).le), append_nil]
  have hreads : ((lin.refs.take (before.length + 1)).mapIdx (fun index r =>
      readPage limit (if index = before.length then some e.seq else none) index r)).reverse =
      readPage limit (some e.seq) before.length ref ::
        (before.mapIdx (fun index r => readPage limit none index r)).reverse := by
    have htake : lin.refs.take (before.length + 1) = before ++ [ref] := by
      rw [hrefs, take_append]; simp
    rw [htake, mapIdx_concat, reverse_append]
    simp only [if_true, reverse_singleton, singleton_append, List.cons.injEq, true_and, reverse_inj]
    apply ext_getElem (by simp)
    intro i h1 h2
    have : i ≠ before.length := by simp at h2; omega
    simp [this]
  have hserve : Serves limit (readPage limit (some e.seq) before.length ref ::
      (before.mapIdx (fun index r => readPage limit none index r)).reverse)
      ((ref, older) :: (lineageChunks before).reverse) := by
    refine .cons (r := readPage limit (some e.seq) before.length ref) (by simp [readPage]) ?_
      (serves_allReads limit before)
    simp [readPage, SessionReader.readSessionEvents, hbelow]
  have htarget : ∀ r ∈ readPage limit (some e.seq) before.length ref ::
      (before.mapIdx (fun index r => readPage limit none index r)).reverse,
      r.lineageIndex = before.length → ∀ a ∈ r.page.events, a.seq < e.seq := by
    intro r hr hi a ha
    rcases mem_cons.mp hr with rfl | hr
    · have ha' : a ∈ older := by
        simp only [readPage, SessionReader.readSessionEvents, hbelow] at ha
        exact mem_of_mem_drop ha
      exact hasc.2 a ha'
    · rw [mem_reverse, mem_mapIdx] at hr
      obtain ⟨i, hi', rfl⟩ := hr
      simp only [readPage] at hi
      omega
  obtain ⟨hout, hmore⟩ := backfillSweep_spec hserve htarget { remaining := limit } hlim
    (le_refl limit) rfl
  have hhead : chunkLog ((ref, older) :: (lineageChunks before).reverse).reverse =
      (historyLog lin.refs).take ((historyLog before).length + older.length) := by
    rw [reverse_cons, reverse_reverse, chunkLog_append, hrefs, historyLog_append,
      take_length_add_append, historyLog_cons, hev, tagEvents_append, append_assoc,
      take_append_of_le_length (by simp), ← tagEvents_length older ref, take_length]
    simp [historyLog, Chunk.tagged]
  have hle : (historyLog before).length + older.length ≤ (historyLog lin.refs).length := by
    rw [hrefs, historyLog_append, historyLog_cons, hev]; simp
  have hplen : (chunkLog ((ref, older) :: (lineageChunks before).reverse).reverse).length =
      (historyLog before).length + older.length := by
    rw [hhead, length_take, Nat.min_eq_left hle]
  have hperm := sweepEvents_perm limit ((ref, older) :: (lineageChunks before).reverse)
  rw [hplen, hhead] at hperm
  have hsub := (historyLog_ascending lin.ordinals).sublist
    ((drop_sublist ((historyLog before).length + older.length - limit) _).trans
      (take_sublist ((historyLog before).length + older.length) _))
  unfold readSinglePosition
  rw [if_neg (by simp [hl]), hw]
  simp only [hfind, hreads, hout, hmore, nil_append, Lineage.windowAt]
  rw [sortRawEvents, sortBy_eq_of_perm hsub hperm]
  congr 2
  have hne : (((ref, older) :: (lineageChunks before).reverse).map Chunk.size) ≠ [] := by simp
  have hsum := sum_sizes_reverse ((ref, older) :: (lineageChunks before).reverse).reverse
  rw [reverse_reverse, hplen] at hsum
  have hlast : (((ref, older) :: (lineageChunks before).reverse).map Chunk.size).getLast hne =
      min ((historyLog before).length + older.length) lin.oldestCount := by
    cases before with
    | nil =>
      simp [lineageChunks, Chunk.size, Lineage.oldestCount, hrefs, hev, historyLog, chunkLog]
    | cons =>
      simp [lineageChunks, Chunk.size, Lineage.oldestCount, hrefs]
      omega
  rw [Bool.eq_iff_iff, ← not_iff_not, Bool.not_eq_true,
    moreBefore_eq_false_iff hne hlim (le_refl limit), hlast, hsum, Bool.not_eq_true,
    announcesOlder_eq_false_iff]

theorem exists_event_at {k : Nat} (hk : k < (historyLog refs).length) :
    ∃ before ref after older e newer, refs = before ++ ref :: after ∧
      ref.reader.events = older ++ e :: newer ∧ k = (historyLog before).length + older.length := by
  induction refs generalizing k with
  | nil => simp [historyLog, lineageChunks, chunkLog] at hk
  | cons ref refs ih =>
    rw [historyLog_cons, length_append, tagEvents_length] at hk
    by_cases hin : k < ref.reader.events.length
    · refine ⟨[], ref, refs, ref.reader.events.take k, ref.reader.events.get ⟨k, hin⟩,
        ref.reader.events.drop (k + 1), rfl, ?_, ?_⟩
      · simp
      · simp [historyLog, lineageChunks, chunkLog]; omega
    · obtain ⟨before, ref', after, older, e, newer, hr, he, hk'⟩ :=
        ih (k := k - ref.reader.events.length) (by omega)
      refine ⟨ref :: before, ref', after, older, e, newer, by simp [hr], he, ?_⟩
      rw [historyLog_cons, length_append, tagEvents_length]
      omega

theorem historyLog_drop (hev : ref.reader.events = older ++ e :: newer) :
    (historyLog (before ++ ref :: after)).drop ((historyLog before).length + older.length) =
      tag ref e :: (tagEvents newer ref ++ historyLog after) := by
  rw [historyLog_append, drop_length_add_append, historyLog_cons, hev, tagEvents_append,
    append_assoc, ← tagEvents_length older ref, drop_left]
  simp [tagEvents]

theorem earliestEventPosition_window (hrefs : lin.refs = before ++ ref :: after)
    (hev : ref.reader.events = older ++ e :: newer)
    (hu : (historyLog before).length + older.length < unread) :
    earliestEventPosition (((historyLog lin.refs).take unread).drop
      ((historyLog before).length + older.length)) =
      some ⟨ref.store, ref.eventStoreSessionId, e.seq⟩ := by
  have hasc : Ascending eventKey (((historyLog lin.refs).take unread).drop
      ((historyLog before).length + older.length)) :=
    (historyLog_ascending lin.ordinals).sublist ((drop_sublist _ _).trans (take_sublist _ _))
  have hcons : ∃ rest, ((historyLog lin.refs).take unread).drop
      ((historyLog before).length + older.length) = tag ref e :: rest := by
    rw [drop_take, hrefs, historyLog_drop hev]
    obtain ⟨n, hn⟩ : ∃ n, unread - ((historyLog before).length + older.length) = n + 1 :=
      ⟨_, (Nat.succ_pred_eq_of_pos (by omega)).symm⟩
    exact ⟨_, by rw [hn, take_succ_cons]⟩
  obtain ⟨rest, hrest⟩ := hcons
  rw [hrest] at hasc ⊢
  simp [earliestEventPosition, sortRawEvents, sortBy_eq_self hasc,
    ref.readerSession e (by rw [hev]; simp)]

theorem readBackfillWindow_next (ctx : CursorContext) (lin : Lineage) {size t t' : Nat}
    (hs : 0 < size) (hsu : size ≤ unread) (hu : unread ≤ lin.eventCount)
    (hmore : announcesOlder lin.oldestCount unread size = true) (hl : 0 < limit)
    (ht : t' < t + cursorTtl) :
    readBackfillWindow ctx lin.refs (beforeCursorOf ctx lin.refs t (lin.windowAt unread size))
      limit t' = .ok (lin.windowAt (unread - size) limit) := by
  have hlt : unread - size < (historyLog lin.refs).length := by
    rw [← Lineage.eventCount]
    omega
  obtain ⟨before, ref, after, older, e, newer, hrefs, hev, hk⟩ := exists_event_at hlt
  have hunread : (historyLog before).length + older.length < unread := by omega
  have hpos := earliestEventPosition_window lin hrefs hev hunread
  rw [← hk] at hpos
  let payload : InternalChatCursorPayload :=
    { scopeKey := ctx.scopeKey
      projectionVersion := ctx.projectionVersion
      sessionWatermarks := [⟨ref.store, ref.eventStoreSessionId, e.seq⟩]
      lineage := lineageEntries lin.refs
      viewRevision := e.seq
      issuedAt := t
      expiresAt := some (t + cursorTtl) }
  have hcur : beforeCursorOf ctx lin.refs t (lin.windowAt unread size) =
      some (encodeCursor ctx payload) := by
    simp [beforeCursorOf, Lineage.windowAt, hmore, hpos, encodeBeforeCursor, payload]
  have hval : validateCursor ctx (encodeCursor ctx payload) t' = .ok payload :=
    validateCursor_encodeCursor ctx payload t' rfl rfl (by simpa [payload] using ht)
  have hread : readSinglePosition lin.refs payload limit = _ :=
    readSinglePosition_eq lin hrefs hev rfl rfl hl
  rw [hk, hcur, ← hread]
  unfold readBackfillWindow
  by_cases hlen : 1 < lin.refs.length <;>
    simp [hlen, hval, payload, bind, Except.bind, pure, Except.pure]

/-- The oldest session either overflows the page that first reaches it, or fits into
what the newer sessions leave of that page. `newer` unread events lie above it. -/
def PageFits (oldest unread size limit : Nat) : Prop :=
  let inOldest := min unread oldest
  let newer := unread - inOldest
  if newer < size then size < inOldest ∨ unread ≤ size
  else limit < inOldest ∨ inOldest + (newer - size) % limit ≤ limit

theorem pageFits_step {oldest size : Nat} (hl : 0 < limit) (hs : 0 < size)
    (hmore : announcesOlder oldest unread size = true) :
    PageFits oldest (unread - size) limit limit ↔ PageFits oldest unread size limit := by
  have hm : ¬ (unread - min unread oldest < size ∧ min unread oldest ≤ size) := by
    rw [← announcesOlder_eq_false_iff, hmore]; simp
  unfold PageFits
  dsimp only
  by_cases hle : unread ≤ oldest
  · have h1 : min unread oldest = unread := Nat.min_eq_left hle
    have h2 : min (unread - size) oldest = unread - size := Nat.min_eq_left (by omega)
    rw [h2, if_pos (by omega), if_pos (by omega)]
    omega
  · have h1 : min unread oldest = oldest := Nat.min_eq_right (by omega)
    rw [h1] at hm ⊢
    by_cases hn : unread - oldest < size
    · have h2 : min (unread - size) oldest = unread - size := Nat.min_eq_left (by omega)
      rw [h2, if_pos hn, if_pos (by omega)]
      omega
    · have h2 : min (unread - size) oldest = oldest := Nat.min_eq_right (by omega)
      rw [h2, if_neg hn]
      have hsub : unread - size - oldest = unread - oldest - size := by omega
      rw [hsub]
      by_cases hlast : unread - oldest - size < limit
      · rw [if_pos hlast, Nat.mod_eq_of_lt hlast]
        omega
      · rw [if_neg hlast, ← Nat.mod_eq_sub_mod (by omega)]

theorem followBefore_spec (ctx : CursorContext) (lin : Lineage) (hl : 0 < limit) {clock : Nat → Nat}
    (hc : ∀ i, clock (i + 1) < clock i + cursorTtl) (fuel i unread size : Nat) (hs : 0 < size)
    (hu : unread ≤ lin.eventCount) (hf : unread ≤ fuel) :
    ∃ windows missed, followBefore ctx lin.refs limit clock fuel i (lin.windowAt unread size) =
        .ok windows ∧ missed ≤ unread ∧
      (returnedPositions windows).Perm
        ((((historyLog lin.refs).take unread).drop missed).map position) ∧
      (missed = 0 ↔ PageFits lin.oldestCount unread size limit) := by
  induction fuel generalizing i unread size with
  | zero =>
    have h0 : unread = 0 := by omega
    have hflag : announcesOlder lin.oldestCount unread size = false := by
      rw [announcesOlder_eq_false_iff]; omega
    refine ⟨[lin.windowAt unread size], 0, ?_, Nat.zero_le _, ?_, ?_⟩
    · unfold followBefore; simp [Lineage.windowAt, hflag]
    · simp [Lineage.windowAt, returnedPositions, h0]
    · simp [PageFits, h0, hs]
  | succ fuel ih =>
    cases hflag : announcesOlder lin.oldestCount unread size with
    | false =>
      have hm := (announcesOlder_eq_false_iff _ _ _).mp hflag
      refine ⟨[lin.windowAt unread size], unread - size, ?_, Nat.sub_le _ _, ?_, ?_⟩
      · unfold followBefore; simp [Lineage.windowAt, hflag]
      · simp [Lineage.windowAt, returnedPositions]
      · unfold PageFits
        rw [if_pos hm.1]
        omega
    | true =>
      have hsu : size ≤ unread := by
        by_contra hlt
        have := (announcesOlder_eq_false_iff lin.oldestCount unread size).mpr (by omega)
        simp [this] at hflag
      have hnext := readBackfillWindow_next ctx lin hs hsu hu hflag hl (hc i)
      obtain ⟨ws, missed, hrun, hmiss, hperm, hiff⟩ :=
        ih (i + 1) (unread - size) limit hl (by omega) (by omega)
      refine ⟨lin.windowAt unread size :: ws, missed, ?_, by omega, ?_,
        hiff.trans (pageFits_step hl hs hflag)⟩
      · unfold followBefore
        rw [if_pos (by simp [Lineage.windowAt, hflag])]
        simp only [hnext, hrun, Except.map]
      · have hsplit : ((historyLog lin.refs).take unread).drop missed =
            ((historyLog lin.refs).take (unread - size)).drop missed ++
              (lin.windowAt unread size).events := by
          have hcut : (historyLog lin.refs).take unread =
              (historyLog lin.refs).take (unread - size) ++
                ((historyLog lin.refs).take unread).drop (unread - size) := by
            conv_lhs => rw [← take_append_drop (unread - size) ((historyLog lin.refs).take unread)]
            rw [take_take, Nat.min_eq_left (Nat.sub_le _ _)]
          have hlen : missed ≤ ((historyLog lin.refs).take (unread - size)).length := by
            rw [length_take, Nat.min_eq_left (by rw [← Lineage.eventCount]; omega)]
            exact hmiss
          rw [hcut, drop_append_of_le_length hlen]
          simp [Lineage.windowAt]
        rw [hsplit, returnedPositions, flatMap_cons, map_append]
        exact (hperm.append_left _).trans perm_append_comm

instance (oldest unread size limit : Nat) : Decidable (PageFits oldest unread size limit) :=
  inferInstanceAs (Decidable (if _ < _ then _ < _ ∨ _ ≤ _ else _ < _ ∨ _ ≤ _))

/-- The condition under which paging the whole history loses nothing: the page that
first reaches the oldest session is overflowed by it, or takes all of it. -/
def OldestSessionFits (lin : Lineage) (window limit : Nat) : Prop :=
  if window = 0 then lin.eventCount = 0
  else PageFits lin.oldestCount lin.eventCount window limit

instance (lin : Lineage) (window limit : Nat) : Decidable (OldestSessionFits lin window limit) :=
  inferInstanceAs (Decidable (if _ = 0 then _ = 0 else PageFits _ _ _ _))

variable {windows : List EventWindow}

theorem returnedOnce_iff_perm
    (hsub : (returnedPositions windows).Subperm ((historyLog lin.refs).map position)) :
    ReturnedOnce lin.refs windows ↔
      (returnedPositions windows).Perm ((historyLog lin.refs).map position) := by
  have hnd := position_nodup lin.streams
  have hpos (ref : ConversationSessionRef) (e : RawSessionEvent) (he : e ∈ ref.reader.events) :
      position (tag ref e) = (ref.store, ref.eventStoreSessionId, e.seq) := by
    simp [position, ref.readerSession e he]
  constructor
  · intro hall
    refine hsub.antisymm (subperm_of_subset hnd ?_)
    intro q hq
    obtain ⟨x, hx, rfl⟩ := mem_map.mp hq
    obtain ⟨ref, hr, e, he, rfl⟩ := mem_historyLog.mp hx
    rw [hpos ref e he]
    exact count_pos_iff.mp (by rw [hall ref hr e he]; exact Nat.one_pos)
  · intro hperm ref hr e he
    have hmem : position (tag ref e) ∈ (historyLog lin.refs).map position :=
      mem_map_of_mem (mem_historyLog.mpr ⟨ref, hr, e, he, rfl⟩)
    rw [← hpos ref e he]
    exact (hperm.count_eq _).trans (count_eq_one_of_mem hnd hmem)

theorem returnedOnce_iff {missed : Nat} (hle : missed ≤ lin.eventCount)
    (hperm : (returnedPositions windows).Perm (((historyLog lin.refs).drop missed).map position)) :
    ReturnedOnce lin.refs windows ↔ missed = 0 := by
  have hsub : (returnedPositions windows).Subperm ((historyLog lin.refs).map position) :=
    hperm.subperm.trans ((drop_sublist _ _).map _).subperm
  rw [returnedOnce_iff_perm lin hsub]
  constructor
  · intro hall
    have hlen := (hperm.symm.trans hall).length_eq
    simp only [length_map, length_drop] at hlen
    rw [Lineage.eventCount] at hle
    omega
  · rintro rfl
    exact hperm

theorem pos_of_validateBackfillLimit (h : validateBackfillLimit limit = .ok limit) : 0 < limit := by
  unfold validateBackfillLimit backfillMinLimit at h
  split_ifs at h with hbad
  omega

/-- Paging a whole history from the snapshot window through the single-position cursors
terminates, and it returns every event exactly once if and only if the oldest session
fits the page that first reaches it. -/
theorem historyPaging_complete_iff (ctx : CursorContext) (lin : Lineage)
    (initialReadWindow : Option Nat) (limit : Nat)
    (hlimit : validateBackfillLimit limit = .ok limit) (clock : Nat → Nat)
    (hclock : ∀ i, clock (i + 1) < clock i + cursorTtl) :
    (∃ windows, followBefore ctx lin.refs limit clock lin.eventCount 0
        (readLatestWindow lin.refs initialReadWindow) = .ok windows ∧
      ReturnedOnce lin.refs windows) ↔
    OldestSessionFits lin (initialReadWindow.getD snapshotWindowEventLimit) limit := by
  have hl : 0 < limit := pos_of_validateBackfillLimit hlimit
  have hread : readLatestWindow lin.refs initialReadWindow =
      readLatestWindow lin.refs (some (initialReadWindow.getD snapshotWindowEventLimit)) := by
    simp [readLatestWindow]
  rw [hread]
  generalize initialReadWindow.getD snapshotWindowEventLimit = w
  unfold OldestSessionFits
  by_cases hw : w = 0
  · subst hw
    have hempty : readLatestWindow lin.refs (some 0) = {} := by
      cases h : lin.refs.length with
      | zero | succ n => simp [readLatestWindow, h, latestRounds, sortRawEvents, sortBy]
    have hrun : followBefore ctx lin.refs limit clock lin.eventCount 0 {} = .ok [{}] := by
      unfold followBefore; simp
    have honce : ReturnedOnce lin.refs [{}] ↔ lin.eventCount = 0 :=
      returnedOnce_iff lin (le_refl _) (by simp [Lineage.eventCount, returnedPositions])
    rw [if_pos rfl, hempty, hrun]
    constructor
    · rintro ⟨ws, hws, hone⟩
      cases hws
      exact honce.mp hone
    · intro h0
      exact ⟨[{}], rfl, honce.mpr h0⟩
  · obtain ⟨ws, missed, hrun, hle, hperm, hiff⟩ :=
      followBefore_spec ctx lin hl hclock lin.eventCount 0 lin.eventCount w (by omega)
        (le_refl _) (le_refl _)
    rw [if_neg hw, readLatestWindow_eq lin (by omega), hrun, ← hiff]
    rw [Lineage.eventCount, take_length] at hperm
    constructor
    · rintro ⟨ws', hws, hone⟩
      cases hws
      exact (returnedOnce_iff lin hle hperm).mp hone
    · intro h0
      exact ⟨ws, rfl, (returnedOnce_iff lin hle hperm).mpr h0⟩

/-- Two sessions: `first` holds events 1 and 2, its continuation holds event 1. -/
def shortLineage : Lineage where
  refs :=
    [{ sessionId := "first", eventStoreSessionId := "first", ordinal := 0
       reader := ⟨[⟨"intaris", "first", 1, "user_message", .empty, none, some 1, none, none⟩,
         ⟨"intaris", "first", 2, "assistant_message", .empty, none, some 4, none, none⟩], by decide⟩
       readerSession := by decide
       readerStore := by decide },
     { sessionId := "next", eventStoreSessionId := "next", ordinal := 1
       reader := ⟨[⟨"intaris", "next", 1, "user_message", .empty, none, some 3, none, none⟩],
         by decide⟩
       readerSession := by decide
       readerStore := by decide }]
  ordinals := by decide
  streams := by decide

def plainContext : CursorContext :=
  ⟨"conversation:c", "secret", "chat-v2-projection-v9", fun _ secret => secret, id⟩

theorem historyPaging_complete_short : validateBackfillLimit 1 = .ok 1 ∧ (0 < 0 + cursorTtl) ∧
    ∃ windows, followBefore plainContext shortLineage.refs 1 (fun _ => 0) shortLineage.eventCount 0
        (readLatestWindow shortLineage.refs (some 1)) = .ok windows ∧
      ReturnedOnce shortLineage.refs windows :=
  ⟨by decide, by decide, (historyPaging_complete_iff plainContext shortLineage (some 1) 1
    (by decide) (fun _ => 0) (fun _ => by decide)).mpr (by decide)⟩

/-- A window of two over the short lineage takes the continuation and event 2, drops
event 1 by slicing and announces nothing older. -/
theorem historyPaging_loses_sliced_event :
    ∃ windows, followBefore plainContext shortLineage.refs 1 (fun _ => 0) shortLineage.eventCount 0
        (readLatestWindow shortLineage.refs (some 2)) = .ok windows ∧
      windows.map (·.hasMoreBefore) = [false] ∧ ¬ ReturnedOnce shortLineage.refs windows :=
  ⟨_, rfl, by decide, by decide⟩

end Cognis.Paging
