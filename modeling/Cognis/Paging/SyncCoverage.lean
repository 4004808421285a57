import Cognis.Paging.Sync

namespace Cognis.Paging

open List Runs SortByKey

variable {events : List RawSessionEvent} {ref : SyncRef}

/-- The event of a stream as a response carries it: only what the tags and the
attachments say has changed. -/
def Carries (key : String × String) (e e' : RawSessionEvent) : Prop :=
  e' = { e with storeId := key.1, data := e'.data } ∧
    ∀ name, name ∉ ["_lineage_index", "cognis_session_id", "attachments"] →
      e'.data.get? name = e.data.get? name

def CoversBetween (streams : Streams) (low high : String × String → Nat)
    (events : List RawSessionEvent) : Prop :=
  ∀ key, ∀ e ∈ streams.log key, low key < e.seq → e.seq ≤ high key → ∃ e' ∈ events, Carries key e e'

section

variable {streams : Streams} {key : String × String} {event : RawSessionEvent}
  (h : streams.lastSeq key < event.seq)

theorem mem_log_append {key' : String × String} {e : RawSessionEvent}
    (he : e ∈ (streams.append key event h).log key') :
    e ∈ streams.log key' ∨ streams.lastSeq key' < e.seq := by
  rw [Streams.append] at he
  dsimp only at he
  by_cases hkey : key' = key
  · rw [hkey, Function.update_self] at he
    rw [hkey]
    rcases mem_append.mp he with hold | hnew
    · exact .inl hold
    · rw [mem_singleton.mp hnew]
      exact .inr h
  · rw [Function.update_of_ne hkey] at he
    exact .inl he

theorem lastSeq_le_append (key' : String × String) :
    streams.lastSeq key' ≤ (streams.append key event h).lastSeq key' := by
  by_cases hkey : key' = key
  · have hmem : event ∈ (streams.append key event h).log key' := by
      rw [Streams.append, hkey]
      dsimp only
      rw [Function.update_self]
      exact mem_append_right _ mem_cons_self
    have hle := (streams.append key event h).seq_le_lastSeq hmem
    rw [hkey] at hle ⊢
    omega
  · rw [Streams.lastSeq, Streams.lastSeq, Streams.append]
    dsimp only
    rw [Function.update_of_ne hkey]

/-- What is in the later streams was in the earlier ones or is behind their ends. -/
structure Streams.Grows (old new : Streams) : Prop where
  later : ∀ key, ∀ e ∈ new.log key, e ∈ old.log key ∨ old.lastSeq key < e.seq
  lastSeq : ∀ key, old.lastSeq key ≤ new.lastSeq key

theorem Streams.Grows.append {old : Streams} (hgrows : old.Grows streams) :
    old.Grows (streams.append key event h) where
  later key' e he := by
    rcases mem_log_append h he with hold | hnew
    · exact hgrows.later key' e hold
    · exact .inr (Nat.lt_of_le_of_lt (hgrows.lastSeq key') hnew)
  lastSeq key' := (hgrows.lastSeq key').trans (lastSeq_le_append h key')

theorem CoversBetween.append {low high : String × String → Nat}
    (hcovers : CoversBetween streams low high events)
    (hhigh : ∀ key, high key ≤ streams.lastSeq key) :
    CoversBetween (streams.append key event h) low high events := by
  intro key' e he hlow hle
  rcases mem_log_append _ he with hold | hnew
  · exact hcovers key' e hold hlow hle
  · have := hhigh key'
    omega

theorem mem_readSessionEvents {afterSeq limit : Nat} {e : RawSessionEvent}
    (he : e ∈ streams.log key) (hafter : afterSeq < e.seq)
    (hmore : (streams.readSessionEvents key afterSeq limit).hasMoreAfter = false) :
    e ∈ (streams.readSessionEvents key afterSeq limit).events := by
  rw [Streams.readSessionEvents] at hmore ⊢
  rw [take_of_length_le (Nat.le_of_not_lt (of_decide_eq_false hmore))]
  exact mem_filter.mpr ⟨he, decide_eq_true hafter⟩

end

section

variable {key : String × String} {e e' : RawSessionEvent}

theorem carries_tag (hkey : ref.key = key) : Carries key e (ref.tag e) := by
  refine ⟨?_, ?_⟩
  · rw [← hkey]
    rfl
  · intro name hname
    simp only [mem_cons, not_mem_nil, or_false, not_or] at hname
    rw [SyncRef.tag]
    rw [OrderedMap.get?_set_of_ne _ _ hname.2.1, OrderedMap.get?_set_of_ne _ _ hname.1]

theorem Carries.hydrate (h : Carries key e e') {data : PyDict}
    (hdata : ∀ name, name ≠ "attachments" → data.get? name = e'.data.get? name) :
    Carries key e { e' with data := data } := by
  refine ⟨?_, ?_⟩
  · conv_lhs => rw [h.1]
  · intro name hname
    have hother : name ≠ "attachments" := by
      intro heq
      apply hname
      rw [heq]
      simp
    exact (hdata name hother).trans (h.2 name hname)

theorem hydrateAttachments_carries (hydrated : Nat → RawSessionEvent → PyValue) (hmem : e' ∈ events)
    (h : Carries key e e') :
    ∃ e'' ∈ hydrateAttachments hydrated events, Carries key e e'' := by
  obtain ⟨i, hi⟩ := mem_iff_getElem?.mp hmem
  obtain ⟨hlt, hget⟩ := List.getElem?_eq_some_iff.mp hi
  refine ⟨_, mem_mapIdx.mpr ⟨i, hlt, rfl⟩, ?_⟩
  rw [hget]
  split
  · split
    · exact h
    · apply h.hydrate
      intro name hname
      exact OrderedMap.get?_set_of_ne _ _ hname
  · exact h

end

/-- No mark is ahead of its stream, and the pages hold what lies between the marks. -/
structure SyncRequest.Sound (r : SyncRequest) (streams : Streams) : Prop where
  marks_length : r.marks.length = r.refs.length
  pages_length : r.pages.length = r.refs.length
  marked : ∀ (i : Nat) (ref : SyncRef) (m : Nat), r.refs[i]? = some ref →
    r.marks[i]? = some (some m) → m ≤ streams.lastSeq ref.key
  paged : ∀ (i : Nat) (ref : SyncRef) (p : Option ForwardPage), r.refs[i]? = some ref →
    r.pages[i]? = some (some p) → r.marks.all (·.isSome) = true ∧
      ∀ e ∈ streams.log ref.key, r.previous.watermark ref.key < e.seq →
        e.seq ≤ r.watermark ref.key →
        ∃ page, p = some page ∧ (page.hasMoreAfter = false → e ∈ page.events)

section

variable {r : SyncRequest} {streams : Streams} {key : String × String}

theorem SyncRequest.mark_of_watermark {m : Nat} (hm : r.watermarks.get? key = some m) :
    ∃ (i : Nat) (ref : SyncRef), r.refs[i]? = some ref ∧ ref.key = key ∧
      (r.marks[i]?).map (·.getD 0) = some m := by
  have hmem := OrderedMap.mem_of_get?_ofList hm
  obtain ⟨i, hi⟩ := mem_iff_getElem?.mp hmem
  rw [getElem?_zip_eq_some, getElem?_map, getElem?_map, Option.map_eq_some_iff] at hi
  obtain ⟨⟨ref, href, hkey⟩, hmark⟩ := hi
  exact ⟨i, ref, href, hkey, hmark⟩

theorem SyncRequest.Sound.watermark_le (h : r.Sound streams) (key : String × String) :
    r.watermark key ≤ streams.lastSeq key := by
  rw [SyncRequest.watermark]
  cases hm : r.watermarks.get? key with
  | none => exact Nat.zero_le _
  | some m =>
    obtain ⟨i, ref, href, rfl, hmark⟩ := r.mark_of_watermark hm
    obtain ⟨mark, hread, hvalue⟩ := Option.map_eq_some_iff.mp hmark
    rw [Option.getD_some, ← hvalue]
    cases mark with
    | none => exact Nat.zero_le _
    | some m' => exact h.marked i ref m' href hread

variable {event : RawSessionEvent}

theorem SyncRequest.Sound.append (h : r.Sound streams)
    (hseq : streams.lastSeq key < event.seq) : r.Sound (streams.append key event hseq) where
  marks_length := h.marks_length
  pages_length := h.pages_length
  marked i ref m href hm := (h.marked i ref m href hm).trans (lastSeq_le_append hseq _)
  paged i ref p href hp := by
    obtain ⟨hmarks, hcovers⟩ := h.paged i ref p href hp
    refine ⟨hmarks, ?_⟩
    intro e he hlow hhigh
    rcases mem_log_append hseq he with hold | hnew
    · exact hcovers e hold hlow hhigh
    · have := h.watermark_le ref.key
      omega

theorem SyncRequest.Sound.mark (h : r.Sound streams) {i : Nat} (href : r.refs[i]? = some ref)
    (hunread : r.marks[i]? = some none) (known : Nat) :
    SyncRequest.Sound
      { r with marks := r.marks.set i (some (min known (streams.lastSeq ref.key))) } streams where
  marks_length := by
    rw [length_set, h.marks_length]
  pages_length := h.pages_length
  marked j ref' m href' hm := by
    by_cases hij : i = j
    · obtain rfl := hij
      rw [href] at href'
      cases href'
      obtain ⟨hlt, -⟩ := List.getElem?_eq_some_iff.mp hunread
      rw [getElem?_set_self hlt, Option.some.injEq, Option.some.injEq] at hm
      rw [← hm]
      exact Nat.min_le_right _ _
    · rw [getElem?_set_ne hij] at hm
      exact h.marked j ref' m href' hm
  paged j ref' p href' hp := by
    obtain ⟨hmarks, -⟩ := h.paged j ref' p href' hp
    have := all_eq_true.mp hmarks none (mem_of_getElem? hunread)
    cases this

theorem SyncRequest.Sound.page (h : r.Sound streams) {i : Nat} (href : r.refs[i]? = some ref)
    (hmarks : r.marks.all (·.isSome) = true) :
    SyncRequest.Sound { r with pages := r.pages.set i (some (r.readChanged streams ref)) }
      streams where
  marks_length := h.marks_length
  pages_length := by
    rw [length_set, h.pages_length]
  marked := h.marked
  paged j ref' p href' hp := by
    by_cases hij : i = j
    · obtain rfl := hij
      rw [href] at href'
      cases href'
      obtain ⟨hlt, -⟩ := List.getElem?_eq_some_iff.mp href
      rw [← h.pages_length] at hlt
      rw [getElem?_set_self hlt, Option.some.injEq, Option.some.injEq] at hp
      refine ⟨hmarks, ?_⟩
      intro e he hlow hhigh
      rw [SyncRequest.readChanged] at hp
      have hchanged : ¬ r.watermark ref.key ≤ r.previous.watermark ref.key :=
        Nat.not_le.mpr (Nat.lt_of_lt_of_le hlow hhigh)
      rw [if_neg hchanged] at hp
      exact ⟨_, hp.symm, mem_readSessionEvents he hlow⟩
    · rw [getElem?_set_ne hij] at hp
      exact h.paged j ref' p href' hp

theorem watermark_encodeCursorForWatermarks (ctx : CursorContext) (refs : List SyncRef)
    (watermarks : StreamPositions) (now : Nat) (key : String × String) :
    (encodeCursorForWatermarks ctx refs watermarks now).payload.watermark key =
      (watermarks.get? key).getD 0 := by
  rw [InternalChatCursorPayload.watermark, encodeCursorForWatermarks, encodeCursor]
  rw [map_map]
  have hsorted : (sortBy (fun p : (String × String) × Nat => toLex p.1) watermarks.entries).map
      ((fun w : CursorSessionWatermark => ((w.store, w.sessionId), w.lastSeq)) ∘
        fun p => ⟨p.1.1, p.1.2, p.2⟩) =
      sortBy (fun p => toLex p.1) watermarks.entries := by
    conv_rhs => rw [← map_id (sortBy _ watermarks.entries)]
    rfl
  rw [hsorted, OrderedMap.get?_ofList_perm (sortBy_perm _ _)]

variable {cursorAfter : CursorToken}

theorem SyncRequest.Sound.respond (h : r.Sound streams) {ctx : CursorContext}
    {itemCount : List RawSessionEvent → Nat} {hydrated : Nat → RawSessionEvent → PyValue}
    {paired : List RawSessionEvent} (hpages : r.pages.all (·.isSome) = true)
    (hresponse : r.respond ctx itemCount hydrated paired = .delta events cursorAfter) :
    (∀ key, cursorAfter.payload.watermark key = r.watermark key) ∧
      CoversBetween streams r.previous.watermark r.watermark events := by
  unfold SyncRequest.respond at hresponse
  dsimp only at hresponse
  split at hresponse
  · cases hresponse
  · rename_i hfits
    generalize hevents : (if paired = [] then hydrateAttachments hydrated r.readEvents.1
      else sortRawEvents (paired ++ hydrateAttachments hydrated r.readEvents.1)) = delivered
      at hresponse
    split at hresponse
    · cases hresponse
    · obtain ⟨rfl, hcursor⟩ := SyncResponse.delta.inj hresponse
      refine ⟨?_, ?_⟩
      · intro key
        rw [← hcursor, watermark_encodeCursorForWatermarks]
        rfl
      · intro key e he hlow hhigh
        rw [Bool.or_eq_true, not_or, Bool.not_eq_true] at hfits
        have hwhole : r.readEvents = (sortRawEvents ((r.refs.zip (r.pages.map Option.join)).flatMap
            fun p => (p.2.map fun page => page.events.map p.1.tag).getD []),
            (r.refs.zip (r.pages.map Option.join)).any fun p => p.2.any (·.hasMoreAfter)) := by
          rw [SyncRequest.readEvents] at hfits ⊢
          split
          · rename_i hlong
            rw [if_pos hlong] at hfits
            cases hfits.1
          · rfl
        rw [hwhole] at hfits hevents
        -- the session whose watermark the cursor takes
        obtain ⟨m, hm⟩ : ∃ m, r.watermarks.get? key = some m := by
          cases hm : r.watermarks.get? key with
          | some m => exact ⟨m, rfl⟩
          | none =>
            rw [SyncRequest.watermark, hm] at hhigh
            have hzero : e.seq ≤ 0 := hhigh
            omega
        obtain ⟨i, ref, href, hkey, -⟩ := r.mark_of_watermark hm
        obtain ⟨hlt, -⟩ := List.getElem?_eq_some_iff.mp href
        obtain ⟨p, hp⟩ : ∃ p, r.pages[i]? = some (some p) := by
          have hi : i < r.pages.length := by rw [h.pages_length]; exact hlt
          have hsome := all_eq_true.mp hpages _ (getElem_mem hi)
          obtain ⟨p, hp⟩ := Option.isSome_iff_exists.mp hsome
          exact ⟨p, by rw [getElem?_eq_getElem hi, hp]⟩
        have hpair : (ref, p) ∈ r.refs.zip (r.pages.map Option.join) := by
          apply mem_of_getElem? (i := i)
          rw [getElem?_zip_eq_some, getElem?_map, hp]
          exact ⟨href, rfl⟩
        rw [← hkey] at he hlow hhigh
        obtain ⟨page, rfl, hpage⟩ := (h.paged i ref p href hp).2 e he hlow hhigh
        have hmore : page.hasMoreAfter = false := by
          have hnone := any_eq_false.mp hfits.1 _ hpair
          rwa [Option.any_some, Bool.not_eq_true] at hnone
        have hraw : ref.tag e ∈ sortRawEvents ((r.refs.zip (r.pages.map Option.join)).flatMap
            fun p => (p.2.map fun page => page.events.map p.1.tag).getD []) := by
          rw [sortRawEvents, mem_sortBy, mem_flatMap]
          exact ⟨_, hpair, mem_map_of_mem (hpage hmore)⟩
        obtain ⟨e', he', hcarries⟩ :=
          hydrateAttachments_carries hydrated hraw (carries_tag hkey)
        refine ⟨e', ?_, hcarries⟩
        rw [← hevents]
        split
        · exact he'
        · rw [sortRawEvents, mem_sortBy]
          exact mem_append_right _ he'

end

def SyncSystem.Delivered (s : SyncSystem) (key : String × String) (e : RawSessionEvent) : Prop :=
  ∃ q ∈ s.responses, ∃ events cursorAfter, q.2 = .delta events cursorAfter ∧
    ∃ e' ∈ events, Carries key e e'

/-- The client of the cursor `first` has missed nothing. -/
structure SyncSystem.Sound (first : InternalChatCursorPayload) (s : SyncSystem) : Prop where
  request : ∀ r ∈ s.request, r.Sound s.streams ∧ r.previous = s.cursor.payload
  responses : ∀ q ∈ s.responses, ∀ events cursorAfter, q.2 = .delta events cursorAfter →
    (∀ key, cursorAfter.payload.watermark key ≤ s.streams.lastSeq key) ∧
      CoversBetween s.streams q.1.payload.watermark cursorAfter.payload.watermark events
  chain : ∀ key, ∀ e ∈ s.streams.log key, first.watermark key < e.seq →
    e.seq ≤ s.cursor.payload.watermark key → s.Delivered key e
  current : s.cursor.payload = first ∨ ∀ key, s.cursor.payload.watermark key ≤ s.streams.lastSeq key

section

variable {ctx : CursorContext} {itemCount : List RawSessionEvent → Nat}
  {hydrated : Nat → RawSessionEvent → PyValue} {first : InternalChatCursorPayload}
  {s : SyncSystem}

theorem SyncSystem.Sound.append (h : s.Sound first) {key : String × String}
    (hseq : s.streams.lastSeq key < event.seq) :
    SyncSystem.Sound first { s with streams := s.streams.append key event hseq } where
  request r hr := ⟨(h.request r hr).1.append hseq, (h.request r hr).2⟩
  responses q hq events cursorAfter hdelta := by
    obtain ⟨hmarks, hcovers⟩ := h.responses q hq events cursorAfter hdelta
    exact ⟨fun key' => (hmarks key').trans (lastSeq_le_append hseq key'),
      hcovers.append hseq hmarks⟩
  chain key' e he hlow hhigh := by
    rcases mem_log_append hseq he with hold | hnew
    · exact h.chain key' e hold hlow hhigh
    · dsimp only at hhigh
      rcases h.current with hfirst | hcurrent
      · rw [hfirst] at hhigh
        omega
      · have := hcurrent key'
        omega
  current := by
    rcases h.current with hfirst | hcurrent
    · exact .inl hfirst
    · exact .inr fun key' => (hcurrent key').trans (lastSeq_le_append hseq key')

variable {x : Option SyncRequest}

theorem SyncSystem.Sound.reset (h : s.Sound first)
    (hx : ∀ r ∈ x, r.Sound s.streams ∧ r.previous = s.cursor.payload) (reason : String) :
    SyncSystem.Sound first
      { s with request := x, responses := s.responses ++ [(s.cursor, .reset reason)] } where
  request := hx
  responses q hq events cursorAfter hdelta := by
    rcases mem_append.mp hq with hold | hnew
    · exact h.responses q hold events cursorAfter hdelta
    · rw [mem_singleton.mp hnew] at hdelta
      cases hdelta
  chain key e he hlow hhigh := by
    obtain ⟨q, hq, hdelivered⟩ := h.chain key e he hlow hhigh
    exact ⟨q, mem_append_left _ hq, hdelivered⟩
  current := h.current

theorem SyncSystem.Sound.delta (h : s.Sound first)
    (hmarks : ∀ key, cursorAfter.payload.watermark key ≤ s.streams.lastSeq key)
    (hcovers : CoversBetween s.streams s.cursor.payload.watermark cursorAfter.payload.watermark
      events) :
    SyncSystem.Sound first { s with
        request := none
        responses := s.responses ++ [(s.cursor, .delta events cursorAfter)]
        cursor := cursorAfter } where
  request r hr := by cases hr
  responses q hq events' cursorAfter' hdelta := by
    rcases mem_append.mp hq with hold | hnew
    · exact h.responses q hold events' cursorAfter' hdelta
    · rw [mem_singleton.mp hnew] at hdelta ⊢
      obtain ⟨rfl, rfl⟩ := SyncResponse.delta.inj hdelta
      exact ⟨hmarks, hcovers⟩
  chain key e he hlow hhigh := by
    by_cases hbefore : e.seq ≤ s.cursor.payload.watermark key
    · obtain ⟨q, hq, hdelivered⟩ := h.chain key e he hlow hbefore
      exact ⟨q, mem_append_left _ hq, hdelivered⟩
    · obtain ⟨e', he', hcarries⟩ := hcovers key e he (Nat.lt_of_not_le hbefore) hhigh
      exact ⟨_, mem_append_right _ mem_cons_self, events, cursorAfter, rfl, e', he', hcarries⟩
  current := .inr hmarks

theorem SyncSystem.Sound.with_request (h : s.Sound first)
    (hx : ∀ r ∈ x, r.Sound s.streams ∧ r.previous = s.cursor.payload) :
    SyncSystem.Sound first { s with request := x } :=
  ⟨hx, h.responses, h.chain, h.current⟩

theorem payload_of_validateCursor {token : CursorToken} {now : Nat}
    {payload : InternalChatCursorPayload} (h : validateCursor ctx token now = .ok payload) :
    payload = token.payload := by
  unfold validateCursor decodeCursor at h
  split at h
  · simp only [bind, Except.bind, pure, Except.pure, throw, throwThe, MonadExceptOf.throw] at h
    repeat' split at h
    all_goals cases h
    all_goals rfl
  · cases h

theorem SyncSystem.Sound.start (h : s.Sound first) (refs : List SyncRef) (limit now : Nat) :
    (s.start ctx refs limit now).Sound first := by
  unfold SyncSystem.start
  split
  · exact h
  · split
    · rename_i error _
      split
      · exact h
      · exact h.reset h.request error.code
    · rename_i previous hvalid
      split
      · exact h.reset h.request "lineage_changed"
      · apply h.with_request
        intro r hr
        cases hr
        refine ⟨⟨length_map _, length_map _, ?_, ?_⟩, payload_of_validateCursor hvalid⟩
        · intro i ref m _ hm
          rw [getElem?_map, Option.map_eq_some_iff] at hm
          obtain ⟨_, -, hfalse⟩ := hm
          cases hfalse
        · intro i ref p _ hp
          rw [getElem?_map, Option.map_eq_some_iff] at hp
          obtain ⟨_, -, hfalse⟩ := hp
          cases hfalse

theorem SyncSystem.Sound.step (h : s.Sound first) (e : SyncEvent) :
    (syncStep ctx itemCount hydrated s e).Sound first := by
  cases e with
  | append =>
    rw [syncStep]
    split
    · rename_i hseq
      exact h.append hseq
    · exact h
  | request refs limit now =>
    rw [syncStep]
    split
    · exact h
    · exact h.start refs limit now
  | mark i known =>
    rw [syncStep]
    split
    · exact h
    · rename_i r hr
      obtain ⟨hsound, hprevious⟩ := h.request r hr
      split
      · exact h
      · rename_i ref href
        split
        · rename_i hunread
          apply h.with_request
          intro r' hr'
          cases hr'
          exact ⟨hsound.mark href hunread known, hprevious⟩
        · exact h
  | page i =>
    rw [syncStep]
    split
    · exact h
    · rename_i r hr
      obtain ⟨hsound, hprevious⟩ := h.request r hr
      split
      · exact h
      · rename_i ref href
        split
        · rename_i hready
          rw [Bool.and_eq_true] at hready
          apply h.with_request
          intro r' hr'
          cases hr'
          exact ⟨hsound.page href hready.1, hprevious⟩
        · exact h
  | respond paired =>
    rw [syncStep]
    split
    · exact h
    · rename_i r hr
      obtain ⟨hsound, hprevious⟩ := h.request r hr
      split
      · rename_i hpages
        cases hresponse : r.respond ctx itemCount hydrated paired with
        | reset reason =>
          refine h.reset ?_ reason
          intro r' hr'
          cases hr'
        | delta =>
          obtain ⟨hcursor, hcovers⟩ := hsound.respond hpages hresponse
          rw [hprevious, ← funext hcursor] at hcovers
          refine h.delta ?_ hcovers
          intro key
          rw [hcursor key]
          exact hsound.watermark_le key
      · exact h

theorem syncStep_streams (s : SyncSystem) (e : SyncEvent) :
    (syncStep ctx itemCount hydrated s e).streams = s.streams ∨
      ∃ key event h, (syncStep ctx itemCount hydrated s e).streams =
        s.streams.append key event h := by
  cases e with
  | append key event =>
    rw [syncStep]
    split
    · rename_i hseq
      exact .inr ⟨key, event, hseq, rfl⟩
    · exact .inl rfl
  | request =>
    left
    rw [syncStep, SyncSystem.start]
    repeat' split
    all_goals rfl
  | _ =>
    left
    rw [syncStep]
    repeat' split
    all_goals rfl

theorem streams_grow (s : SyncSystem) (es : List SyncEvent) :
    s.streams.Grows (run (syncStep ctx itemCount hydrated) s es).streams := by
  refine run_invariant (fun s' : SyncSystem => s.streams.Grows s'.streams) ?_
    ⟨fun _ _ he => .inl he, fun _ => Nat.le_refl _⟩ es
  intro s' e hgrows
  rcases @syncStep_streams ctx itemCount hydrated s' e with
    hsame | ⟨key, event, h, happend⟩
  · rwa [hsame]
  · rw [happend]
    exact hgrows.append h

theorem sound_start (streams : Streams) (cursor : CursorToken) :
    SyncSystem.Sound cursor.payload ⟨streams, cursor, none, []⟩ := by
  refine ⟨?_, ?_, ?_, .inl rfl⟩
  · intro r hr
    cases hr
  · intro q hq
    cases hq
  · intro key e _ hlow hhigh
    exact absurd hhigh (Nat.not_le.mpr hlow)

end

/-- However the streams grow, also between the reads of a response: a response that
is no reset carries every event above the watermark of the cursor it was asked for
with and at or below the one it returns, and a client that always syncs with the
cursor it got last has been sent every event between its first cursor and its
present one. -/
theorem sync_covers_every_event (ctx : CursorContext) (itemCount : List RawSessionEvent → Nat)
    (hydrated : Nat → RawSessionEvent → PyValue) (streams : Streams) (cursor : CursorToken)
    (es : List SyncEvent) :
    let s := run (syncStep ctx itemCount hydrated) ⟨streams, cursor, none, []⟩ es
    (∀ q ∈ s.responses, ∀ events cursorAfter, q.2 = .delta events cursorAfter →
        ∀ key, ∀ e ∈ s.streams.log key, q.1.payload.watermark key < e.seq →
          e.seq ≤ cursorAfter.payload.watermark key → ∃ e' ∈ events, Carries key e e') ∧
      ∀ key, ∀ e ∈ s.streams.log key, cursor.payload.watermark key < e.seq →
        e.seq ≤ s.cursor.payload.watermark key →
        ∃ q ∈ s.responses, ∃ events cursorAfter, q.2 = .delta events cursorAfter ∧
          ∃ e' ∈ events, Carries key e e' := by
  intro s
  have hsound : s.Sound cursor.payload :=
    run_invariant (SyncSystem.Sound cursor.payload) (fun s e h => h.step e)
      (sound_start streams cursor) es
  exact ⟨fun q hq events cursorAfter hdelta => (hsound.responses q hq events cursorAfter hdelta).2,
    hsound.chain⟩

def rootSession : SyncRef where
  sessionId := "session"
  eventStoreSessionId := "events"
  ordinal := 0

def plainSyncContext : CursorContext := ⟨"scope", "secret", "v1", fun _ secret => secret, id⟩

def firstSyncCursor : CursorToken :=
  encodeCursorForWatermarks plainSyncContext [rootSession] OrderedMap.empty 0

def rawMessage (seq : Nat) : RawSessionEvent where
  storeId := "intaris"
  sessionId := "events"
  seq := seq
  type := "user_message"

/-- A sync with an event behind the first cursor, and one more between its reads. -/
def syncWithAppends : List SyncEvent :=
  [.append rootSession.key (rawMessage 1), .request [rootSession] 10 1, .mark 0 5,
    .append rootSession.key (rawMessage 2), .page 0, .respond []]

theorem sync_covers_every_event_appended :
    let s := run (syncStep plainSyncContext List.length fun _ _ => .none)
      ⟨⟨fun _ => [], fun _ => .nil⟩, firstSyncCursor, none, []⟩ syncWithAppends
    s.cursor.payload.watermark rootSession.key = 1 ∧
      ∃ q ∈ s.responses, ∃ events cursorAfter, q.2 = .delta events cursorAfter ∧
        ∃ e' ∈ events, Carries rootSession.key (rawMessage 1) e' := by
  intro s
  have hmark : s.cursor.payload.watermark rootSession.key = 1 := by decide +kernel
  refine ⟨hmark, ?_⟩
  apply (sync_covers_every_event plainSyncContext List.length (fun _ _ => .none)
    ⟨fun _ => [], fun _ => .nil⟩ firstSyncCursor syncWithAppends).2
  · exact mem_of_getElem? (i := 0) rfl
  · decide +kernel
  · exact hmark.ge

/-- No event falls behind a cursor that was given before: whatever a stream gets after a
response is above the watermark of the cursor that the response returned. -/
theorem later_events_ahead (ctx : CursorContext) (itemCount : List RawSessionEvent → Nat)
    (hydrated : Nat → RawSessionEvent → PyValue) (streams : Streams) (cursor : CursorToken)
    (es fs : List SyncEvent) :
    let s := run (syncStep ctx itemCount hydrated) ⟨streams, cursor, none, []⟩ es
    ∀ q ∈ s.responses, ∀ events cursorAfter, q.2 = .delta events cursorAfter →
      ∀ key, ∀ e ∈ (run (syncStep ctx itemCount hydrated) s fs).streams.log key,
        e ∈ s.streams.log key ∨ cursorAfter.payload.watermark key < e.seq := by
  intro s q hq events cursorAfter hdelta key e he
  have hsound : s.Sound cursor.payload :=
    run_invariant (SyncSystem.Sound cursor.payload) (fun s e h => h.step e)
      (sound_start streams cursor) es
  have hwithin := (hsound.responses q hq events cursorAfter hdelta).1 key
  rcases (streams_grow s fs).later key e he with hold | hnew
  · exact .inl hold
  · exact .inr (Nat.lt_of_le_of_lt hwithin hnew)

end Cognis.Paging
