import Cognis.Library.Runs
import Cognis.ToolOutput.Spool

namespace Cognis.ToolOutput

open List Option

variable {c : ToolOutputChunk} {k : SpoolKey} {limit : Int}

inductive SpoolEvent where
  | append (now : Int) (key : SpoolKey) (toolName text : String) (stream turnId : Option String)
  | complete (now : Int) (key : SpoolKey) (status : String) (toolName turnId : Option String)
  /-- The reader asks for its next page. -/
  | page (now limit : Int)
  /-- Anybody asks for any page. -/
  | otherPage (now : Int) (key : SpoolKey) (offset limit : Int) (latest : Bool)

/-- A spool, and what its reader has received and skipped. -/
structure Reading where
  spool : ToolOutputSpool
  offset : Nat := 0
  received : List ToolOutputChunk := []
  skipped : List Nat := []

def ToolOutputSpoolPage.behind (p : ToolOutputSpoolPage) : Nat :=
  p.nextOffset.getD (p.offset + p.chunks.length)

def missedBefore (e : ToolOutputSpoolEntry) (position : Nat) (received : List ToolOutputChunk) :
    List Nat :=
  ((e.chunks.take position).map (·.index)).filter fun index =>
    !(received.map (·.index)).contains index

namespace Reading

def next (r : Reading) : Nat := (r.received.getLast?.map (·.index + 1)).getD 0

def take (r : Reading) (e : ToolOutputSpoolEntry) (limit : Int) : Reading :=
  let p := e.page r.offset limit false
  { r with
    offset := p.behind
    received := r.received ++ p.chunks
    skipped := r.skipped ++ missedBefore e p.behind (r.received ++ p.chunks) }

variable (key : SpoolKey)

def step (r : Reading) : SpoolEvent → Reading
  | .append now k toolName text stream turnId =>
    { r with spool := (r.spool.append now k toolName text stream turnId).1 }
  | .complete now k status toolName turnId =>
    { r with spool := r.spool.markComplete now k status toolName turnId }
  | .page now limit =>
    let r' := { r with spool := (r.spool.getEntry now key).1 }
    match (r.spool.getEntry now key).2 with
    | some e => r'.take e limit
    | none => r'
  | .otherPage now k offset limit latest =>
    { r with spool := (r.spool.page now k offset limit latest).1 }

def Unexpired (r : Reading) : SpoolEvent → Prop
  | .append now .. | .page now _ | .otherPage now .. =>
    ∀ e ∈ r.spool.entries.get? key, r.spool.expired now e = false
  | .complete .. => True

/-- A request finds the reader's offset behind the last chunk it received, because nothing
was dropped since; or the reader has received nothing yet, or everything retained. -/
def Undisturbed (r : Reading) : SpoolEvent → Prop
  | .page _ _ => ∀ e ∈ r.spool.entries.get? key,
      r.received = [] ∨ e.droppedChunks + r.offset = r.next ∨ ∀ c ∈ e.chunks, c.index < r.next
  | _ => True

instance (r : Reading) : DecidablePred (Unexpired key r) := fun event =>
  match event with
  | .append now .. => inferInstanceAs (Decidable (∀ e ∈ _, r.spool.expired now e = false))
  | .page now _ => inferInstanceAs (Decidable (∀ e ∈ _, r.spool.expired now e = false))
  | .otherPage now .. => inferInstanceAs (Decidable (∀ e ∈ _, r.spool.expired now e = false))
  | .complete .. => isTrue trivial

end Reading

section

variable {s : ToolOutputSpool} {now : Int} {key : SpoolKey}

theorem get?_foldl_erase (l : List (SpoolKey × ToolOutputSpoolEntry))
    (entries : OrderedMap SpoolKey ToolOutputSpoolEntry) :
    (l.foldl (fun entries p => entries.erase p.1) entries).get? key =
      if key ∈ l.map Prod.fst then none else entries.get? key := by
  induction l generalizing entries with
  | nil => simp
  | cons p l ih =>
    have hin : key ∈ (p :: l).map Prod.fst ↔ key = p.1 ∨ key ∈ l.map Prod.fst := by
      rw [map_cons, mem_cons]
    rw [foldl_cons, ih, OrderedMap.get?_erase]
    by_cases hl : key ∈ l.map Prod.fst
    · rw [if_pos hl, if_pos (hin.mpr (.inr hl))]
    · rw [if_neg hl]
      by_cases hp : key = p.1
      · rw [if_pos hp, if_pos (hin.mpr (.inl hp))]
      · rw [if_neg hp, if_neg]
        intro hmem
        obtain h | h := hin.mp hmem
        · exact hp h
        · exact hl h

theorem get?_prune (h : ∀ e, s.entries.get? key = some e → s.expired now e = false) :
    (s.prune now).entries.get? key = s.entries.get? key := by
  unfold ToolOutputSpool.prune
  rw [get?_foldl_erase, if_neg]
  rw [List.mem_map]
  rintro ⟨⟨k, e⟩, he, rfl⟩
  obtain ⟨hmem, hexpired⟩ := mem_filter.mp he
  rw [h e (s.entries.get?_eq_some_iff.mpr hmem)] at hexpired
  cases hexpired

end

/-- What may become of an entry between two pages. -/
structure Grown (s : ToolOutputSpool) (e e' : ToolOutputSpoolEntry) : Prop where
  ordered : e'.Ordered
  within : s.Within e'
  dropped : e.droppedChunks ≤ e'.droppedChunks
  count : e.droppedChunks + e.chunks.length ≤ e'.droppedChunks + e'.chunks.length
  chunks : ∀ c ∈ e'.chunks, c ∈ e.chunks ∨ e.droppedChunks + e.chunks.length ≤ c.index

section

variable {s : ToolOutputSpool} {e : ToolOutputSpoolEntry}

theorem grown_append (h : e.Ordered) (now : Int) (text : String) (stream : Option String) :
    Grown s e (s.enforceLimits (e.push now text stream)) := by
  obtain ⟨hordered, hwithin⟩ := h.append s now text stream
  obtain ⟨n, hn, hsuffix, hdropped⟩ :=
    (trimmed_enforceLimits s (e.push now text stream)).suffix
  have hlength : (e.push now text stream).chunks.length = e.chunks.length + 1 := by
    simp [ToolOutputSpoolEntry.push]
  have hsame : (e.push now text stream).droppedChunks = e.droppedChunks := rfl
  refine ⟨hordered, hwithin, ?_, ?_, ?_⟩
  · omega
  · rw [hsuffix, length_drop, hdropped]
    omega
  · intro c hc
    rw [hsuffix] at hc
    have hmem : c ∈ (e.push now text stream).chunks := mem_of_mem_drop hc
    obtain hold | hnew := mem_append.mp hmem
    · exact .inl hold
    · rw [mem_singleton] at hnew
      rw [hnew]
      exact .inr (Nat.le_refl _)

end

/-- What holds of a reading whatever its reader has passed over. -/
structure Reading.Sound (key : SpoolKey) (r : Reading) : Prop where
  entry : ∀ e, r.spool.entries.get? key = some e → e.Ordered ∧ r.spool.Within e
  increasing : (r.received.map (·.index)).Pairwise (· < ·)
  fresh : r.received = [] → r.offset = 0
  started : r.received ≠ [] → 0 < r.offset ∧ ∃ e, r.spool.entries.get? key = some e ∧
    r.next ≤ e.droppedChunks + r.offset ∧ r.next ≤ e.droppedChunks + e.chunks.length

def Reading.Complete (key : SpoolKey) (r : Reading) : Prop :=
  ∀ e, r.spool.entries.get? key = some e → ∀ c ∈ e.chunks, c.index < r.next →
    c.index ∈ r.received.map (·.index)

section

variable {key : SpoolKey} {r : Reading}

theorem Reading.Sound.lt_next (h : r.Sound key) (hc : c ∈ r.received) :
    c.index < r.next := by
  have hincreasing := h.increasing
  unfold Reading.next
  cases hlast : r.received.getLast? with
  | none =>
    rw [getLast?_eq_none_iff] at hlast
    rw [hlast] at hc
    cases hc
  | some d =>
    obtain ⟨before, hbefore⟩ := getLast?_eq_some_iff.mp hlast
    rw [hbefore, map_append, pairwise_append] at hincreasing
    rw [hbefore, mem_append, mem_singleton] at hc
    change c.index < d.index + 1
    obtain hc | rfl := hc
    · have hlt := hincreasing.2.2 c.index (mem_map_of_mem hc) d.index (by simp)
      omega
    · omega

variable {e' : ToolOutputSpoolEntry}

theorem Reading.Sound.grow (h : r.Sound key) {entries : OrderedMap SpoolKey ToolOutputSpoolEntry}
    (he' : entries.get? key = some e')
    (hlimits : ∀ e, r.spool.entries.get? key = some e → Grown r.spool e e')
    (hnew : r.spool.entries.get? key = none → e'.Ordered ∧ r.spool.Within e') :
    ({ r with spool.entries := entries } : Reading).Sound key ∧
      (r.Complete key → ({ r with spool.entries := entries } : Reading).Complete key) := by
  have hsome (e : ToolOutputSpoolEntry) (he : entries.get? key = some e) : e = e' := by
    rw [he'] at he
    exact (some.inj he).symm
  refine ⟨⟨?_, h.increasing, h.fresh, ?_⟩, ?_⟩
  · intro e he
    rw [hsome e he]
    cases hold : r.spool.entries.get? key with
    | none => exact ⟨(hnew hold).1, (hnew hold).2.chunks, (hnew hold).2.bytes⟩
    | some e₀ =>
      have hgrown := hlimits e₀ hold
      exact ⟨hgrown.ordered, hgrown.within.chunks, hgrown.within.bytes⟩
  · intro hreceived
    obtain ⟨hoffset, e, he, hnext, hcount⟩ := h.started hreceived
    have hgrown := hlimits e he
    have hdropped := hgrown.dropped
    have hlength := hgrown.count
    refine ⟨hoffset, e', he', ?_, ?_⟩
    · change r.next ≤ e'.droppedChunks + r.offset
      omega
    · change r.next ≤ e'.droppedChunks + e'.chunks.length
      omega
  · intro hcomplete e he c hc hlt
    rw [hsome e he] at hc
    by_cases hreceived : r.received = []
    · have hzero : r.next = 0 := by
        unfold Reading.next
        rw [hreceived]
        rfl
      change c.index < r.next at hlt
      omega
    · obtain ⟨-, e₀, he₀, -, hcount⟩ := h.started hreceived
      obtain hold | hbehind := (hlimits e₀ he₀).chunks c hc
      · exact hcomplete e₀ he₀ c hold hlt
      · change c.index < r.next at hlt
        omega

theorem Reading.Sound.keep (h : r.Sound key) {spool : ToolOutputSpool}
    (hsame : spool.entries.get? key = r.spool.entries.get? key)
    (hwithin : ∀ e, r.spool.Within e → spool.Within e) :
    ({ r with spool := spool } : Reading).Sound key ∧
      (r.Complete key → ({ r with spool := spool } : Reading).Complete key) := by
  refine ⟨⟨?_, h.increasing, h.fresh, ?_⟩, ?_⟩
  · intro e he
    rw [hsame] at he
    exact ⟨(h.entry e he).1, hwithin e (h.entry e he).2⟩
  · intro hreceived
    obtain ⟨hoffset, e, he, hnext⟩ := h.started hreceived
    exact ⟨hoffset, e, hsame.trans he, hnext⟩
  · intro hcomplete e he
    rw [hsame] at he
    exact hcomplete e he

theorem Reading.Sound.write (h : r.Sound key)
    (hgrown : ∀ e, e.Ordered ∧ r.spool.Within e → r.spool.entries.get? k = some e →
      Grown r.spool e e')
    (hnew : r.spool.entries.get? k = none → e'.Ordered ∧ r.spool.Within e') :
    ({ r with spool.entries := r.spool.entries.set k e' } : Reading).Sound key ∧ (r.Complete key →
        ({ r with spool.entries := r.spool.entries.set k e' } : Reading).Complete key) := by
  have hset := OrderedMap.get?_set r.spool.entries k key e'
  by_cases hk : key = k
  · subst hk
    rw [if_pos rfl] at hset
    exact h.grow hset (fun e he => hgrown e (h.entry e he) he) hnew
  · rw [if_neg hk] at hset
    exact h.keep hset fun _ hw => ⟨hw.chunks, hw.bytes⟩

variable {now : Int}

theorem Reading.Sound.prune (h : r.Sound key)
    (hfresh : ∀ e, r.spool.entries.get? key = some e → r.spool.expired now e = false) :
    ({ r with spool := r.spool.prune now } : Reading).Sound key ∧
      (r.Complete key → ({ r with spool := r.spool.prune now } : Reading).Complete key) :=
  h.keep (get?_prune hfresh) fun _ hw => ⟨hw.chunks, hw.bytes⟩

end

section

variable {key : SpoolKey} {r : Reading} {e : ToolOutputSpoolEntry}

theorem safeLimit_pos (limit : Int) : 0 < safeLimit limit := by
  unfold safeLimit
  omega

def pageEnd (e : ToolOutputSpoolEntry) (offset : Nat) (limit : Int) : Nat :=
  min e.chunks.length (offset + safeLimit limit)

theorem page_chunks (e : ToolOutputSpoolEntry) (offset : Nat) (limit : Int) :
    (e.page offset limit false).chunks =
      (e.chunks.drop offset).take (pageEnd e offset limit - offset) := by
  have hstart : (max 0 (offset : Int)).toNat = offset := by omega
  unfold ToolOutputSpoolEntry.page pageEnd
  simp only [hstart, Bool.false_eq_true, if_false]

theorem page_behind (e : ToolOutputSpoolEntry) (offset : Nat) (limit : Int) :
    (e.page offset limit false).behind = max offset (pageEnd e offset limit) := by
  have hstart : (max 0 (offset : Int)).toNat = offset := by omega
  have hpos := safeLimit_pos limit
  have hlength : (e.page offset limit false).chunks.length =
      pageEnd e offset limit - offset := by
    rw [page_chunks, length_take, length_drop, pageEnd]
    omega
  have hnext : (e.page offset limit false).nextOffset =
      if pageEnd e offset limit < e.chunks.length then some (pageEnd e offset limit)
      else none := by
    unfold ToolOutputSpoolEntry.page pageEnd
    simp only [hstart, Bool.false_eq_true, if_false]
  have hoffset : (e.page offset limit false).offset = offset := by
    unfold ToolOutputSpoolEntry.page
    simp only [hstart, Bool.false_eq_true, if_false]
  unfold ToolOutputSpoolPage.behind
  rw [hnext, hoffset, hlength]
  by_cases hmore : pageEnd e offset limit < e.chunks.length
  · rw [if_pos hmore]
    unfold pageEnd at hmore ⊢
    change min _ _ = _
    omega
  · rw [if_neg hmore]
    change offset + _ = _
    omega

theorem mem_page_chunks {offset : Nat} : c ∈ (e.page offset limit false).chunks ↔
      ∃ i, offset ≤ i ∧ i < pageEnd e offset limit ∧ e.chunks[i]? = some c := by
  rw [page_chunks, mem_iff_getElem?]
  simp only [getElem?_take, getElem?_drop]
  constructor
  · rintro ⟨i, hi⟩
    split at hi
    · exact ⟨offset + i, by omega, by omega, hi⟩
    · cases hi
  · rintro ⟨i, hle, hlt, hi⟩
    refine ⟨i - offset, ?_⟩
    rw [if_pos (by omega), Nat.add_sub_cancel' hle]
    exact hi

theorem Laid.increasing {index offset : Nat} {chunks : List ToolOutputChunk}
    (h : Laid index offset chunks) : (chunks.map (·.index)).Pairwise (· < ·) := by
  rw [pairwise_map, pairwise_iff_getElem]
  intro i j hi hj hij
  have hiEq := h.index_eq (getElem?_eq_getElem hi)
  have hjEq := h.index_eq (getElem?_eq_getElem hj)
  omega

theorem Reading.Sound.le_page (h : r.Sound key) (he : r.spool.entries.get? key = some e)
    (hc : c ∈ (e.page r.offset limit false).chunks) :
    r.next ≤ c.index ∧ e.droppedChunks + r.offset ≤ c.index ∧
      c.index < e.droppedChunks + (e.page r.offset limit false).behind ∧
      c.index < e.droppedChunks + e.chunks.length := by
  obtain ⟨i, hle, hlt, hi⟩ := mem_page_chunks.mp hc
  have hindex := (h.entry e he).1.laid.index_eq hi
  have hlength : i < e.chunks.length := (List.getElem?_eq_some_iff.mp hi).1
  rw [page_behind]
  refine ⟨?_, by omega, by omega, by omega⟩
  by_cases hreceived : r.received = []
  · have hzero : r.next = 0 := by
      unfold Reading.next
      rw [hreceived]
      rfl
    omega
  · obtain ⟨-, e', he', hnext, -⟩ := h.started hreceived
    rw [he] at he'
    cases he'
    omega

theorem Reading.Sound.take (h : r.Sound key) (he : r.spool.entries.get? key = some e)
    (limit : Int) : (r.take e limit).Sound key := by
  have hpage {c : ToolOutputChunk} (hc : c ∈ (e.page r.offset limit false).chunks) :=
    h.le_page he hc
  have hbehind := page_behind e r.offset limit
  have hordered := (h.entry e he).1.laid
  refine ⟨h.entry, ?_, ?_, ?_⟩
  · change ((r.received ++ (e.page r.offset limit false).chunks).map (·.index)).Pairwise _
    rw [map_append, pairwise_append]
    refine ⟨h.increasing, ?_, ?_⟩
    · have hsublist := (take_sublist (pageEnd e r.offset limit - r.offset) _).trans
        (drop_sublist r.offset e.chunks)
      exact hordered.increasing.sublist (hsublist.map _)
    · intro a ha b hb
      obtain ⟨c, hc, rfl⟩ := mem_map.mp ha
      obtain ⟨d, hd, rfl⟩ := mem_map.mp hb
      have hlt := h.lt_next hc
      have hle := (hpage hd).1
      omega
  · intro hnil
    obtain ⟨hold, hnew⟩ := append_eq_nil_iff.mp hnil
    change (e.page r.offset limit false).behind = 0
    have hlength := congrArg length hnew
    have hzero := h.fresh hold
    have hpos := safeLimit_pos limit
    rw [page_chunks, length_take, length_drop, pageEnd] at hlength
    rw [hbehind, pageEnd]
    simp only [length_nil] at hlength
    omega
  · intro hreceived
    change 0 < (e.page r.offset limit false).behind ∧
      ∃ e' : ToolOutputSpoolEntry, _ ∧ (r.take e limit).next ≤
      e'.droppedChunks + (e.page r.offset limit false).behind ∧ _
    by_cases hnew : (e.page r.offset limit false).chunks = []
    · -- an empty page leaves the reader where it is
      have hold : r.received ≠ [] := by
        intro hold
        apply hreceived
        change r.received ++ (e.page r.offset limit false).chunks = []
        rw [hold, hnew]
        rfl
      have hnext : (r.take e limit).next = r.next := by
        unfold Reading.next
        change ((r.received ++ (e.page r.offset limit false).chunks).getLast?.map _).getD 0 = _
        rw [hnew, append_nil]
      obtain ⟨hoffset, e', he', hle, hcount⟩ := h.started hold
      rw [he] at he'
      cases he'
      refine ⟨by omega, e, he, ?_, ?_⟩
      · omega
      · rw [hnext]
        exact hcount
    · obtain ⟨c, hc⟩ : ∃ c, (e.page r.offset limit false).chunks.getLast? = some c := by
        rw [← isSome_iff_exists, getLast?_isSome]
        exact hnew
      have hnext : (r.take e limit).next = c.index + 1 := by
        change ((r.received ++ (e.page r.offset limit false).chunks).getLast?.map _).getD 0 = _
        rw [getLast?_append, hc]
        rfl
      obtain ⟨-, -, hlt, hcount⟩ := hpage (mem_of_getLast? hc)
      obtain ⟨i, -, hi, -⟩ := mem_page_chunks.mp (mem_of_getLast? hc)
      exact ⟨by omega, e, he, by omega, by omega⟩

theorem missedBefore_eq_nil_iff {position : Nat} {received : List ToolOutputChunk} :
    missedBefore e position received = [] ↔
      ∀ i < position, ∀ c, e.chunks[i]? = some c → c.index ∈ received.map (·.index) := by
  unfold missedBefore
  rw [filter_eq_nil_iff]
  constructor
  · intro h i hi c hc
    have hmem : c ∈ e.chunks.take position := by
      apply mem_of_getElem? (i := i)
      rw [getElem?_take, if_pos hi]
      exact hc
    have hreceived := h c.index (mem_map_of_mem hmem)
    simpa using hreceived
  · intro h index hindex
    obtain ⟨c, hc, rfl⟩ := mem_map.mp hindex
    obtain ⟨i, hi⟩ := mem_iff_getElem?.mp hc
    rw [getElem?_take] at hi
    split at hi
    · rename_i hlt
      simpa using h i hlt c hi
    · cases hi

/-- A reader that has received everything before its last chunk passes over nothing, iff
the request finds it undisturbed. -/
theorem Reading.Sound.missed_iff (h : r.Sound key) (hcomplete : r.Complete key)
    (he : r.spool.entries.get? key = some e) (limit : Int) :
    missedBefore e (e.page r.offset limit false).behind
        (r.received ++ (e.page r.offset limit false).chunks) = [] ↔
      (r.received = [] ∨ e.droppedChunks + r.offset = r.next ∨
        ∀ c ∈ e.chunks, c.index < r.next) := by
  have hlaid := (h.entry e he).1.laid
  rw [missedBefore_eq_nil_iff, map_append]
  simp only [mem_append]
  constructor
  · intro hall
    by_contra hdisturbed
    simp only [not_or, not_forall] at hdisturbed
    obtain ⟨hreceived, hmoved, c, hc, hunread⟩ := hdisturbed
    obtain ⟨hoffset, e', he', hnext, -⟩ := h.started hreceived
    rw [he] at he'
    cases he'
    -- the first retained chunk that the reader has not received stands before its offset
    obtain ⟨i, hi⟩ := mem_iff_getElem?.mp hc
    have hindex := hlaid.index_eq hi
    have hlength : i < e.chunks.length := (List.getElem?_eq_some_iff.mp hi).1
    let j := r.next - e.droppedChunks
    have hj : j < e.chunks.length := by omega
    have hjIndex := hlaid.index_eq (getElem?_eq_getElem hj)
    obtain hold | hnew := hall j (by rw [page_behind]; omega) _ (getElem?_eq_getElem hj)
    · obtain ⟨d, hd, hdIndex⟩ := mem_map.mp hold
      have hlt := h.lt_next hd
      omega
    · obtain ⟨d, hd, hdIndex⟩ := mem_map.mp hnew
      have hle := (h.le_page he hd).2.1
      omega
  · intro hundisturbed i hi c hc
    have hindex := hlaid.index_eq hc
    have hlength : i < e.chunks.length := (List.getElem?_eq_some_iff.mp hc).1
    rw [page_behind] at hi
    by_cases hbefore : i < r.offset
    · refine .inl (hcomplete e he c (mem_of_getElem? hc) ?_)
      obtain hnil | hsame | hread := hundisturbed
      · rw [h.fresh hnil] at hbefore
        omega
      · omega
      · exact hread c (mem_of_getElem? hc)
    · refine .inr (mem_map_of_mem (mem_page_chunks.mpr ⟨i, by omega, ?_, hc⟩))
      omega

theorem Reading.Sound.complete_take (h : r.Sound key) (he : r.spool.entries.get? key = some e)
    (hmissed : missedBefore e (e.page r.offset limit false).behind
      (r.received ++ (e.page r.offset limit false).chunks) = []) :
    (r.take e limit).Complete key := by
  intro e' he' c hc hlt
  change r.spool.entries.get? key = some e' at he'
  rw [he] at he'
  cases he'
  have hlaid := (h.entry e he).1.laid
  obtain ⟨i, hi⟩ := mem_iff_getElem?.mp hc
  have hindex := hlaid.index_eq hi
  by_cases hreceived : (r.take e limit).received = []
  · have hzero : (r.take e limit).next = 0 := by
      unfold Reading.next
      rw [hreceived]
      rfl
    omega
  · obtain ⟨-, e', he', hnext, -⟩ := (h.take he limit).started hreceived
    change r.spool.entries.get? key = some e' at he'
    rw [he] at he'
    cases he'
    change (r.take e limit).next ≤ e.droppedChunks + (e.page r.offset limit false).behind at hnext
    exact missedBefore_eq_nil_iff.mp hmissed i (by omega) c hi

end

section

open Runs

variable {key : SpoolKey} {r : Reading}

theorem Reading.Sound.append (h : r.Sound key) {toolName text : String}
    {stream turnId : Option String}
    (hfresh : r.Unexpired key (.append now k toolName text stream turnId)) :
    (r.step key (.append now k toolName text stream turnId)).Sound key ∧ (r.Complete key →
        (r.step key (.append now k toolName text stream turnId)).Complete key) := by
  obtain ⟨hpruned, hkept⟩ := h.prune hfresh
  let s := r.spool.prune now
  let e' := s.enforceLimits ((s.entryFor now k toolName turnId).push now text stream)
  have hgrown (e : ToolOutputSpoolEntry) (hok : e.Ordered ∧ s.Within e)
      (he : s.entries.get? k = some e) : Grown s e e' := by
    have hentry : s.entryFor now k toolName turnId = e := by
      rw [ToolOutputSpool.entryFor, he]
      rfl
    unfold e'
    rw [hentry]
    exact grown_append hok.1 now text stream
  have hnew (hnone : s.entries.get? k = none) : e'.Ordered ∧ s.Within e' := by
    have hentry : s.entryFor now k toolName turnId =
        ToolOutputSpool.newEntry now toolName turnId := by
      rw [ToolOutputSpool.entryFor, hnone]
      rfl
    unfold e'
    rw [hentry]
    exact (ordered_newEntry now toolName turnId).append s now text stream
  obtain ⟨hsound, hcomplete⟩ := hpruned.write hgrown hnew
  exact ⟨hsound, fun h => hcomplete (hkept h)⟩

theorem Reading.Sound.complete (h : r.Sound key) {status : String}
    {toolName turnId : Option String} :
    (r.step key (.complete now k status toolName turnId)).Sound key ∧ (r.Complete key →
        (r.step key (.complete now k status toolName turnId)).Complete key) := by
  let name := (toolName.filter (· ≠ "")).getD "tool"
  let e' : ToolOutputSpoolEntry :=
    { r.spool.entryFor now k name turnId with status := status, updatedAt := now }
  have hgrown (e : ToolOutputSpoolEntry) (hok : e.Ordered ∧ r.spool.Within e)
      (he : r.spool.entries.get? k = some e) : Grown r.spool e e' := by
    have hentry : r.spool.entryFor now k name turnId = e := by
      rw [ToolOutputSpool.entryFor, he]
      rfl
    unfold e'
    rw [hentry]
    exact ⟨⟨hok.1.laid, hok.1.total⟩, ⟨hok.2.chunks, hok.2.bytes⟩, Nat.le_refl _, Nat.le_refl _,
      fun _ hc => .inl hc⟩
  have hnew (hnone : r.spool.entries.get? k = none) : e'.Ordered ∧ r.spool.Within e' := by
    have hentry : r.spool.entryFor now k name turnId =
        ToolOutputSpool.newEntry now name turnId := by
      rw [ToolOutputSpool.entryFor, hnone]
      rfl
    unfold e'
    rw [hentry]
    exact ⟨⟨trivial, rfl⟩, Nat.zero_le _, Nat.zero_le _⟩
  exact h.write hgrown hnew

theorem Reading.step_page (hfresh : r.Unexpired key (.page now limit)) :
    r.step key (.page now limit) =
      match r.spool.entries.get? key with
      | some e => ({ r with spool := r.spool.prune now } : Reading).take e limit
      | none => { r with spool := r.spool.prune now } := by
  unfold Reading.step ToolOutputSpool.getEntry
  dsimp only
  rw [get?_prune hfresh]

theorem Reading.Sound.step (h : r.Sound key) {event : SpoolEvent}
    (hfresh : r.Unexpired key event) : (r.step key event).Sound key := by
  cases event with
  | append => exact (h.append hfresh).1
  | complete => exact h.complete.1
  | otherPage => exact (h.prune hfresh).1
  | page now limit =>
    obtain ⟨hpruned, -⟩ := h.prune hfresh
    rw [Reading.step_page hfresh]
    cases he : r.spool.entries.get? key with
    | none => exact hpruned
    | some e => exact hpruned.take ((get?_prune hfresh).trans he) limit

theorem Reading.Sound.step_skipped_iff (h : r.Sound key) (hcomplete : r.Complete key)
    (hskipped : r.skipped = []) {event : SpoolEvent} (hfresh : r.Unexpired key event) :
    ((r.step key event).skipped = [] ↔ r.Undisturbed key event) ∧
      ((r.step key event).skipped = [] → (r.step key event).Complete key) := by
  cases event with
  | append =>
    exact ⟨iff_of_true hskipped trivial, fun _ => (h.append hfresh).2 hcomplete⟩
  | complete => exact ⟨iff_of_true hskipped trivial, fun _ => h.complete.2 hcomplete⟩
  | otherPage =>
    exact ⟨iff_of_true hskipped trivial, fun _ => (h.prune hfresh).2 hcomplete⟩
  | page now limit =>
    obtain ⟨hpruned, hkept⟩ := h.prune hfresh
    rw [Reading.step_page hfresh]
    cases he : r.spool.entries.get? key with
    | none =>
      refine ⟨iff_of_true hskipped ?_, fun _ => hkept hcomplete⟩
      intro e he'
      rw [mem_def, he] at he'
      cases he'
    | some e =>
      have he' := (get?_prune hfresh).trans he
      have hmissed := hpruned.missed_iff (hkept hcomplete) he' limit
      have hundisturbed : r.Undisturbed key (.page now limit) ↔
          (r.received = [] ∨ e.droppedChunks + r.offset = r.next ∨
            ∀ c ∈ e.chunks, c.index < r.next) := by
        constructor
        · exact fun hall => hall e he
        · intro hat e₁ he₁
          rw [mem_def, he] at he₁
          cases he₁
          exact hat
      change (r.skipped ++ missedBefore e _ _ = [] ↔ _) ∧ (r.skipped ++ _ = [] → _)
      rw [hskipped, nil_append, hundisturbed]
      exact ⟨hmissed, fun hnone => hpruned.complete_take he' hnone⟩

theorem Reading.skipped_step (r : Reading) (event : SpoolEvent) :
    r.skipped <+: (r.step key event).skipped := by
  cases event with
  | page =>
    unfold Reading.step
    dsimp only
    split
    · exact prefix_append _ _
    · exact prefix_rfl
  | append | complete | otherPage => exact prefix_rfl

theorem Reading.skipped_run (r : Reading) (events : List SpoolEvent) :
    r.skipped <+: (run (Reading.step key) r events).skipped := by
  induction events generalizing r with
  | nil => exact prefix_rfl
  | cons event events ih => exact (r.skipped_step event).trans (ih _)

variable {events : List SpoolEvent}

theorem Reading.Sound.run (h : r.Sound key)
    (hfresh : Meets (Reading.step key) (Reading.Unexpired key) r events) :
    (run (Reading.step key) r events).Sound key :=
  run_invariant_of_meets (Reading.Sound key) (fun _ _ h hfresh => h.step hfresh) h hfresh

theorem Reading.Sound.run_skipped_iff (h : r.Sound key) (hcomplete : r.Complete key)
    (hskipped : r.skipped = [])
    (hfresh : Meets (Reading.step key) (Reading.Unexpired key) r events) :
    (Runs.run (Reading.step key) r events).skipped = [] ↔
      Meets (Reading.step key) (Reading.Undisturbed key) r events := by
  induction events generalizing r with
  | nil => exact iff_of_true hskipped trivial
  | cons event events ih =>
    obtain ⟨hiff, hnext⟩ := h.step_skipped_iff hcomplete hskipped hfresh.1
    have hrest (hstep : (r.step key event).skipped = []) :=
      ih (h.step hfresh.1) (hnext hstep) hstep hfresh.2
    constructor
    · intro hrun
      have hstep : (r.step key event).skipped = [] := by
        have hkept : (r.step key event).skipped <+:
            (Runs.run (Reading.step key) (r.step key event) events).skipped :=
          Reading.skipped_run _ events
        rw [run_cons] at hrun
        rw [hrun] at hkept
        exact prefix_nil.mp hkept
      exact ⟨hiff.mp hstep, (hrest hstep).mp hrun⟩
    · rintro ⟨hundisturbed, hmeets⟩
      exact (hrest (hiff.mpr hundisturbed)).mpr hmeets

end

def freshReading (ttl : Int) (maxBytes maxChunks : Nat) : Reading where
  spool := { ttl, maxBytes, maxChunks }

theorem sound_fresh (key : SpoolKey) (ttl : Int) (maxBytes maxChunks : Nat) :
    (freshReading ttl maxBytes maxChunks).Sound key := by
  refine ⟨?_, List.Pairwise.nil, fun _ => rfl, fun h => absurd rfl h⟩
  intro e he
  cases he

/-- In every run without expiry the reader receives no chunk twice, the entry is ordered and
within its limits, and the reader passes over no retained chunk exactly if every request
finds it undisturbed. -/
theorem spool_paging_gapless_iff (key : SpoolKey) (ttl : Int) (maxBytes maxChunks : Nat)
    (events : List SpoolEvent) (hfresh : Runs.Meets (Reading.step key) (Reading.Unexpired key)
      (freshReading ttl maxBytes maxChunks) events) :
    let r := Runs.run (Reading.step key) (freshReading ttl maxBytes maxChunks) events
    (r.received.map (·.index)).Pairwise (· < ·) ∧
      (∀ e, r.spool.entries.get? key = some e → e.Ordered ∧ r.spool.Within e) ∧
      (r.skipped = [] ↔ Runs.Meets (Reading.step key) (Reading.Undisturbed key)
        (freshReading ttl maxBytes maxChunks) events) := by
  have hstart := sound_fresh key ttl maxBytes maxChunks
  have hsound := hstart.run hfresh
  have hnothing : (freshReading ttl maxBytes maxChunks).Complete key := by
    intro e he
    cases he
  exact ⟨hsound.increasing, hsound.entry, hstart.run_skipped_iff hnothing rfl hfresh⟩

def droppedRun : List SpoolEvent :=
  [.append 0 ("c", "s", "t") "bash" "a" none none, .append 0 ("c", "s", "t") "bash" "b" none none,
    .page 0 1, .append 0 ("c", "s", "t") "bash" "c" none none, .page 0 1]

theorem droppedRun_unexpired : Runs.Meets (Reading.step ("c", "s", "t"))
    (Reading.Unexpired ("c", "s", "t")) (freshReading 900 100 2) droppedRun := by
  decide +kernel

theorem spool_paging_of_dropped :
    ¬Runs.Meets (Reading.step ("c", "s", "t")) (Reading.Undisturbed ("c", "s", "t"))
      (freshReading 900 100 2) droppedRun := by
  have hskipped : ¬(Runs.run (Reading.step ("c", "s", "t")) (freshReading 900 100 2)
      droppedRun).skipped = [] := by decide +kernel
  intro h
  exact hskipped ((spool_paging_gapless_iff ("c", "s", "t") 900 100 2 droppedRun
    droppedRun_unexpired).2.2.mpr h)

/-- The second chunk is retained when the second request passes over it. -/
theorem spool_paging_skips_retained :
    (Runs.run (Reading.step ("c", "s", "t")) (freshReading 900 100 2) droppedRun).skipped = [1] ∧
      1 ∉ (Runs.run (Reading.step ("c", "s", "t")) (freshReading 900 100 2)
        droppedRun).received.map (·.index) := by
  decide +kernel

end Cognis.ToolOutput
