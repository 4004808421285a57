import Cognis.Library.Brackets
import Cognis.SignalFormatting.Rendering

namespace Cognis.SignalFormatting

open Brackets List PythonText

def Style.priority : Style → Nat
  | .spoiler => 0
  | .strikethrough => 1
  | .bold => 2
  | .italic => 3
  | .monospace => 4

variable (text : Text) (spans : List Span) (index : Nat)

def maxBacktickRun : Nat :=
  let runs := (Regex.plus (.char (· == '\x60'))).finditer text
  (runs.map fun run => (run.1.upTo run.2).length).foldl max 0

def markersForSpan (content : Text) (span : Span) : Text × Text :=
  match span.style with
  | .bold => ("**".toList, "**".toList)
  | .italic => ("*".toList, "*".toList)
  | .strikethrough => ("~".toList, "~".toList)
  | .spoiler => ("||".toList, "||".toList)
  | .monospace =>
    let fenceLength := max 1 (maxBacktickRun content + 1)
    if span.block ∨ '\n' ∈ content then
      let fence := replicate (max 3 fenceLength) '\x60'
      (fence ++ ['\n'], '\n' :: fence)
    else (replicate fenceLength '\x60', replicate fenceLength '\x60')

def isMonospaceIndex : Bool :=
  spans.any fun span => span.style == .monospace && span.covers index

def escapeSignalPlainText (c : Char) (inMonospace : Bool) : Text :=
  if inMonospace then [c] else if "*~|\x60".toList.contains c then ['\\', c] else [c]

abbrev Entry : Type := Span × Nat

/-- A character with its index, or a bracket's marker. -/
inductive Piece where
  | char (c : Char) (index : Nat)
  | marker (bracket : Delimiter Entry)

def Piece.marker? : Piece → Option (Delimiter Entry)
  | .char _ _ => none
  | .marker bracket => some bracket

def entriesAt (border : Span → Nat) (index : Nat) : List Entry :=
  spans.zipIdx.filter fun entry => entry.1.start < entry.1.stop && border entry.1 = index

def closedAt : List (Delimiter Entry) :=
  (SortByKey.sortBy (fun entry : Entry => OrderDual.toDual entry.1.style.priority)
    (entriesAt spans Span.stop index)).map .closed

def openedAt : List (Delimiter Entry) :=
  (SortByKey.sortBy (fun entry : Entry => entry.1.style.priority)
    (entriesAt spans Span.start index)).map .opened

def pieces : List Piece :=
  if text = [] then []
  else
    (text.zipIdx.flatMap fun (c, index) =>
      (closedAt spans index ++ openedAt spans index).map .marker ++ [.char c index]) ++
        (closedAt spans text.length).map .marker

def Piece.render : Piece → Text
  | .char c index => escapeSignalPlainText c (isMonospaceIndex spans index)
  | .marker (.opened (span, _)) =>
    (markersForSpan ((text.take span.stop).drop span.start) span).1
  | .marker (.closed (span, _)) =>
    (markersForSpan ((text.take span.stop).drop span.start) span).2

def renderSignalMarkdown : Text :=
  (pieces text spans).flatMap (Piece.render text spans)

def signalMarkers : List (Delimiter Entry) :=
  (pieces text spans).filterMap Piece.marker?

/-- A marker comes before another. -/
def Before : Delimiter Entry → Delimiter Entry → Prop
  | .opened (a, i), .opened (b, j) => a.start < b.start ∨ (a.start = b.start ∧
      (a.style.priority < b.style.priority ∨ (a.style.priority = b.style.priority ∧ i < j)))
  | .opened (a, _), .closed (b, _) => a.start < b.stop
  | .closed (a, _), .opened (b, _) => a.stop ≤ b.start
  | .closed (a, i), .closed (b, j) => a.stop < b.stop ∨ (a.stop = b.stop ∧
      (b.style.priority < a.style.priority ∨ (a.style.priority = b.style.priority ∧ i < j)))

variable {text : Text} {spans : List Span} {entry : Entry} {index : Nat}

theorem before_asymm (a b : Delimiter Entry) (h : Before a b) : ¬ Before b a := by
  cases a with
  | opened i => cases b with
    | opened j | closed j => simp only [Before] at h ⊢; omega
  | closed i => cases b with
    | opened j | closed j => simp only [Before] at h ⊢; omega

theorem zipIdx_pairwise (spans : List Span) : spans.zipIdx.Pairwise fun a b => a.2 < b.2 := by
  have hsnd : (spans.zipIdx.map Prod.snd).Pairwise (· < ·) := by
    rw [zipIdx_map_snd]
    exact pairwise_lt_range'
  exact pairwise_map.mp hsnd

theorem mem_entriesAt {border : Span → Nat} : entry ∈ entriesAt spans border index ↔
    entry ∈ spans.zipIdx ∧ entry.1.start < entry.1.stop ∧ border entry.1 = index := by
  simp [entriesAt]

theorem entriesAt_pairwise (spans : List Span) (border : Span → Nat) (index : Nat) :
    (entriesAt spans border index).Pairwise fun a b => a.2 < b.2 :=
  (zipIdx_pairwise spans).filter _

variable {b : Delimiter Entry}

theorem mem_closedAt : b ∈ closedAt spans index ↔ ∃ entry,
    b = .closed entry ∧ entry ∈ spans.zipIdx ∧ entry.1.start < entry.1.stop ∧
      entry.1.stop = index := by
  simp only [closedAt, mem_map, SortByKey.mem_sortBy, mem_entriesAt]
  constructor
  · rintro ⟨entry, hentry, rfl⟩
    exact ⟨entry, rfl, hentry⟩
  · rintro ⟨entry, rfl, hentry⟩
    exact ⟨entry, hentry, rfl⟩

theorem mem_openedAt : b ∈ openedAt spans index ↔ ∃ entry,
    b = .opened entry ∧ entry ∈ spans.zipIdx ∧ entry.1.start < entry.1.stop ∧
      entry.1.start = index := by
  simp only [openedAt, mem_map, SortByKey.mem_sortBy, mem_entriesAt]
  constructor
  · rintro ⟨entry, hentry, rfl⟩
    exact ⟨entry, rfl, hentry⟩
  · rintro ⟨entry, rfl, hentry⟩
    exact ⟨entry, hentry, rfl⟩

theorem markersAt_pairwise (spans : List Span) (index : Nat) :
    (closedAt spans index ++ openedAt spans index).Pairwise Before := by
  refine pairwise_append.mpr ⟨?_, ?_, ?_⟩
  · refine pairwise_map.mpr ?_
    refine (SortByKey.sortBy_stable (entriesAt_pairwise spans Span.stop index)).imp_of_mem ?_
    intro a b ha hb h
    have hstop := (mem_entriesAt.mp ((SortByKey.mem_sortBy _).mp ha)).2.2
    have hstop' := (mem_entriesAt.mp ((SortByKey.mem_sortBy _).mp hb)).2.2
    refine .inr ⟨hstop.trans hstop'.symm, ?_⟩
    obtain hlt | ⟨heq, hlist⟩ := h
    · exact .inl hlt
    · exact .inr ⟨OrderDual.toDual.injective heq, hlist⟩
  · refine pairwise_map.mpr ?_
    refine (SortByKey.sortBy_stable (entriesAt_pairwise spans Span.start index)).imp_of_mem ?_
    intro a b ha hb h
    have hstart := (mem_entriesAt.mp ((SortByKey.mem_sortBy _).mp ha)).2.2
    have hstart' := (mem_entriesAt.mp ((SortByKey.mem_sortBy _).mp hb)).2.2
    exact .inr ⟨hstart.trans hstart'.symm, h⟩
  · intro a ha b hb
    obtain ⟨entry, rfl, -, -, hstop⟩ := mem_closedAt.mp ha
    obtain ⟨entry', rfl, -, -, hstart⟩ := mem_openedAt.mp hb
    exact Nat.le_of_eq (hstop.trans hstart.symm)

theorem markersAt_before {i j : Nat} (h : i < j) : ∀ a ∈ closedAt spans i ++ openedAt spans i,
    ∀ b ∈ closedAt spans j ++ openedAt spans j, Before a b := by
  intro a ha b hb
  obtain ha | ha := mem_append.mp ha
  · obtain ⟨entry, rfl, -, -, hfirst⟩ := mem_closedAt.mp ha
    obtain hb | hb := mem_append.mp hb
    · obtain ⟨entry', rfl, -, -, hsecond⟩ := mem_closedAt.mp hb
      simp only [Before]
      omega
    · obtain ⟨entry', rfl, -, -, hsecond⟩ := mem_openedAt.mp hb
      simp only [Before]
      omega
  · obtain ⟨entry, rfl, -, -, hfirst⟩ := mem_openedAt.mp ha
    obtain hb | hb := mem_append.mp hb
    · obtain ⟨entry', rfl, -, -, hsecond⟩ := mem_closedAt.mp hb
      simp only [Before]
      omega
    · obtain ⟨entry', rfl, -, -, hsecond⟩ := mem_openedAt.mp hb
      simp only [Before]
      omega

section

variable (h : Inside ⟨text, spans⟩)
include h

theorem openedAt_length : openedAt spans text.length = [] := by
  rw [eq_nil_iff_forall_not_mem]
  intro b hb
  obtain ⟨entry, -, hmem, hlt, hstart⟩ := mem_openedAt.mp hb
  have hbounds := h entry.1 (fst_mem_of_mem_zipIdx hmem)
  dsimp only at hbounds
  omega

theorem signalMarkers_eq : signalMarkers text spans =
    (range (text.length + 1)).flatMap fun index =>
      closedAt spans index ++ openedAt spans index := by
  have hmarkers (index : Nat) : ((closedAt spans index ++ openedAt spans index).map
      Piece.marker).filterMap Piece.marker? = closedAt spans index ++ openedAt spans index := by
    rw [filterMap_map]
    exact filterMap_some
  have hclosed : ((closedAt spans text.length).map Piece.marker).filterMap Piece.marker? =
      closedAt spans text.length := by
    rw [filterMap_map]
    exact filterMap_some
  have hrange : range text.length = text.zipIdx.map Prod.snd := by
    rw [zipIdx_map_snd, range_eq_range']
  rw [range_succ, flatMap_append, flatMap_singleton, openedAt_length h, append_nil, hrange,
    flatMap_map]
  unfold signalMarkers pieces
  split
  · rename_i hnil
    subst hnil
    have hnone : closedAt spans ([] : Text).length = [] := by
      rw [eq_nil_iff_forall_not_mem]
      intro b hb
      obtain ⟨entry, -, -, hlt, hstop⟩ := mem_closedAt.mp hb
      rw [length_nil] at hstop
      omega
    rw [hnone]
    rfl
  · rw [filterMap_append, hclosed, filterMap_flatMap]
    congr 1
    apply flatMap_congr
    rintro ⟨c, index⟩ -
    rw [filterMap_append, hmarkers]
    exact append_nil _

theorem closed_mem_signalMarkers_iff :
    .closed entry ∈ signalMarkers text spans ↔ entry ∈ spans.zipIdx := by
  rw [signalMarkers_eq h, mem_flatMap]
  constructor
  · rintro ⟨index, -, hmem⟩
    obtain hmem | hmem := mem_append.mp hmem
    · obtain ⟨entry', heq, hmem, -⟩ := mem_closedAt.mp hmem
      obtain rfl := Delimiter.closed.inj heq
      exact hmem
    · obtain ⟨entry', heq, -⟩ := mem_openedAt.mp hmem
      cases heq
  · intro hmem
    have hbounds := h entry.1 (fst_mem_of_mem_zipIdx hmem)
    dsimp only at hbounds
    exact ⟨entry.1.stop, mem_range.mpr (by omega),
      mem_append_left _ (mem_closedAt.mpr ⟨entry, rfl, hmem, hbounds.1, rfl⟩)⟩

theorem opened_mem_signalMarkers_iff :
    .opened entry ∈ signalMarkers text spans ↔ entry ∈ spans.zipIdx := by
  rw [signalMarkers_eq h, mem_flatMap]
  constructor
  · rintro ⟨index, -, hmem⟩
    obtain hmem | hmem := mem_append.mp hmem
    · obtain ⟨entry', heq, -⟩ := mem_closedAt.mp hmem
      cases heq
    · obtain ⟨entry', heq, hmem, -⟩ := mem_openedAt.mp hmem
      obtain rfl := Delimiter.opened.inj heq
      exact hmem
  · intro hmem
    have hbounds := h entry.1 (fst_mem_of_mem_zipIdx hmem)
    dsimp only at hbounds
    exact ⟨entry.1.start, mem_range.mpr (by omega),
      mem_append_right _ (mem_openedAt.mpr ⟨entry, rfl, hmem, hbounds.1, rfl⟩)⟩

theorem signalMarkers_ordered :
    Ordered Before (signalMarkers text spans) := by
  refine ⟨?_, before_asymm, ?_, ?_⟩
  · rw [signalMarkers_eq h]
    refine pairwise_flatMap.mpr ⟨fun index _ => markersAt_pairwise spans index, ?_⟩
    exact pairwise_lt_range.imp fun hlt => markersAt_before hlt
  · intro entry
    rw [opened_mem_signalMarkers_iff h, closed_mem_signalMarkers_iff h]
  · intro entry hopened
    have hmem := (opened_mem_signalMarkers_iff h).mp hopened
    exact (h entry.1 (fst_mem_of_mem_zipIdx hmem)).1

end

/-- Two spans, the first before the second in the list, can be marked: they are apart, or one opens
first and closes last. -/
def Fits (a b : Span) : Prop :=
  a.stop ≤ b.start ∨ b.stop ≤ a.start ∨
    ((a.start < b.start ∨ (a.start = b.start ∧ a.style.priority ≤ b.style.priority)) ∧
      (b.stop < a.stop ∨ (b.stop = a.stop ∧ a.style.priority < b.style.priority))) ∨
    ((b.start < a.start ∨ (b.start = a.start ∧ b.style.priority < a.style.priority)) ∧
      (a.stop < b.stop ∨ (a.stop = b.stop ∧ b.style.priority ≤ a.style.priority)))

theorem fits_iff {a b : Entry} (ha : a.1.start < a.1.stop) (hb : b.1.start < b.1.stop)
    (h : a.2 < b.2) : Fits a.1 b.1 ↔ ¬ Crossing Before a b ∧ ¬ Crossing Before b a := by
  simp only [Fits, Crossing, Before]
  omega

theorem pairwise_iff_of_increasing {α : Type} {key : α → Nat} {R : α → α → Prop} {l : List α}
    (h : l.Pairwise fun a b => key a < key b) :
    l.Pairwise R ↔ ∀ a ∈ l, ∀ b ∈ l, key a < key b → R a b := by
  induction l with
  | nil => simp
  | cons a l ih =>
    obtain ⟨hfirst, hrest⟩ := pairwise_cons.mp h
    rw [pairwise_cons, ih hrest]
    constructor
    · rintro ⟨hhead, htail⟩ b hb c hc hlt
      obtain rfl | hb' := mem_cons.mp hb
      · obtain rfl | hc' := mem_cons.mp hc
        · exact absurd hlt (Nat.lt_irrefl _)
        · exact hhead c hc'
      · obtain rfl | hc' := mem_cons.mp hc
        · have hback := hfirst b hb'
          omega
        · exact htail b hb' c hc' hlt
    · intro hall
      constructor
      · intro b hb
        exact hall a mem_cons_self b (mem_cons_of_mem _ hb) (hfirst b hb)
      · intro b hb c hc
        exact hall b (mem_cons_of_mem _ hb) c (mem_cons_of_mem _ hc)

theorem signalMarkers_nested_iff (h : Inside ⟨text, spans⟩) :
    Nested (signalMarkers text spans) ↔ spans.Pairwise Fits := by
  have hlist : spans.Pairwise Fits ↔ spans.zipIdx.Pairwise fun a b => Fits a.1 b.1 := by
    conv_lhs => rw [← zipIdx_map_fst 0 spans]
    exact pairwise_map
  have hbounds : ∀ entry ∈ spans.zipIdx, entry.1.start < entry.1.stop :=
    fun entry hentry => (h entry.1 (fst_mem_of_mem_zipIdx hentry)).1
  rw [(signalMarkers_ordered h).nested_iff, hlist,
    pairwise_iff_of_increasing (zipIdx_pairwise spans)]
  simp only [opened_mem_signalMarkers_iff h]
  constructor
  · intro hcross a ha b hb hlt
    exact (fits_iff (hbounds a ha) (hbounds b hb) hlt).mpr ⟨hcross a b ha hb, hcross b a hb ha⟩
  · intro hfits a b ha hb
    obtain hlt | heq | hgt := Nat.lt_trichotomy a.2 b.2
    · exact ((fits_iff (hbounds a ha) (hbounds b hb) hlt).mp (hfits a ha b hb hlt)).1
    · have hfst : a.1 = b.1 := by
        have hget := mem_zipIdx_iff_getElem?.mp ha
        rw [heq, mem_zipIdx_iff_getElem?.mp hb] at hget
        exact (Option.some.inj hget).symm
      obtain rfl : a = b := Prod.ext hfst heq
      rintro ⟨hself, -⟩
      exact before_asymm _ _ hself hself
    · exact ((fits_iff (hbounds b hb) (hbounds a ha) hgt).mp (hfits b hb a ha hgt)).2

theorem keptEnd_le (r : Rendered) (start stop : Nat) : r.keptEnd start stop ≤ stop := by
  induction stop with
  | zero => exact Nat.le_refl 0
  | succ stop ih =>
    unfold Rendered.keptEnd
    split
    · exact Nat.le_succ_of_le ih
    · exact Nat.le_refl _

variable {r : Rendered}

theorem sliceRendered_inside {start stop : Nat} (h : stop ≤ r.text.length) :
    Inside (sliceRendered r start stop) := by
  intro span hspan
  have hkept := keptEnd_le r start stop
  obtain ⟨whole, -, hlt, rfl⟩ := mem_slice_iff.mp hspan
  simp only [sliceRendered, length_drop, length_take]
  omega

variable {chunks : List (Nat × Rendered)}

theorem chunksFrom_inside {max fuel start : Nat}
    (h : chunksFrom r max fuel start = some chunks) : ∀ chunk ∈ chunks, Inside chunk.2 := by
  induction fuel generalizing start chunks with
  | zero => cases h
  | succ fuel ih =>
    unfold chunksFrom at h
    split at h
    · cases h
      simp
    · split at h
      · cases h
        simpa using sliceRendered_inside (Nat.le_refl _)
      · rename_i hlong
        obtain ⟨rest, hrest, rfl⟩ := Option.map_eq_some_iff.mp h
        exact forall_mem_cons.mpr
          ⟨sliceRendered_inside (cutAt_le r (Nat.lt_of_not_le hlong)), ih hrest⟩

theorem chunkRenderedText_inside {max : Nat} (hr : Inside r)
    (h : chunkRenderedText r max = some chunks) :
    ∀ chunk ∈ chunks, Inside chunk.2 := by
  unfold chunkRenderedText at h
  split at h
  · cases h
    simpa using hr
  · exact chunksFrom_inside h

variable {chunk : Nat × Rendered}

/-- The markers of a chunk of rendered text are nested exactly if every two of its spans fit. -/
theorem chunk_markers_nested_iff (u : CharacterData) (content : Text) (max : Nat)
    (h : chunkRenderedText (renderBlocks u content) max = some chunks) (hchunk : chunk ∈ chunks) :
    Nested (signalMarkers chunk.2.text chunk.2.spans) ↔ chunk.2.spans.Pairwise Fits :=
  signalMarkers_nested_iff (chunkRenderedText_inside (renderBlocks_inside u content) h chunk hchunk)

def ascii : CharacterData := ⟨Char.isAlphanum, Char.isDigit, Char.isDigit⟩

def boldAtEnd : Rendered :=
  ⟨"a b".toList, [⟨2, 3, .bold, false⟩, ⟨0, 3, .italic, false⟩]⟩

theorem renderBlocks_boldAtEnd : renderBlocks ascii "_a **b**_".toList = boldAtEnd := by
  decide +kernel

theorem chunks_boldAtEnd :
    chunkRenderedText (renderBlocks ascii "_a **b**_".toList) 10 = some [(0, boldAtEnd)] := by
  rw [renderBlocks_boldAtEnd]
  rfl

theorem boldAtEnd_nested_iff :
    Nested (signalMarkers boldAtEnd.text boldAtEnd.spans) ↔ boldAtEnd.spans.Pairwise Fits :=
  chunk_markers_nested_iff ascii "_a **b**_".toList 10 chunks_boldAtEnd mem_cons_self

theorem boldAtEnd_not_nested :
    ¬ ∀ chunks, chunkRenderedText (renderBlocks ascii "_a **b**_".toList) 10 = some chunks →
      ∀ chunk ∈ chunks, Nested (signalMarkers chunk.2.text chunk.2.spans) := by
  intro hall
  have hnested := hall [(0, boldAtEnd)] chunks_boldAtEnd (0, boldAtEnd) mem_cons_self
  revert hnested
  decide +kernel

section

def isMarkerChar (c : Char) : Bool := "*~|\x60".toList.contains c

/-- What is read of a Markdown text: a backslash keeps the marker character behind it, and any
other marker character goes. -/
def readMarkdown : Text → Text
  | [] => []
  | [c] => if isMarkerChar c then [] else [c]
  | c :: d :: rest =>
    if c = '\\' ∧ isMarkerChar d then d :: readMarkdown rest
    else if isMarkerChar c then readMarkdown (d :: rest)
    else c :: readMarkdown (d :: rest)

variable (text : Text) (spans : List Span) (index : Nat)

def markersAt : Text :=
  (closedAt spans index ++ openedAt spans index).flatMap fun bracket =>
    Piece.render text spans (.marker bracket)

/-- The characters, with their markers before each and after the last. -/
def marked (markers : Nat → Text) (index : Nat) : Text → Text
  | [] => markers index
  | c :: rest => markers index ++ (escapeSignalPlainText c false ++ marked markers (index + 1) rest)

variable {text : Text} {spans : List Span} {index : Nat} {markers : Nat → Text} {c : Char}
  {lead rest : Text}

theorem isMarkerChar_ne (h : isMarkerChar c) : c ≠ '\\' := by
  rintro rfl
  cases h

theorem readMarkdown_marker (h : isMarkerChar c) :
    readMarkdown (c :: rest) = readMarkdown rest := by
  cases rest with
  | nil => simp [readMarkdown, h]
  | cons => simp [readMarkdown, h, isMarkerChar_ne h]

theorem readMarkdown_markers (h : ∀ c ∈ lead, isMarkerChar c) :
    readMarkdown (lead ++ rest) = readMarkdown rest := by
  induction lead with
  | nil => rfl
  | cons c lead ih =>
    rw [cons_append, readMarkdown_marker (h c mem_cons_self)]
    exact ih fun d hd => h d (mem_cons_of_mem c hd)

theorem readMarkdown_plain (h : isMarkerChar c = false)
    (hplain : c = '\\' → ∀ d ∈ rest.head?, isMarkerChar d = false) :
    readMarkdown (c :: rest) = c :: readMarkdown rest := by
  cases rest with
  | nil => simp [readMarkdown, h]
  | cons d =>
    have hnot : ¬ (c = '\\' ∧ isMarkerChar d) := by
      rintro ⟨hc, hd⟩
      rw [hplain hc d rfl] at hd
      cases hd
    rw [readMarkdown, if_neg hnot, h, if_neg Bool.false_ne_true]

theorem readMarkdown_escape (hplain : c = '\\' → ∀ d ∈ rest.head?, isMarkerChar d = false) :
    readMarkdown (escapeSignalPlainText c false ++ rest) = c :: readMarkdown rest := by
  cases hc : isMarkerChar c with
  | true =>
    have hescape : escapeSignalPlainText c false = ['\\', c] := if_pos hc
    rw [hescape]
    simp [readMarkdown, hc]
  | false =>
    have hescape : escapeSignalPlainText c false = [c] :=
      if_neg (Bool.eq_false_iff.mp hc)
    rw [hescape, singleton_append, readMarkdown_plain hc hplain]

theorem head_marked (h : markers index = []) : ∀ d ∈ (marked markers index rest).head?,
    isMarkerChar d = false := by
  intro d hd
  cases rest with
  | nil =>
    rw [marked, h] at hd
    cases hd
  | cons c =>
    rw [marked, h, nil_append] at hd
    cases hc : isMarkerChar c with
    | true =>
      have hescape : escapeSignalPlainText c false = ['\\', c] := if_pos hc
      rw [hescape] at hd
      cases hd
      rfl
    | false =>
      have hescape : escapeSignalPlainText c false = [c] := if_neg (Bool.eq_false_iff.mp hc)
      rw [hescape] at hd
      cases hd
      exact hc

theorem exists_marked_eq (markers : Nat → Text) (index : Nat) (rest : Text) :
    ∃ more, marked markers index rest = markers index ++ more := by
  cases rest with
  | nil => exact ⟨[], (append_nil _).symm⟩
  | cons => exact ⟨_, rfl⟩

theorem readMarkdown_marked_iff (h : ∀ i, ∀ c ∈ markers i, isMarkerChar c) :
    readMarkdown (marked markers index text) = text ↔
      ∀ i, text[i]? = some '\\' → markers (index + i + 1) = [] := by
  induction text generalizing index with
  | nil =>
    have hnone : readMarkdown (markers index ++ []) = readMarkdown [] :=
      readMarkdown_markers (h index)
    rw [append_nil] at hnone
    simp [marked, hnone, readMarkdown]
  | cons c rest ih =>
    rw [marked, readMarkdown_markers (h index)]
    have hsplit : (∀ i, (c :: rest)[i]? = some '\\' → markers (index + i + 1) = []) ↔
        (c = '\\' → markers (index + 1) = []) ∧
          ∀ i, rest[i]? = some '\\' → markers (index + 1 + i + 1) = [] := by
      constructor
      · intro hall
        refine ⟨fun hc => hall 0 (by rw [hc]; rfl), ?_⟩
        intro i hi
        have hnext := hall (i + 1) hi
        rwa [← Nat.add_assoc, Nat.add_right_comm index i 1] at hnext
      · rintro ⟨hfirst, hrest⟩ i hi
        cases i with
        | zero => exact hfirst (Option.some.inj hi)
        | succ i =>
          rw [← Nat.add_assoc, Nat.add_right_comm index i 1]
          exact hrest i hi
    rw [hsplit, ← ih]
    by_cases hborder : c = '\\' → markers (index + 1) = []
    · rw [readMarkdown_escape fun hc => head_marked (hborder hc), cons_inj_right,
        and_iff_right hborder]
    · -- The backslash escapes the first character of the marker behind it.
      refine iff_of_false ?_ fun hboth => hborder hboth.1
      obtain ⟨rfl, hne⟩ := Classical.not_imp.mp hborder
      obtain ⟨more, hmore⟩ := exists_marked_eq markers (index + 1) rest
      obtain ⟨d, tail, htail⟩ := exists_cons_of_ne_nil hne
      have hd : isMarkerChar d := h (index + 1) d (by rw [htail]; exact mem_cons_self)
      have hescape : escapeSignalPlainText '\\' false = ['\\'] := rfl
      rw [hmore, htail, hescape]
      intro hread
      rw [singleton_append, cons_append, readMarkdown, if_pos ⟨rfl, hd⟩] at hread
      exact isMarkerChar_ne hd (head_eq_of_cons_eq hread)

end

section

variable {text : Text} {spans : List Span} {index : Nat}

theorem isMonospaceIndex_eq (h : ∀ span ∈ spans, span.style ≠ .monospace) :
    isMonospaceIndex spans index = false := by
  refine any_eq_false.mpr ?_
  intro span hspan
  simp [h span hspan]

theorem renderSignalMarkdown_eq (h : Inside ⟨text, spans⟩)
    (hstyles : ∀ span ∈ spans, span.style ≠ .monospace) (hne : text ≠ []) :
    renderSignalMarkdown text spans = marked (markersAt text spans) 0 text := by
  have hmarked (rest : Text) (n : Nat) (hn : n + rest.length = text.length) :
      ((rest.zipIdx n).flatMap fun (c, index) =>
        (closedAt spans index ++ openedAt spans index).map .marker ++ [.char c index]).flatMap
          (Piece.render text spans) ++ markersAt text spans text.length =
        marked (markersAt text spans) n rest := by
    induction rest generalizing n with
    | nil =>
      obtain rfl : n = text.length := hn
      rfl
    | cons c rest ih =>
      rw [length_cons] at hn
      rw [zipIdx_cons, flatMap_cons, flatMap_append, append_assoc, ih (n + 1) (by omega),
        flatMap_append, flatMap_map, flatMap_singleton, append_assoc, marked]
      congr 2
      rw [Piece.render, isMonospaceIndex_eq hstyles]
  unfold renderSignalMarkdown pieces
  rw [if_neg hne, flatMap_append, ← hmarked text 0 (Nat.zero_add _), markersAt, openedAt_length h,
    append_nil,
    flatMap_map]

def IsMarker (marker : Text) : Prop := marker ≠ [] ∧ ∀ c ∈ marker, isMarkerChar c

theorem markersForSpan_isMarker (content : Text) {span : Span} (h : span.style ≠ .monospace) :
    IsMarker (markersForSpan content span).1 ∧ IsMarker (markersForSpan content span).2 := by
  unfold markersForSpan
  cases hstyle : span.style with
  | bold | italic | strikethrough | spoiler => simp [IsMarker, isMarkerChar]
  | monospace => exact absurd hstyle h

theorem render_isMarker (hstyles : ∀ span ∈ spans, span.style ≠ .monospace)
    (hb : b ∈ closedAt spans index ++ openedAt spans index) :
    IsMarker (Piece.render text spans (.marker b)) := by
  obtain hclosed | hopened := mem_append.mp hb
  · obtain ⟨entry, rfl, hmem, -⟩ := mem_closedAt.mp hclosed
    exact (markersForSpan_isMarker _ (hstyles entry.1 (fst_mem_of_mem_zipIdx hmem))).2
  · obtain ⟨entry, rfl, hmem, -⟩ := mem_openedAt.mp hopened
    exact (markersForSpan_isMarker _ (hstyles entry.1 (fst_mem_of_mem_zipIdx hmem))).1

theorem markersAt_eq_nil_iff (h : Inside ⟨text, spans⟩)
    (hstyles : ∀ span ∈ spans, span.style ≠ .monospace) : markersAt text spans index = [] ↔
      ∀ span ∈ spans, span.start ≠ index ∧ span.stop ≠ index := by
  unfold markersAt
  rw [flatMap_eq_nil_iff]
  constructor
  · intro hnone span hspan
    obtain ⟨i, hget⟩ := getElem?_of_mem hspan
    have hi : (span, i) ∈ spans.zipIdx := mem_zipIdx_iff_getElem?.mpr hget
    have hlt := (h span hspan).1
    constructor
    · intro hstart
      have hmem := mem_append_right (closedAt spans index)
        (mem_openedAt.mpr ⟨(span, i), rfl, hi, hlt, hstart⟩)
      exact (render_isMarker hstyles hmem).1 (hnone _ hmem)
    · intro hstop
      have hmem := mem_append_left (openedAt spans index)
        (mem_closedAt.mpr ⟨(span, i), rfl, hi, hlt, hstop⟩)
      exact (render_isMarker hstyles hmem).1 (hnone _ hmem)
  · intro hno b hb
    obtain hclosed | hopened := mem_append.mp hb
    · obtain ⟨entry, -, hmem, -, hstop⟩ := mem_closedAt.mp hclosed
      exact absurd hstop (hno entry.1 (fst_mem_of_mem_zipIdx hmem)).2
    · obtain ⟨entry, -, hmem, -, hstart⟩ := mem_openedAt.mp hopened
      exact absurd hstart (hno entry.1 (fst_mem_of_mem_zipIdx hmem)).1

/-- The Markdown of a chunk without monospace reads as its text exactly if no style begins or ends
right behind a backslash of the text. -/
theorem renderSignalMarkdown_reads_back_iff (u : CharacterData) (content : Text) (max : Nat)
    (h : chunkRenderedText (renderBlocks u content) max = some chunks) (hchunk : chunk ∈ chunks)
    (hstyles : ∀ span ∈ chunk.2.spans, span.style ≠ .monospace) :
    readMarkdown (renderSignalMarkdown chunk.2.text chunk.2.spans) = chunk.2.text ↔
      ∀ index, chunk.2.text[index]? = some '\\' →
        ∀ span ∈ chunk.2.spans, span.start ≠ index + 1 ∧ span.stop ≠ index + 1 := by
  obtain ⟨n, text, spans⟩ := chunk
  have hinside := chunkRenderedText_inside (renderBlocks_inside u content) h _ hchunk
  by_cases hnil : text = []
  · subst hnil
    simp [renderSignalMarkdown, pieces, readMarkdown]
  · have hmarkers : ∀ index, ∀ c ∈ markersAt text spans index, isMarkerChar c := by
      intro index c hc
      obtain ⟨b, hb, hmem⟩ := mem_flatMap.mp hc
      exact (render_isMarker hstyles hb).2 c hmem
    rw [renderSignalMarkdown_eq hinside hstyles hnil, readMarkdown_marked_iff hmarkers]
    simp only [Nat.zero_add, markersAt_eq_nil_iff hinside hstyles]

def boldBehindBackslash : Rendered := ⟨"\\ b".toList, [⟨2, 3, .bold, false⟩]⟩

theorem boldBehindBackslash_reads_back :
    readMarkdown (renderSignalMarkdown boldBehindBackslash.text boldBehindBackslash.spans) =
      boldBehindBackslash.text := by
  have hchunks : chunkRenderedText (renderBlocks ascii "\\\\ **b**".toList) 10 =
      some [(0, boldBehindBackslash)] := by
    have hrendered : renderBlocks ascii "\\\\ **b**".toList = boldBehindBackslash := by
      decide +kernel
    rw [hrendered]
    rfl
  refine (renderSignalMarkdown_reads_back_iff ascii _ 10 hchunks mem_cons_self (by decide)).mpr ?_
  intro index hindex
  match index with
  | 0 => decide
  | 1 | 2 => exact absurd hindex (by decide)
  | index + 3 => cases hindex

example : readMarkdown (renderSignalMarkdown "\\b".toList [⟨1, 2, .italic, false⟩]) =
    "*b".toList := by
  decide

end

end Cognis.SignalFormatting
