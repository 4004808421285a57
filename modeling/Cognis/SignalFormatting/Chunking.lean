import Cognis.Library.PythonText

namespace Cognis.SignalFormatting

open List Option PythonText

inductive Style where
  | bold
  | italic
  | strikethrough
  | monospace
  | spoiler
  deriving DecidableEq

/-- The characters from `start` to before `stop`. -/
structure Span where
  start : Nat
  stop : Nat
  style : Style
  block : Bool := false
  deriving DecidableEq

structure Rendered where
  text : Text
  spans : List Span
  deriving DecidableEq

def Span.covers (span : Span) (i : Nat) : Bool := span.start ≤ i && i < span.stop

variable (text : Text) (r : Rendered)

def isSpaceAt (i : Nat) : Bool := text[i]?.any isSpace

/-- `text.rfind(pattern, 0, stop)` of a text that goes on to `stop` at least. -/
def rfind (pattern : Text) (stop : Nat) : Option Nat :=
  (range (stop + 1 - pattern.length)).reverse.find? fun i => pattern.isPrefixOf (text.drop i)

/-- The place after the last `pattern` before `max`, if it starts at `least` or later. -/
def lastBreak (max least : Nat) (pattern : String) : Option Nat :=
  ((rfind text pattern.toList max).filter (least ≤ ·)).map (· + pattern.toList.length)

def findSplitPoint (max : Nat) : Nat :=
  let paragraph := lastBreak text max (max / 6) "\n\n"
  let line := lastBreak text max (max / 6) "\n"
  let sentence := [". ", "! ", "? "].findSome? (lastBreak text max (max / 4 + 1))
  let word := lastBreak text max (max / 4 + 1) " "
  (((paragraph.or line).or sentence).or word).getD max

def adjustSplitForSpans (spans : List Span) (chunkStart splitAt textLength max : Nat) : Nat :=
  let containing := spans.filter fun span => span.start < splitAt && splitAt < span.stop
  let safeBefore := ((containing.map Span.start).filter (chunkStart < ·)).max?
  let safeAfter := ((containing.map Span.stop).filter (· < chunkStart + max)).min?
  match safeBefore.filter fun before => max / 4 ≤ before - chunkStart with
  | some before => before
  | none => (safeAfter.filter (· < textLength)).getD splitAt

def Rendered.keptEnd (r : Rendered) (start : Nat) : Nat → Nat
  | 0 => 0
  | stop + 1 =>
    if start ≤ stop ∧ isSpaceAt r.text stop ∧ ¬ r.spans.any (·.covers stop) then
      r.keptEnd start stop
    else stop + 1

def Span.slice (span : Span) (start stop : Nat) : Option Span :=
  let overlapStart := max span.start start
  let overlapStop := min span.stop stop
  if overlapStop ≤ overlapStart then none
  else some { span with start := overlapStart - start, stop := overlapStop - start }

def sliceRendered (start stop : Nat) : Rendered :=
  let stop := r.keptEnd start stop
  { text := (r.text.take stop).drop start
    spans := r.spans.filterMap (·.slice start stop) }

/-- Where the chunk from `start` ends. -/
def Rendered.cutAt (max start : Nat) : Nat :=
  let splitAt := start + findSplitPoint (r.text.drop start) max
  let split := adjustSplitForSpans r.spans start splitAt r.text.length max
  if split ≤ start then min (start + max) r.text.length else split

def skipSpace (start : Nat) : Nat :=
  start + ((text.drop start).takeWhile isSpace).length

def chunksFrom (r : Rendered) (max : Nat) : Nat → Nat → Option (List (Nat × Rendered))
  | 0, _ => none
  | fuel + 1, start =>
    if r.text.length ≤ start then some []
    else if r.text.length - start ≤ max then some [(start, sliceRendered r start r.text.length)]
    else
      let cut := r.cutAt max start
      (chunksFrom r max fuel (skipSpace r.text cut)).map ((start, sliceRendered r start cut) :: ·)

def chunkRenderedText (max : Nat) : Option (List (Nat × Rendered)) :=
  if r.text.length ≤ max then some [(0, r)] else chunksFrom r max (r.text.length + 1) 0

section

variable {text : Text} {max least start stop i : Nat} {pattern : String} {r : Rendered}

theorem lastBreak_bounds (h : lastBreak text max least pattern = some i)
    (hpattern : 0 < pattern.toList.length) : 0 < i ∧ i ≤ max := by
  obtain ⟨at', hfilter, rfl⟩ := map_eq_some_iff.mp h
  obtain ⟨hfind, -⟩ := filter_eq_some_iff.mp hfilter
  have hmem := mem_of_find?_eq_some hfind
  rw [mem_reverse, mem_range] at hmem
  omega

theorem findSplitPoint_bounds (text : Text) (hmax : 1 ≤ max) :
    0 < findSplitPoint text max ∧ findSplitPoint text max ≤ max := by
  unfold findSplitPoint
  dsimp only
  cases hbreak : (((lastBreak text max (max / 6) "\n\n").or (lastBreak text max (max / 6) "\n")).or
      ([". ", "! ", "? "].findSome? (lastBreak text max (max / 4 + 1)))).or
      (lastBreak text max (max / 4 + 1) " ") with
  | none => exact ⟨hmax, Nat.le_refl _⟩
  | some i =>
    have hof : ∃ least pattern, 0 < pattern.toList.length ∧
        lastBreak text max least pattern = some i := by
      obtain h | ⟨-, hword⟩ := or_eq_some_iff.mp hbreak
      · obtain h | ⟨-, hsentence⟩ := or_eq_some_iff.mp h
        · obtain hparagraph | ⟨-, hline⟩ := or_eq_some_iff.mp h
          · exact ⟨_, _, by decide, hparagraph⟩
          · exact ⟨_, _, by decide, hline⟩
        · obtain ⟨pattern, hpattern, hfound⟩ := exists_of_findSome?_eq_some hsentence
          have hlength : ∀ pattern ∈ [". ", "! ", "? "], 0 < pattern.toList.length := by decide
          exact ⟨_, pattern, hlength pattern hpattern, hfound⟩
      · exact ⟨_, _, by decide, hword⟩
    obtain ⟨least, pattern, hpattern, hfound⟩ := hof
    exact lastBreak_bounds hfound hpattern

theorem adjustSplitForSpans_bounds (spans : List Span) (start splitAt textLength max : Nat) :
    (start < splitAt → splitAt ≤ start + max →
      start < adjustSplitForSpans spans start splitAt textLength max ∧
        adjustSplitForSpans spans start splitAt textLength max ≤ start + max) ∧
    (splitAt ≤ textLength →
      adjustSplitForSpans spans start splitAt textLength max ≤ textLength) := by
  unfold adjustSplitForSpans
  dsimp only
  split
  · rename_i before hbefore
    obtain ⟨hmaximum, -⟩ := filter_eq_some_iff.mp hbefore
    obtain ⟨hmem, hlate⟩ := mem_filter.mp (max?_mem hmaximum)
    obtain ⟨span, hspan, rfl⟩ := mem_map.mp hmem
    have hcontains := (mem_filter.mp hspan).2
    simp only [Bool.and_eq_true, decide_eq_true_eq] at hcontains hlate
    omega
  · cases hafter : (((spans.filter fun span => span.start < splitAt && splitAt < span.stop).map
        Span.stop).filter (· < start + max)).min?.filter (· < textLength) with
    | none => exact ⟨And.intro, id⟩
    | some after =>
      obtain ⟨hminimum, hend⟩ := filter_eq_some_iff.mp hafter
      obtain ⟨hmem, hearly⟩ := mem_filter.mp (min?_mem hminimum)
      obtain ⟨span, hspan, rfl⟩ := mem_map.mp hmem
      have hcontains := (mem_filter.mp hspan).2
      simp only [Bool.and_eq_true, decide_eq_true_eq, getD_some] at hcontains hearly hend ⊢
      omega

theorem findSplitPoint_le (text : Text) (max : Nat) : findSplitPoint text max ≤ max := by
  obtain rfl | hmax := Nat.eq_zero_or_pos max
  · simp [findSplitPoint, lastBreak, rfind]
  · exact (findSplitPoint_bounds text hmax).2

theorem cutAt_le (r : Rendered) (h : max < r.text.length - start) :
    r.cutAt max start ≤ r.text.length := by
  have hpoint := findSplitPoint_le (r.text.drop start) max
  unfold Rendered.cutAt
  dsimp only
  split
  · exact Nat.min_le_right _ _
  · exact (adjustSplitForSpans_bounds r.spans ..).2 (by omega)

theorem cutAt_bounds (r : Rendered) (hmax : 1 ≤ max) (h : max < r.text.length - start) :
    start < r.cutAt max start ∧ r.cutAt max start ≤ start + max ∧
      r.cutAt max start ≤ r.text.length := by
  have hpoint := findSplitPoint_bounds (r.text.drop start) hmax
  have hbefore : start + findSplitPoint (r.text.drop start) max ≤ start + max := by omega
  have hbounds := (adjustSplitForSpans_bounds r.spans start _ r.text.length max).1
    (Nat.lt_add_of_pos_right hpoint.1) hbefore
  refine ⟨?_, ?_, cutAt_le r h⟩
  · unfold Rendered.cutAt
    rw [if_neg (by omega)]
    exact hbounds.1
  · unfold Rendered.cutAt
    rw [if_neg (by omega)]
    exact hbounds.2

theorem le_skipSpace (text : Text) (start : Nat) : start ≤ skipSpace text start :=
  Nat.le_add_right _ _

theorem skipSpace_le (h : start ≤ text.length) : skipSpace text start ≤ text.length := by
  have hle := IsPrefix.length_le <| takeWhile_prefix isSpace (l := text.drop start)
  rw [length_drop] at hle
  unfold skipSpace
  omega

theorem isSpaceAt_of_lt_takeWhile (h : i < (text.takeWhile isSpace).length) :
    isSpaceAt text i := by
  induction text generalizing i with
  | nil => cases h
  | cons c text ih =>
    rw [takeWhile_cons] at h
    split at h
    · rename_i hspace
      cases i with
      | zero => exact hspace
      | succ i => exact ih (Nat.lt_of_succ_lt_succ h)
    · cases h

theorem isSpaceAt_of_lt_skipSpace (hstart : start ≤ i) (h : i < skipSpace text start) :
    isSpaceAt text i := by
  have hlt : i - start < ((text.drop start).takeWhile isSpace).length := by
    unfold skipSpace at h
    omega
  have hspace := isSpaceAt_of_lt_takeWhile hlt
  unfold isSpaceAt at hspace ⊢
  rw [getElem?_drop, Nat.add_sub_cancel' hstart] at hspace
  exact hspace

end

def HasStyle (spans : List Span) (i : Nat) (style : Style) : Prop :=
  ∃ span ∈ spans, span.start ≤ i ∧ i < span.stop ∧ span.style = style

section

variable {r : Rendered} {start stop i : Nat}

theorem keptEnd_spec (r : Rendered) (h : start ≤ stop) :
    start ≤ r.keptEnd start stop ∧ r.keptEnd start stop ≤ stop ∧
      ∀ i, r.keptEnd start stop ≤ i → i < stop →
        isSpaceAt r.text i ∧ ∀ style, ¬ HasStyle r.spans i style := by
  induction stop with
  | zero =>
    exact ⟨h, Nat.le_refl 0, fun i _ hlt => by omega⟩
  | succ stop ih =>
    unfold Rendered.keptEnd
    split_ifs with hdrop
    · obtain ⟨hstart, hspace, hnone⟩ := hdrop
      obtain ⟨hlow, hhigh, hdropped⟩ := ih hstart
      refine ⟨hlow, by omega, ?_⟩
      intro i hi hlt
      by_cases hlast : i = stop
      · subst hlast
        refine ⟨hspace, ?_⟩
        rintro style ⟨span, hspan, hfrom, hto, -⟩
        apply hnone
        exact any_eq_true.mpr ⟨span, hspan, by simp [Span.covers, hfrom, hto]⟩
      · exact hdropped i hi (by omega)
    · exact ⟨h, Nat.le_refl _, fun i hi hlt => by omega⟩

theorem mem_slice_iff {spans : List Span} {part : Span} :
    part ∈ spans.filterMap (·.slice start stop) ↔ ∃ span ∈ spans,
      max span.start start < min span.stop stop ∧ part = { span with
          start := max span.start start - start, stop := min span.stop stop - start } := by
  simp only [mem_filterMap, Span.slice]
  constructor
  · rintro ⟨span, hspan, hslice⟩
    split_ifs at hslice with hempty
    exact ⟨span, hspan, Nat.lt_of_not_le hempty, (some.inj hslice).symm⟩
  · rintro ⟨span, hspan, hlt, rfl⟩
    exact ⟨span, hspan, if_neg (Nat.not_le_of_lt hlt)⟩

theorem hasStyle_slice_iff {spans : List Span} {style : Style} (h : start + i < stop) :
    HasStyle (spans.filterMap (·.slice start stop)) i style ↔ HasStyle spans (start + i) style := by
  constructor
  · rintro ⟨part, hpart, hfrom, hto, hstyle⟩
    obtain ⟨span, hspan, _, rfl⟩ := mem_slice_iff.mp hpart
    dsimp only at hfrom hto hstyle
    exact ⟨span, hspan, by omega, by omega, hstyle⟩
  · rintro ⟨span, hspan, hfrom, hto, hstyle⟩
    refine ⟨_, mem_slice_iff.mpr ⟨span, hspan, by omega, rfl⟩, ?_, ?_, hstyle⟩
    · dsimp only
      omega
    · dsimp only
      omega

theorem sliceRendered_length (hstart : start ≤ stop) (hstop : stop ≤ r.text.length) :
    (sliceRendered r start stop).text.length = r.keptEnd start stop - start := by
  have hkept := keptEnd_spec r hstart
  simp only [sliceRendered, length_drop, length_take]
  omega

end

section

variable {r : Rendered} {max start : Nat} {chunks : List (Nat × Rendered)}

def InChunk (chunk : Nat × Rendered) (i : Nat) : Prop :=
  chunk.1 ≤ i ∧ i < chunk.1 + chunk.2.text.length

/-- The chunks of the text from `start` on are parts of it, in order, with their styles, and leave
out whitespace only. -/
structure Cover (r : Rendered) (max start : Nat) (chunks : List (Nat × Rendered)) : Prop where
  bounded : ∀ chunk ∈ chunks, chunk.2.text.length ≤ max
  placed : ∀ chunk ∈ chunks, start ≤ chunk.1 ∧
    chunk.2.text = (r.text.drop chunk.1).take chunk.2.text.length
  ordered : chunks.Pairwise fun a b => a.1 + a.2.text.length ≤ b.1
  covered : ∀ i, start ≤ i → i < r.text.length → isSpaceAt r.text i = false →
    ∃ chunk ∈ chunks, InChunk chunk i
  inside : ∀ chunk ∈ chunks, ∀ span ∈ chunk.2.spans,
    span.start < span.stop ∧ span.stop ≤ chunk.2.text.length
  styled : ∀ chunk ∈ chunks, ∀ i < chunk.2.text.length, ∀ style,
    HasStyle chunk.2.spans i style ↔ HasStyle r.spans (chunk.1 + i) style

def CodeKept (r : Rendered) (start : Nat) (chunks : List (Nat × Rendered)) : Prop :=
  ∀ i, start ≤ i → i < r.text.length → isSpaceAt r.text i = true →
    HasStyle r.spans i .monospace → ∃ chunk ∈ chunks, InChunk chunk i

def CleanCut (r : Rendered) (max start : Nat) : Prop :=
  ∀ i, r.cutAt max start ≤ i → i < skipSpace r.text (r.cutAt max start) →
    ¬ HasStyle r.spans i .monospace

/-- The loop arrives at a place where it cuts. -/
inductive Reaches (r : Rendered) (max start : Nat) : Nat → Prop where
  | here : max < r.text.length - start → Reaches r max start start
  | next {at' : Nat} : Reaches r max start at' →
      max < r.text.length - skipSpace r.text (r.cutAt max at') →
      Reaches r max start (skipSpace r.text (r.cutAt max at'))

theorem cover_slice {stop : Nat} (hstart : start ≤ stop) (hstop : stop ≤ r.text.length)
    (hmax : stop ≤ start + max) :
    (sliceRendered r start stop).text.length ≤ max ∧ (sliceRendered r start stop).text =
        (r.text.drop start).take (sliceRendered r start stop).text.length ∧
      (∀ span ∈ (sliceRendered r start stop).spans,
        span.start < span.stop ∧ span.stop ≤ (sliceRendered r start stop).text.length) ∧
      (∀ i < (sliceRendered r start stop).text.length, ∀ style,
        HasStyle (sliceRendered r start stop).spans i style ↔ HasStyle r.spans (start + i) style) ∧
      ∀ i, start ≤ i → i < stop → ¬ InChunk (start, sliceRendered r start stop) i →
        isSpaceAt r.text i ∧ ∀ style, ¬ HasStyle r.spans i style := by
  have hlength := sliceRendered_length hstart hstop
  obtain ⟨hlow, hhigh, hdropped⟩ := keptEnd_spec r hstart
  refine ⟨by omega, ?_, ?_, ?_, ?_⟩
  · rw [hlength]
    simp only [sliceRendered]
    rw [drop_take]
  · intro span hspan
    obtain ⟨whole, -, hlt, rfl⟩ := mem_slice_iff.mp hspan
    dsimp only
    omega
  · intro i hi style
    exact hasStyle_slice_iff (by omega)
  · intro i hi hlt hout
    have hlate : r.keptEnd start stop ≤ i := by
      by_contra hearly
      exact hout ⟨hi, by dsimp only; omega⟩
    exact hdropped i hlate hlt

theorem Reaches.long {at' : Nat} (h : Reaches r max start at') : max < r.text.length - start := by
  induction h with
  | here hlong => exact hlong
  | next _ _ ih => exact ih

theorem reaches_iff {at' : Nat} (hlong : max < r.text.length - start) : Reaches r max start at' ↔
    at' = start ∨ Reaches r max (skipSpace r.text (r.cutAt max start)) at' := by
  constructor
  · intro h
    induction h with
    | here _ => exact .inl rfl
    | next _ hmore ih =>
      obtain rfl | hlater := ih
      · exact .inr (.here hmore)
      · exact .inr (.next hlater hmore)
  · rintro (rfl | h)
    · exact .here hlong
    · induction h with
      | here hmore => exact .next (.here hlong) hmore
      | next _ hmore ih => exact .next ih hmore

theorem Cover.cons {cut after : Nat} (hstart : start < cut) (hcut : cut ≤ r.text.length)
    (hmax : cut ≤ start + max) (hafter : cut ≤ after)
    (hspace : ∀ i, cut ≤ i → i < after → isSpaceAt r.text i)
    (h : Cover r max after chunks) :
    Cover r max start ((start, sliceRendered r start cut) :: chunks) := by
  obtain ⟨hbound, htext, hinside, hstyled, hdropped⟩ := cover_slice (Nat.le_of_lt hstart) hcut hmax
  have hend : (sliceRendered r start cut).text.length ≤ cut - start := by
    have hkept := keptEnd_spec r (Nat.le_of_lt hstart)
    rw [sliceRendered_length (Nat.le_of_lt hstart) hcut]
    omega
  refine ⟨?_, ?_, ?_, ?_, ?_, ?_⟩
  · exact forall_mem_cons.mpr ⟨hbound, h.bounded⟩
  · refine forall_mem_cons.mpr ⟨⟨Nat.le_refl _, htext⟩, ?_⟩
    intro chunk hchunk
    have hplaced := h.placed chunk hchunk
    exact ⟨by omega, hplaced.2⟩
  · refine pairwise_cons.mpr ⟨?_, h.ordered⟩
    intro chunk hchunk
    have hplaced := h.placed chunk hchunk
    dsimp only
    omega
  · intro i hi hlt hchar
    by_cases hin : InChunk (start, sliceRendered r start cut) i
    · exact ⟨_, mem_cons_self, hin⟩
    · have hlate : after ≤ i := by
        by_contra hearly
        have hblank : isSpaceAt r.text i := by
          by_cases hi' : i < cut
          · exact (hdropped i hi hi' hin).1
          · exact hspace i (by omega) (by omega)
        rw [hchar] at hblank
        cases hblank
      obtain ⟨chunk, hchunk, hholds⟩ := h.covered i hlate hlt hchar
      exact ⟨chunk, mem_cons_of_mem _ hchunk, hholds⟩
  · exact forall_mem_cons.mpr ⟨hinside, h.inside⟩
  · exact forall_mem_cons.mpr ⟨hstyled, h.styled⟩

theorem codeKept_cons_iff (hmax : 1 ≤ max) (hlong : max < r.text.length - start)
    (h : Cover r max (skipSpace r.text (r.cutAt max start)) chunks) :
    CodeKept r start ((start, sliceRendered r start (r.cutAt max start)) :: chunks) ↔
      CleanCut r max start ∧ CodeKept r (skipSpace r.text (r.cutAt max start)) chunks := by
  obtain ⟨hstart, hlimit, hcut⟩ := cutAt_bounds r hmax hlong
  have hskip := le_skipSpace r.text (r.cutAt max start)
  obtain ⟨-, -, -, -, hdropped⟩ := cover_slice (Nat.le_of_lt hstart) hcut hlimit
  have hshort : ∀ i, r.cutAt max start ≤ i →
      ¬ InChunk (start, sliceRendered r start (r.cutAt max start)) i := by
    rintro i hi ⟨-, hlt⟩
    have hkept := keptEnd_spec r (Nat.le_of_lt hstart)
    rw [sliceRendered_length (Nat.le_of_lt hstart) hcut] at hlt
    omega
  constructor
  · intro hkept
    constructor
    · intro i hi hlt hcode
      have hlength := skipSpace_le hcut
      obtain ⟨chunk, hchunk, hin⟩ := hkept i (by omega) (by omega)
        (isSpaceAt_of_lt_skipSpace hi hlt) hcode
      obtain rfl | hchunk := mem_cons.mp hchunk
      · exact hshort i hi hin
      · have hplaced := (h.placed chunk hchunk).1
        have hfrom := hin.1
        omega
    · intro i hi hlt hspace hcode
      obtain ⟨chunk, hchunk, hin⟩ := hkept i (by omega) hlt hspace hcode
      obtain rfl | hchunk := mem_cons.mp hchunk
      · exact absurd hin (hshort i (by omega))
      · exact ⟨chunk, hchunk, hin⟩
  · rintro ⟨hclean, hkept⟩ i hi hlt hspace hcode
    by_cases hin : InChunk (start, sliceRendered r start (r.cutAt max start)) i
    · exact ⟨_, mem_cons_self, hin⟩
    · by_cases hbefore : i < r.cutAt max start
      · exact absurd hcode ((hdropped i hi hbefore hin).2 .monospace)
      · by_cases hgap : i < skipSpace r.text (r.cutAt max start)
        · exact absurd hcode (hclean i (by omega) hgap)
        · obtain ⟨chunk, hchunk, hholds⟩ := hkept i (by omega) hlt hspace hcode
          exact ⟨chunk, mem_cons_of_mem _ hchunk, hholds⟩

theorem chunksFrom_spec {fuel : Nat} (hmax : 1 ≤ max) (hstart : start ≤ r.text.length)
    (hfuel : r.text.length - start < fuel) :
    ∃ chunks, chunksFrom r max fuel start = some chunks ∧ Cover r max start chunks ∧
      (CodeKept r start chunks ↔ ∀ at', Reaches r max start at' → CleanCut r max at') := by
  induction fuel generalizing start with
  | zero => omega
  | succ fuel ih =>
    unfold chunksFrom
    split_ifs with hend hshort
    · refine ⟨[], rfl, ⟨?_, ?_, List.Pairwise.nil, ?_, ?_, ?_⟩, ?_⟩
      · simp
      · simp
      · intro i hi hlt _
        omega
      · simp
      · simp
      · constructor
        · intro _ at' hreach
          have hlong := hreach.long
          omega
        · intro _ i hi hlt _ _
          omega
    · obtain ⟨hbound, htext, hinside, hstyled, hdropped⟩ :=
        cover_slice hstart (Nat.le_refl r.text.length) (by omega : r.text.length ≤ start + max)
      refine ⟨_, rfl, ⟨?_, ?_, pairwise_singleton _ _, ?_, ?_, ?_⟩, ?_⟩
      · simpa using hbound
      · simpa using htext
      · intro i hi hlt hchar
        by_cases hin : InChunk (start, sliceRendered r start r.text.length) i
        · exact ⟨_, mem_singleton_self _, hin⟩
        · have hspace := (hdropped i hi hlt hin).1
          rw [hchar] at hspace
          cases hspace
      · simpa using hinside
      · simpa using hstyled
      · constructor
        · intro _ at' hreach
          have hlong := hreach.long
          omega
        · intro _ i hi hlt _ hcode
          by_cases hin : InChunk (start, sliceRendered r start r.text.length) i
          · exact ⟨_, mem_singleton_self _, hin⟩
          · exact absurd hcode ((hdropped i hi hlt hin).2 .monospace)
    · have hlong := Nat.lt_of_not_le hshort
      obtain ⟨hlow, hlimit, hcut⟩ := cutAt_bounds r hmax hlong
      have hskip := le_skipSpace r.text (r.cutAt max start)
      obtain ⟨chunks, hchunks, hcover, hkept⟩ := ih (skipSpace_le hcut) (by omega)
      refine ⟨(start, sliceRendered r start (r.cutAt max start)) :: chunks, by simp [hchunks],
        ?_, ?_⟩
      · exact hcover.cons hlow hcut hlimit hskip fun i => isSpaceAt_of_lt_skipSpace
      · rw [codeKept_cons_iff hmax hlong hcover, hkept]
        simp only [reaches_iff hlong, or_imp, forall_and, forall_eq]

/-- The chunks of a text keep its characters and its styles. -/
structure Lossless (r : Rendered) (max : Nat) (chunks : List (Nat × Rendered)) : Prop where
  cover : Cover r max 0 chunks
  code : CodeKept r 0 chunks

/-- Chunking ends and loses nothing exactly if no cut that the loop makes has whitespace of code
after it. -/
theorem chunkRenderedText_lossless_iff (r : Rendered) (max : Nat) (hmax : 1 ≤ max)
    (hspans : ∀ span ∈ r.spans, span.start < span.stop ∧ span.stop ≤ r.text.length) :
    (∃ chunks, chunkRenderedText r max = some chunks ∧ Cover r max 0 chunks) ∧
      ((∃ chunks, chunkRenderedText r max = some chunks ∧ Lossless r max chunks) ↔
        ∀ start, Reaches r max 0 start → CleanCut r max start) := by
  have hspec : ∃ chunks, chunkRenderedText r max = some chunks ∧ Cover r max 0 chunks ∧
      (CodeKept r 0 chunks ↔ ∀ start, Reaches r max 0 start → CleanCut r max start) := by
    unfold chunkRenderedText
    split_ifs with hshort
    · have hall : ∀ i, i < r.text.length → InChunk (0, r) i := by
        intro i hi
        exact ⟨Nat.zero_le i, by simpa using hi⟩
      refine ⟨_, rfl, ⟨?_, ?_, pairwise_singleton _ _, ?_, ?_, ?_⟩, ?_⟩
      · simpa using hshort
      · simp
      · intro i _ hi _
        exact ⟨_, mem_singleton_self _, hall i hi⟩
      · simpa using hspans
      · simp
      · constructor
        · intro _ at' hreach
          have hlong := hreach.long
          omega
        · intro _ i _ hi _ _
          exact ⟨_, mem_singleton_self _, hall i hi⟩
    · exact chunksFrom_spec hmax (Nat.zero_le _) (by omega)
  obtain ⟨chunks, hchunks, hcover, hkept⟩ := hspec
  refine ⟨⟨chunks, hchunks, hcover⟩, ?_⟩
  rw [← hkept]
  constructor
  · rintro ⟨chunks', hchunks', hlossless⟩
    obtain rfl := some.inj (hchunks.symm.trans hchunks')
    exact hlossless.code
  · intro hcode
    exact ⟨chunks, hchunks, hcover, hcode⟩

end

def spacedCode : Rendered := { text := "ab cd".toList, spans := [⟨0, 5, .monospace, false⟩] }

theorem spacedCode_lossless_iff :
    (∃ chunks, chunkRenderedText spacedCode 2 = some chunks ∧ Cover spacedCode 2 0 chunks) ∧
      ((∃ chunks, chunkRenderedText spacedCode 2 = some chunks ∧ Lossless spacedCode 2 chunks) ↔
        ∀ start, Reaches spacedCode 2 0 start → CleanCut spacedCode 2 start) :=
  chunkRenderedText_lossless_iff spacedCode 2 (by decide) (by decide)

theorem blank_of_code_dropped :
    ¬ ∃ chunks, chunkRenderedText spacedCode 2 = some chunks ∧ Lossless spacedCode 2 chunks := by
  rintro ⟨chunks, hchunks, hlossless⟩
  have hrun : chunkRenderedText spacedCode 2 =
      some [(0, ⟨"ab".toList, [⟨0, 2, .monospace, false⟩]⟩),
        (3, ⟨"cd".toList, [⟨0, 2, .monospace, false⟩]⟩)] := by decide
  obtain rfl := some.inj (hrun.symm.trans hchunks)
  obtain ⟨chunk, hchunk, hfrom, hto⟩ := hlossless.code 2 (Nat.zero_le 2) (by decide) (by decide)
    ⟨⟨0, 5, .monospace, false⟩, mem_singleton_self _, by decide, by decide, rfl⟩
  have hout : ∀ chunk ∈ [((0 : Nat), (⟨"ab".toList, [⟨0, 2, .monospace, false⟩]⟩ : Rendered)),
      (3, ⟨"cd".toList, [⟨0, 2, .monospace, false⟩]⟩)],
      ¬ (chunk.1 ≤ 2 ∧ 2 < chunk.1 + chunk.2.text.length) := by decide
  exact hout chunk hchunk ⟨hfrom, hto⟩

end Cognis.SignalFormatting
