import Cognis.AnchoredOutput.Headings

namespace Cognis.AnchoredOutput

open List Option PythonText SortByKey

variable {u : Unicode} {content : Text} {maxLevel : Int} {hs later : List Heading}
  {heading next : Heading}

/-- The lines of the headings are lines of the content. -/
def Numbered (total : Nat) (hs : List Heading) : Prop :=
  ∀ heading ∈ hs, 1 ≤ heading.line ∧ heading.line ≤ total

theorem Numbered.snoc (h : Numbered total hs) (hone : 1 ≤ heading.line)
    (htotal : heading.line ≤ total) : Numbered total (hs ++ [heading]) := by
  intro other hother
  obtain hother | hother := mem_append.mp hother
  · exact h other hother
  · obtain rfl := mem_singleton.mp hother
    exact ⟨hone, htotal⟩

theorem Scan.step_numbered {scan : Scan} {lineNo : Nat} {previous : Option Text} {line : Text}
    (h : Numbered lineNo scan.headings) (hone : 1 ≤ lineNo)
    (hprevious : previous.isSome → 2 ≤ lineNo) :
    Numbered lineNo (scan.step maxLevel lineNo previous line).headings := by
  unfold Scan.step
  split
  · exact h
  · exact h
  · exact h
  · split
    · exact h.snoc hone (Nat.le_refl _)
    · split
      · rename_i hsetext
        obtain ⟨hsome, -⟩ := filter_eq_some_iff.mp hsetext
        have habove : previous.isSome := by
          obtain ⟨above, habove, -⟩ := bind_eq_some_iff.mp hsome
          simp [habove]
        have htwo := hprevious habove
        exact h.snoc (by dsimp only; omega) (Nat.sub_le _ _)
      · exact h

theorem scanLines_numbered (scan : Scan) (lineNo : Nat) (previous : Option Text)
    (lines : List Text) (h : Numbered (lineNo - 1) scan.headings) (hone : 1 ≤ lineNo)
    (hprevious : previous.isSome → 2 ≤ lineNo) :
    Numbered (lineNo - 1 + lines.length)
      (scanLines maxLevel scan lineNo previous lines).headings := by
  induction lines generalizing scan lineNo previous with
  | nil => exact h
  | cons line lines ih =>
    have hwide : Numbered lineNo scan.headings := by
      intro other hother
      have hbounds := h other hother
      omega
    have hstep := ih (scan.step maxLevel lineNo previous line) (lineNo + 1) (some line)
      (Scan.step_numbered hwide hone hprevious) (by omega) (by omega)
    have htotal : lineNo + 1 - 1 + lines.length = lineNo - 1 + (lines.length + 1) := by omega
    rw [htotal] at hstep
    exact hstep

theorem htmlHeading_start {p q : Regex.Place} (h : htmlHeading.matchAt p = some q) :
    ∃ after, p.after = '<' :: after := by
  have hrun : q ∈ htmlHeading.run p := mem_of_head? h
  obtain ⟨t, ht, -⟩ := mem_flatMap.mp hrun
  obtain ⟨t', ht', -⟩ := mem_flatMap.mp ht
  unfold Regex.run at ht'
  split at ht'
  · rename_i hhead
    cases hafter : p.after with
    | nil =>
      rw [hafter] at hhead
      cases hhead
    | cons c after =>
      rw [hafter] at hhead
      obtain rfl : c = '<' := eq_of_beq hhead
      exact ⟨after, rfl⟩
  · cases ht'

theorem htmlHeadings_numbered (fencedLines : List Nat) : Numbered (splitlines content).length
      ((htmlHeading.finditer content).filterMap (htmlHeadingOf u maxLevel fencedLines)) := by
  intro heading hheading
  obtain ⟨⟨p, q⟩, hfound, hof⟩ := mem_filterMap.mp hheading
  obtain ⟨htext, hmatch⟩ := Regex.finditer_spec hfound
  obtain ⟨after, hafter⟩ := htmlHeading_start hmatch
  have hline : heading.line = p.before.count '\n' + 1 := by
    unfold htmlHeadingOf at hof
    dsimp only at hof
    split at hof
    · cases hof
    · split at hof
      · cases hof
      · split at hof
        · cases hof
        · cases hof
          rfl
  have hlt : p.before.reverse.count '\n' <
      (splitlines (p.before.reverse ++ '<' :: after)).length := count_newline_lt_length (by decide)
  rw [← hafter, count_reverse] at hlt
  rw [← htext, Regex.Place.text, hline]
  omega

theorem sortedHeadings_numbered :
    Numbered (splitlines content).length (sortedHeadings u maxLevel content) := by
  intro heading hheading
  obtain hheading | hheading := mem_append.mp ((mem_sortBy headingKey).mp hheading)
  · have hscan : Numbered (1 - 1 + (splitlines content).length)
        (scanLines maxLevel {} 1 none (splitlines content)).headings := by
      apply scanLines_numbered
      · intro other hother
        cases hother
      · exact Nat.le_refl 1
      · intro h
        cases h
    have hbounds := hscan heading hheading
    omega
  · exact htmlHeadings_numbered _ heading hheading

def distinct : List Heading → List Heading → List Heading
  | _, [] => []
  | seen, heading :: hs =>
    if heading ∈ seen then distinct seen hs else heading :: distinct (seen ++ [heading]) hs

theorem distinct_sublist (seen hs : List Heading) : (distinct seen hs).Sublist hs := by
  induction hs generalizing seen with
  | nil => exact Sublist.refl _
  | cons heading hs ih =>
    unfold distinct
    split
    · exact (ih seen).cons heading
    · exact (ih _).cons_cons heading

theorem dedupe_eq {limit : Int} {seen : List Heading} (h : (seen.length : Int) < limit) :
    dedupe limit seen hs = seen ++ (distinct seen hs).take (limit.toNat - seen.length) := by
  induction hs generalizing seen with
  | nil => simp [dedupe, distinct]
  | cons heading hs ih =>
    unfold dedupe distinct
    split
    · exact ih h
    · split
      · rename_i hlimit
        simp only [length_append, length_singleton] at hlimit
        have hone : limit.toNat - seen.length = 1 := by omega
        rw [hone]
        simp
      · have hlength : (seen ++ [heading]).length = seen.length + 1 := by simp
        have hmore : limit.toNat - seen.length = limit.toNat - (seen.length + 1) + 1 := by omega
        rw [ih (by omega), hlength, hmore, take_succ_cons, append_assoc]
        rfl

def sectionHeadings (u : Unicode) (content : Text) (maxAnchors maxLevel : Int) : List Heading :=
  if content = [] ∨ maxLevel ≤ 0 then []
  else (distinct [] (sortedHeadings u maxLevel content)).take maxAnchors.toNat

variable (base : Text) (used : List Text) (maxAnchors : Int)

theorem sectionHeadings_numbered : Numbered (splitlines content).length
    (sectionHeadings u content maxAnchors maxLevel) := by
  intro heading hheading
  unfold sectionHeadings at hheading
  split at hheading
  · cases hheading
  · exact sortedHeadings_numbered heading ((distinct_sublist _ _).subset (mem_of_mem_take hheading))

theorem sectionHeadings_sorted : (sectionHeadings u content maxAnchors maxLevel).Pairwise
      fun a b => headingKey a ≤ headingKey b := by
  unfold sectionHeadings
  split
  · exact List.Pairwise.nil
  · have hsorted := sortBy_pairwise headingKey
      ((scanLines maxLevel {} 1 none (splitlines content)).headings ++
        (htmlHeading.finditer content).filterMap (htmlHeadingOf u maxLevel
          (scanLines maxLevel {} 1 none (splitlines content)).fencedLines))
    exact (hsorted.sublist (distinct_sublist [] _)).sublist (take_sublist _ _)

theorem take_sectionHeadings {low high : Int} (h : low ≤ high) :
    (sectionHeadings u content high maxLevel).take low.toNat =
      sectionHeadings u content low maxLevel := by
  unfold sectionHeadings
  split
  · simp
  · rw [take_take]
    congr 1
    omega

def extraction (content : Text) (existing : List ExistingAnchor) (anchorPrefix kind : Text) :
    Extraction :=
  { anchorPrefix := anchorPrefix, kind := kind, existing := existing
    total := (splitlines content).length }

theorem markdownHeadingAnchors_eq (u : Unicode) (content : Text) (existing : List ExistingAnchor)
    (anchorPrefix kind : Text) (maxAnchors maxLevel : Int) :
    markdownHeadingAnchors u content existing anchorPrefix kind maxAnchors maxLevel =
      (extraction content existing anchorPrefix kind).anchorsFrom u 1
        (extraction content existing anchorPrefix kind).existingNames
        (sectionHeadings u content maxAnchors maxLevel) := by
  unfold markdownHeadingAnchors sectionHeadings
  by_cases hnone : content = [] ∨ maxLevel ≤ 0
  · rw [if_pos hnone, if_pos (by tauto)]
    rfl
  · rw [if_neg hnone]
    by_cases hmax : maxAnchors ≤ 0
    · have hzero : maxAnchors.toNat = 0 := by omega
      rw [if_pos (by tauto), hzero]
      rfl
    · rw [if_neg (by tauto), limitedHeadings, dedupe_eq (by simp; omega)]
      rfl

section

variable {x : Extraction} {mid : List Heading} {total : Nat}

theorem Extraction.endLine_of_find_some
    (h : later.find? (fun next => next.level ≤ heading.level) = some next) :
    x.endLine heading later = next.line - 1 := by
  unfold Extraction.endLine
  rw [h]

theorem Extraction.endLine_of_all_deeper (h : ∀ next ∈ later, heading.level < next.level) :
    x.endLine heading later = x.total := by
  unfold Extraction.endLine
  have hnone : later.find? (fun next => next.level ≤ heading.level) = none := by
    rw [find?_eq_none]
    intro next hnext
    have hdeeper := h next hnext
    simpa using hdeeper
  rw [hnone]

theorem exists_find_of_mem (hsorted : later.Pairwise fun a b => a.line ≤ b.line)
    (hnext : next ∈ later) (hlevel : next.level ≤ heading.level) :
    ∃ first ∈ later, later.find? (fun next => next.level ≤ heading.level) = some first ∧
      first.line ≤ next.line := by
  induction later with
  | nil => cases hnext
  | cons other later ih =>
    rw [pairwise_cons] at hsorted
    by_cases hother : other.level ≤ heading.level
    · refine ⟨other, mem_cons_self, by simp [hother], ?_⟩
      obtain rfl | hmem := mem_cons.mp hnext
      · exact Nat.le_refl _
      · exact hsorted.1 next hmem
    · obtain rfl | hmem := mem_cons.mp hnext
      · exact absurd hlevel hother
      · obtain ⟨first, hfirst, hfind, hline⟩ := ih hsorted.2 hmem
        exact ⟨first, mem_cons_of_mem _ hfirst, by simp [hother, hfind], hline⟩

theorem Extraction.endLine_le_total (h : Numbered x.total later) :
    x.endLine heading later ≤ x.total := by
  unfold Extraction.endLine
  cases hfind : later.find? (fun next => next.level ≤ heading.level) with
  | none => exact Nat.le_refl _
  | some next =>
    have hbounds := h next (mem_of_find?_eq_some hfind)
    dsimp only
    omega

/-- A section ends before every later heading of its level, or after the end of the section of
that heading. -/
theorem Extraction.endLine_laminar (heading : Heading)
    (hsorted : (mid ++ next :: later).Pairwise fun a b => a.line ≤ b.line)
    (hlines : Numbered x.total (mid ++ next :: later)) :
    x.endLine heading (mid ++ next :: later) < next.line ∨
      x.endLine next later ≤ x.endLine heading (mid ++ next :: later) := by
  by_cases hends : ∃ other ∈ mid ++ [next], other.level ≤ heading.level
  · left
    obtain ⟨other, hother, hlevel⟩ := hends
    have hline : other.line ≤ next.line := by
      obtain hmid | hlast := mem_append.mp hother
      · exact (pairwise_append.mp hsorted).2.2 other hmid next mem_cons_self
      · exact Nat.le_of_eq (congrArg Heading.line (mem_singleton.mp hlast))
    have hmem : other ∈ mid ++ next :: later := by
      rw [append_cons]
      exact mem_append_left _ hother
    obtain ⟨first, hfirst, hfind, hle⟩ := exists_find_of_mem hsorted hmem hlevel
    have hone := (hlines first hfirst).1
    rw [Extraction.endLine_of_find_some hfind]
    omega
  · right
    have hdeeper : ∀ other ∈ mid ++ [next], ¬ other.level ≤ heading.level := by
      intro other hother hlevel
      exact hends ⟨other, hother, hlevel⟩
    have hnext := hdeeper next (mem_append_right _ mem_cons_self)
    have hskip : (mid ++ next :: later).find? (fun next => next.level ≤ heading.level) =
        later.find? fun next => next.level ≤ heading.level := by
      have hnone : (mid ++ [next]).find? (fun next => next.level ≤ heading.level) = none := by
        rw [find?_eq_none]
        intro other hother
        simpa using hdeeper other hother
      rw [append_cons, find?_append, hnone, none_or]
    have hlater : Numbered x.total later := by
      intro other hother
      exact hlines other (mem_append_right _ (mem_cons_of_mem _ hother))
    have htail : later.Pairwise fun a b => a.line ≤ b.line :=
      (pairwise_append.mp hsorted).2.1.tail
    cases hfind : later.find? (fun next => next.level ≤ heading.level) with
    | none =>
      have htotal : x.endLine heading (mid ++ next :: later) = x.total := by
        unfold Extraction.endLine
        rw [hskip, hfind]
      rw [htotal]
      exact Extraction.endLine_le_total hlater
    | some first =>
      rw [Extraction.endLine_of_find_some (hskip.trans hfind)]
      have hlevel : first.level ≤ next.level := by
        have hfirst : first.level ≤ heading.level := by simpa using find?_some hfind
        omega
      obtain ⟨first', -, hfind', hle⟩ :=
        exists_find_of_mem htail (mem_of_find?_eq_some hfind) hlevel
      rw [Extraction.endLine_of_find_some hfind']
      omega

end

theorem candidateName_injective : Function.Injective (candidateName base) := by
  intro n m h
  cases n with
  | zero =>
    cases m with
    | zero => rfl
    | succ m =>
      have hlength := congrArg length h
      simp [candidateName] at hlength
  | succ n =>
    cases m with
    | zero =>
      have hlength := congrArg length h
      simp [candidateName] at hlength
    | succ m =>
      have hdigits : Nat.toDigits 10 (n + 2) = Nat.toDigits 10 (m + 2) := by
        simpa [candidateName] using h
      have hvalue := congrArg (Nat.ofDigitChars 10 · 0) hdigits
      simp only [Nat.ofDigitChars_ten_toDigits] at hvalue
      omega

theorem firstUnused_eq_candidateName (fuel n : Nat) :
    ∃ m, n ≤ m ∧ firstUnused base used fuel n = candidateName base m := by
  induction fuel generalizing n with
  | zero => exact ⟨n, Nat.le_refl n, rfl⟩
  | succ fuel ih =>
    unfold firstUnused
    split
    · obtain ⟨m, hm, heq⟩ := ih (n + 1)
      exact ⟨m, by omega, heq⟩
    · exact ⟨n, Nat.le_refl n, rfl⟩

theorem firstUnused_filter (fuel : Nat) {k n : Nat} (h : k < n) :
    firstUnused base (used.filter (· ≠ candidateName base k)) fuel n =
      firstUnused base used fuel n := by
  induction fuel generalizing n with
  | zero => rfl
  | succ fuel ih =>
    have hne : candidateName base n ≠ candidateName base k := by
      intro heq
      have hsame := candidateName_injective base heq
      omega
    unfold firstUnused
    rw [ih (by omega)]
    simp [hne]

theorem firstUnused_not_mem {fuel : Nat} (n : Nat)
    (h : used.length ≤ fuel) : firstUnused base used fuel n ∉ used := by
  induction fuel generalizing used n with
  | zero =>
    have hnil : used = [] := length_eq_zero_iff.mp (Nat.le_zero.mp h)
    simp [hnil]
  | succ fuel ih =>
    unfold firstUnused
    split
    · rename_i hused
      have hlength : (used.filter (· ≠ candidateName base n)).length < used.length := by
        apply length_filter_lt_length_iff_exists.mpr
        exact ⟨candidateName base n, hused, by simp⟩
      have hfree := ih (used.filter (· ≠ candidateName base n)) (n + 1) (by omega)
      rw [firstUnused_filter base used fuel (Nat.lt_succ_self n)] at hfree
      obtain ⟨m, hm, heq⟩ := firstUnused_eq_candidateName base used fuel (n + 1)
      intro hmem
      apply hfree
      rw [mem_filter]
      refine ⟨hmem, ?_⟩
      rw [heq]
      have hne : candidateName base m ≠ candidateName base n := by
        intro hsame
        have hidx := candidateName_injective base hsame
        omega
      simpa using hne
    · assumption

theorem uniqueAnchorName_not_mem :
    uniqueAnchorName base used ∉ used := firstUnused_not_mem base used 0 (Nat.le_refl _)

theorem uniqueAnchorName_ne_nil {base : Text} (h : base ≠ []) (used : List Text) :
    uniqueAnchorName base used ≠ [] := by
  obtain ⟨m, -, heq⟩ := firstUnused_eq_candidateName base used used.length 0
  rw [uniqueAnchorName, heq]
  cases m with
  | zero => exact h
  | succ m => simp [candidateName]

end Cognis.AnchoredOutput
