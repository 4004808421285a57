import Cognis.AnchoredOutput.Sections

namespace Cognis.AnchoredOutput

open List PythonText SortByKey

variable {u : Unicode} {content : Text} {maxLevel : Int} {hs more : List Heading}

/-- Two ranges of lines are disjoint or nested. -/
def Laminar (a b : Anchor) : Prop :=
  a.endLine < b.startLine ∨ b.endLine < a.startLine ∨
    (a.startLine ≤ b.startLine ∧ b.endLine ≤ a.endLine) ∨
    (b.startLine ≤ a.startLine ∧ a.endLine ≤ b.endLine)

/-- The anchors up to `high` are valid, laminar and unique, and lowering the limit to `low` only
leaves out the last of them. -/
structure Sound (u : Unicode) (content : Text) (existing : List ExistingAnchor)
    (anchorPrefix kind : Text) (low high maxLevel : Int) : Prop where
  ranges : ∀ a ∈ markdownHeadingAnchors u content existing anchorPrefix kind high maxLevel,
    1 ≤ a.startLine ∧ a.startLine ≤ a.endLine ∧ a.endLine ≤ (splitlines content).length
  laminar : (markdownHeadingAnchors u content existing anchorPrefix kind high maxLevel).Pairwise
    Laminar
  distinct : ((markdownHeadingAnchors u content existing anchorPrefix kind high maxLevel).map
    Anchor.anchor).Nodup
  unused : ∀ a ∈ markdownHeadingAnchors u content existing anchorPrefix kind high maxLevel,
    ∀ item ∈ existing, item.anchor ≠ some a.anchor
  stable : low ≤ high → markdownHeadingAnchors u content existing anchorPrefix kind low maxLevel <+:
      markdownHeadingAnchors u content existing anchorPrefix kind high maxLevel

def Apart (hs : List Heading) : Prop := hs.Pairwise fun a b => a.line = b.line → a.level ≠ b.level

def EndsKept (low : Nat) (hs : List Heading) : Prop :=
  ∀ before heading later, hs.take low = before ++ heading :: later →
    (∀ next ∈ later, heading.level < next.level) → ∀ next ∈ hs.drop low, heading.level < next.level

theorem pairwise_of_splits {α : Type} {R : α → α → Prop} {l : List α}
    (h : ∀ before a later, l = before ++ a :: later → ∀ b ∈ later, R a b) : l.Pairwise R := by
  induction l with
  | nil => exact List.Pairwise.nil
  | cons a l ih =>
    refine pairwise_cons.mpr ⟨h [] a l rfl, ih ?_⟩
    intro before b later heq
    exact h (a :: before) b later (by rw [heq, cons_append])

section

variable {x : Extraction} {index : Nat} {used : List Text} {a : Anchor}

theorem Extraction.baseAnchor_ne_nil (x : Extraction) (heading : Heading) (index : Nat) :
    x.baseAnchor u heading index ≠ [] := by
  simp [Extraction.baseAnchor]

theorem mem_anchorsFrom (h : a ∈ x.anchorsFrom u index used hs) :
    (∃ before heading later, hs = before ++ heading :: later ∧ a.startLine = heading.line ∧
      a.endLine = x.endLine heading later) ∧ a.anchor ∉ used ∧ a.anchor ≠ [] := by
  induction hs generalizing index used with
  | nil => cases h
  | cons heading hs ih =>
    unfold Extraction.anchorsFrom at h
    dsimp only at h
    split at h
    · obtain ⟨⟨before, other, later, rfl, hstart, hend⟩, hname⟩ := ih h
      exact ⟨⟨heading :: before, other, later, rfl, hstart, hend⟩, hname⟩
    · obtain rfl | h := mem_cons.mp h
      · exact ⟨⟨[], heading, hs, rfl, rfl, rfl⟩, uniqueAnchorName_not_mem _ _,
          uniqueAnchorName_ne_nil (x.baseAnchor_ne_nil heading index) _⟩
      · obtain ⟨⟨before, other, later, rfl, hstart, hend⟩, hfree, hnil⟩ := ih h
        exact ⟨⟨heading :: before, other, later, rfl, hstart, hend⟩,
          fun hused => hfree (mem_cons_of_mem _ hused), hnil⟩

theorem anchorsFrom_nodup : ((x.anchorsFrom u index used hs).map Anchor.anchor).Nodup := by
  induction hs generalizing index used with
  | nil => exact nodup_nil
  | cons heading hs ih =>
    unfold Extraction.anchorsFrom
    dsimp only
    split
    · exact ih
    · rw [map_cons, nodup_cons]
      refine ⟨?_, ih⟩
      intro hmem
      obtain ⟨a, ha, hname⟩ := mem_map.mp hmem
      have hfree := (mem_anchorsFrom ha).2.1
      rw [hname] at hfree
      exact hfree mem_cons_self

theorem anchorsFrom_laminar (hsorted : hs.Pairwise fun a b => a.line ≤ b.line)
    (hlines : Numbered x.total hs) : (x.anchorsFrom u index used hs).Pairwise Laminar := by
  induction hs generalizing index used with
  | nil => exact List.Pairwise.nil
  | cons heading hs ih =>
    have hrest : Numbered x.total hs :=
      fun other hother => hlines other (mem_cons_of_mem _ hother)
    have htail (index : Nat) (used : List Text) :
        (x.anchorsFrom u index used hs).Pairwise Laminar :=
      ih (pairwise_cons.mp hsorted).2 hrest
    unfold Extraction.anchorsFrom
    dsimp only
    split
    · exact htail _ _
    · refine pairwise_cons.mpr ⟨?_, htail _ _⟩
      intro b hb
      obtain ⟨⟨mid, next, later, rfl, hstart, hend⟩, -⟩ := mem_anchorsFrom hb
      have hline := (pairwise_cons.mp hsorted).1 next (mem_append_right _ mem_cons_self)
      have hends := Extraction.endLine_laminar heading (pairwise_cons.mp hsorted).2 hrest
      obtain hbefore | hwithin := hends
      · exact .inl (by rw [hstart]; exact hbefore)
      · exact .inr (.inr (.inl ⟨by rw [hstart]; exact hline, by rw [hend]; exact hwithin⟩))

theorem anchorsFrom_append (h : ∀ before heading later, hs = before ++ heading :: later →
      x.endLine heading (later ++ more) = x.endLine heading later) :
    x.anchorsFrom u index used hs <+: x.anchorsFrom u index used (hs ++ more) := by
  induction hs generalizing index used with
  | nil => exact nil_prefix
  | cons heading hs ih =>
    have hends := h [] heading hs rfl
    have htail : ∀ before heading later, hs = before ++ heading :: later →
        x.endLine heading (later ++ more) = x.endLine heading later := by
      intro before other later heq
      exact h (heading :: before) other later (by rw [heq, cons_append])
    rw [cons_append, Extraction.anchorsFrom, Extraction.anchorsFrom, hends]
    split
    · exact ih htail
    · exact prefix_cons_inj _ |>.mpr (ih htail)

theorem getElem?_anchorsFrom (hnew : x.existing = []) (index : Nat) (used : List Text)
    (before : List Heading) (heading : Heading)
    (later : List Heading) :
    ∃ a, (x.anchorsFrom u index used (before ++ heading :: later))[before.length]? = some a ∧
      a.startLine = heading.line ∧ a.endLine = x.endLine heading later := by
  have hunknown : ∀ other index endLine, x.isKnown u other index endLine = false := by
    intro other index endLine
    simp [Extraction.isKnown, Extraction.existingSignatures, Extraction.existingNames, hnew]
  induction before generalizing index used with
  | nil =>
    rw [nil_append, Extraction.anchorsFrom]
    simp [hunknown]
  | cons other before ih =>
    rw [cons_append, Extraction.anchorsFrom]
    simpa [hunknown] using ih _ _

end

theorem headingKey_le_iff {a b : Heading} (h : headingKey a ≤ headingKey b) :
    a.line < b.line ∨ (a.line = b.line ∧ a.level ≤ b.level) := by
  obtain hline | ⟨hline, hrest⟩ := Prod.Lex.toLex_le_toLex.mp h
  · exact .inl hline
  · obtain hlevel | ⟨hlevel, -⟩ := Prod.Lex.toLex_le_toLex.mp hrest
    · exact .inr ⟨hline, Nat.le_of_lt hlevel⟩
    · exact .inr ⟨hline, Nat.le_of_eq hlevel⟩

theorem sectionHeadings_line_sorted (high : Int) :
    (sectionHeadings u content high maxLevel).Pairwise fun a b => a.line ≤ b.line :=
  (sectionHeadings_sorted high).imp fun h => by
    obtain hlt | ⟨heq, -⟩ := headingKey_le_iff h
    · exact Nat.le_of_lt hlt
    · exact Nat.le_of_eq heq

theorem le_endLine {x : Extraction} {heading : Heading}
    (hsorted : (heading :: hs).Pairwise fun a b => headingKey a ≤ headingKey b)
    (hapart : Apart (heading :: hs)) (hlines : Numbered x.total (heading :: hs)) :
    heading.line ≤ x.endLine heading hs := by
  unfold Extraction.endLine
  cases hfind : hs.find? (fun next => next.level ≤ heading.level) with
  | none => exact (hlines heading mem_cons_self).2
  | some next =>
    have hnext := mem_of_find?_eq_some hfind
    have hlevel : next.level ≤ heading.level := by simpa using find?_some hfind
    have hkey := headingKey_le_iff ((pairwise_cons.mp hsorted).1 next hnext)
    have hne := (pairwise_cons.mp hapart).1 next hnext
    dsimp only
    omega

theorem endLine_ne_total {x : Extraction} {heading next : Heading} (hnext : next ∈ hs)
    (hlevel : next.level ≤ heading.level) (hlines : Numbered x.total hs) :
    x.endLine heading hs < x.total := by
  unfold Extraction.endLine
  cases hfind : hs.find? (fun next => next.level ≤ heading.level) with
  | none =>
    have hdeeper := find?_eq_none.mp hfind next hnext
    simp only [decide_eq_true_eq] at hdeeper
    exact absurd hlevel hdeeper
  | some first =>
    have hbounds := hlines first (mem_of_find?_eq_some hfind)
    dsimp only
    omega

section

variable {existing : List ExistingAnchor} {anchorPrefix kind : Text} {low high : Int}

theorem Numbered.of_append {total : Nat} {before : List Heading}
    (h : Numbered total (before ++ hs)) : Numbered total hs :=
  fun other hother => h other (mem_append_right _ hother)

theorem ranges_of_apart (h : Apart (sectionHeadings u content high maxLevel)) :
    ∀ a ∈ markdownHeadingAnchors u content existing anchorPrefix kind high maxLevel,
      1 ≤ a.startLine ∧ a.startLine ≤ a.endLine ∧ a.endLine ≤ (splitlines content).length := by
  intro a ha
  rw [markdownHeadingAnchors_eq] at ha
  obtain ⟨⟨before, heading, later, heq, hstart, hend⟩, -⟩ := mem_anchorsFrom ha
  have hlines : Numbered (splitlines content).length (sectionHeadings u content high maxLevel) :=
    sectionHeadings_numbered high
  have hsorted : (sectionHeadings u content high maxLevel).Pairwise
      fun a b => headingKey a ≤ headingKey b := sectionHeadings_sorted high
  rw [heq] at h hlines hsorted
  have hfrom := hlines.of_append
  have hle := le_endLine (x := extraction content existing anchorPrefix kind)
    (pairwise_append.mp hsorted).2.1 (pairwise_append.mp h).2.1 hfrom
  have htotal : (extraction content existing anchorPrefix kind).endLine heading later ≤
      (splitlines content).length := Extraction.endLine_le_total
    (x := extraction content existing anchorPrefix kind)
    (fun other hother => hfrom other (mem_cons_of_mem _ hother))
  rw [hstart, hend]
  exact ⟨(hfrom heading mem_cons_self).1, hle, htotal⟩

theorem anchors_unused :
    ∀ a ∈ markdownHeadingAnchors u content existing anchorPrefix kind high maxLevel,
      ∀ item ∈ existing, item.anchor ≠ some a.anchor := by
  intro a ha item hitem hname
  rw [markdownHeadingAnchors_eq] at ha
  obtain ⟨-, hfree, hnil⟩ := mem_anchorsFrom ha
  apply hfree
  refine mem_filterMap.mpr ⟨item, hitem, ?_⟩
  rw [hname]
  simpa using hnil

theorem stable_of_endsKept (hle : low ≤ high)
    (h : EndsKept low.toNat (sectionHeadings u content high maxLevel)) :
    markdownHeadingAnchors u content existing anchorPrefix kind low maxLevel <+:
      markdownHeadingAnchors u content existing anchorPrefix kind high maxLevel := by
  rw [markdownHeadingAnchors_eq, markdownHeadingAnchors_eq, ← take_sectionHeadings hle]
  have hkeep : ∀ before heading later,
      (sectionHeadings u content high maxLevel).take low.toNat = before ++ heading :: later →
      (extraction content existing anchorPrefix kind).endLine heading
          (later ++ (sectionHeadings u content high maxLevel).drop low.toNat) =
        (extraction content existing anchorPrefix kind).endLine heading later := by
    intro before heading later heq
    unfold Extraction.endLine
    rw [find?_append]
    cases hfind : later.find? (fun next => next.level ≤ heading.level) with
    | some => rfl
    | none =>
      have hdeeper : ∀ next ∈ later, heading.level < next.level := by
        intro next hnext
        simpa using find?_eq_none.mp hfind next hnext
      have hrest := h before heading later heq hdeeper
      have hnone : ((sectionHeadings u content high maxLevel).drop low.toNat).find?
          (fun next => next.level ≤ heading.level) = none := by
        rw [find?_eq_none]
        intro next hnext
        simpa using hrest next hnext
      rw [hnone]
      rfl
  have hall := take_append_drop low.toNat (sectionHeadings u content high maxLevel)
  nth_rewrite 2 [← hall]
  exact anchorsFrom_append hkeep

theorem apart_of_ranges
    (h : ∀ a ∈ markdownHeadingAnchors u content [] anchorPrefix kind high maxLevel,
      a.startLine ≤ a.endLine) : Apart (sectionHeadings u content high maxLevel) := by
  apply pairwise_of_splits
  intro before a later heq b hb hline hlevel
  have hlines : Numbered (splitlines content).length (sectionHeadings u content high maxLevel) :=
    sectionHeadings_numbered high
  have hsorted : (sectionHeadings u content high maxLevel).Pairwise fun a b => a.line ≤ b.line :=
    sectionHeadings_line_sorted high
  rw [heq] at hlines hsorted
  obtain ⟨anchor, hget, hstart, hend⟩ := getElem?_anchorsFrom (u := u)
    (x := extraction content [] anchorPrefix kind) rfl 1
    (extraction content [] anchorPrefix kind).existingNames before a later
  have hmem : anchor ∈ markdownHeadingAnchors u content [] anchorPrefix kind high maxLevel := by
    rw [markdownHeadingAnchors_eq, heq]
    exact mem_of_getElem? hget
  have hle := h anchor hmem
  have hlater : later.Pairwise fun a b => a.line ≤ b.line :=
    (pairwise_append.mp hsorted).2.1.tail
  obtain ⟨first, -, hfind, hfirst⟩ := exists_find_of_mem hlater hb (Nat.le_of_eq hlevel.symm)
  have hone := (hlines a (mem_append_right _ mem_cons_self)).1
  rw [hstart, hend, Extraction.endLine_of_find_some hfind] at hle
  omega

theorem endsKept_of_stable (hle : low ≤ high)
    (h : markdownHeadingAnchors u content [] anchorPrefix kind low maxLevel <+:
      markdownHeadingAnchors u content [] anchorPrefix kind high maxLevel) :
    EndsKept low.toNat (sectionHeadings u content high maxLevel) := by
  intro before heading later heq hdeeper next hnext
  by_contra hlevel
  have hlines : Numbered (splitlines content).length (sectionHeadings u content high maxLevel) :=
    sectionHeadings_numbered high
  have hsplit : sectionHeadings u content high maxLevel =
      before ++ heading :: (later ++ (sectionHeadings u content high maxLevel).drop low.toNat) := by
    rw [← cons_append, ← append_assoc, ← heq, take_append_drop]
  have hnew : (extraction content [] anchorPrefix kind).existing = [] := rfl
  obtain ⟨a, hlow, -, hendLow⟩ := getElem?_anchorsFrom (u := u) hnew 1
    (extraction content [] anchorPrefix kind).existingNames before heading later
  obtain ⟨b, hhigh, -, hendHigh⟩ := getElem?_anchorsFrom (u := u) hnew 1
    (extraction content [] anchorPrefix kind).existingNames before heading
    (later ++ (sectionHeadings u content high maxLevel).drop low.toNat)
  rw [markdownHeadingAnchors_eq, markdownHeadingAnchors_eq, ← take_sectionHeadings hle, heq] at h
  rw [← hsplit] at hhigh
  obtain ⟨rest, hrest⟩ := h
  have hindex := (List.getElem?_eq_some_iff.mp hlow).1
  have hsame : some b = some a := by
    rw [← hhigh, ← hlow, ← hrest, getElem?_append_left hindex]
  cases hsame
  rw [Extraction.endLine_of_all_deeper hdeeper] at hendLow
  rw [hsplit] at hlines
  have hlt : (extraction content [] anchorPrefix kind).endLine heading
      (later ++ (sectionHeadings u content high maxLevel).drop low.toNat) <
        (extraction content [] anchorPrefix kind).total := endLine_ne_total
    (mem_append_right later hnext) (Nat.le_of_not_lt hlevel)
    (fun other hother => hlines.of_append other (mem_cons_of_mem _ hother))
  omega

end

/-- The anchors of a text keep their promises, whatever anchors exist before, exactly if no two of
its headings have one line and one level, and the headings over the lower limit end no section that
the others leave open. -/
theorem anchors_sound_iff (u : Unicode) (content anchorPrefix kind : Text)
    (low high maxLevel : Int) :
    (∀ existing, Sound u content existing anchorPrefix kind low high maxLevel) ↔
      Apart (sectionHeadings u content high maxLevel) ∧
        (low ≤ high → EndsKept low.toNat (sectionHeadings u content high maxLevel)) := by
  constructor
  · intro h
    have hnew := h []
    exact ⟨apart_of_ranges fun a ha => (hnew.ranges a ha).2.1,
      fun hle => endsKept_of_stable hle (hnew.stable hle)⟩
  · rintro ⟨hapart, hkept⟩ existing
    constructor
    · exact ranges_of_apart hapart
    · rw [markdownHeadingAnchors_eq]
      exact anchorsFrom_laminar (sectionHeadings_line_sorted high) (sectionHeadings_numbered high)
    · rw [markdownHeadingAnchors_eq]
      exact anchorsFrom_nodup
    · exact anchors_unused
    · exact fun hle => stable_of_endsKept hle (hkept hle)

/-- For texts without references to characters, in ASCII. -/
def plain : Unicode := ⟨id, id⟩

theorem headings_unsound :
    ¬ Sound plain "# A\n===".toList [] "heading".toList "markdown_heading".toList 100 100 3 ∧
      ¬ Sound plain "# A\n# B".toList [] "heading".toList "markdown_heading".toList 1 2 3 := by
  constructor
  · intro h
    have hanchors : (markdownHeadingAnchors plain "# A\n===".toList [] "heading".toList
        "markdown_heading".toList 100 3).map (fun a => (a.startLine, a.endLine)) =
          [(1, 0), (1, 2)] := by decide +kernel
    have hfirst : ((1, 0) : Nat × Nat) ∈ (markdownHeadingAnchors plain "# A\n===".toList []
        "heading".toList "markdown_heading".toList 100 3).map
          fun a => (a.startLine, a.endLine) := by
      rw [hanchors]
      exact mem_cons_self
    obtain ⟨a, ha, hlines⟩ := mem_map.mp hfirst
    obtain ⟨hstart, hend⟩ := Prod.mk.inj hlines
    have hrange := h.ranges a ha
    omega
  · intro h
    have hlow : (markdownHeadingAnchors plain "# A\n# B".toList [] "heading".toList
        "markdown_heading".toList 1 3).map Anchor.endLine = [2] := by decide +kernel
    have hhigh : (markdownHeadingAnchors plain "# A\n# B".toList [] "heading".toList
        "markdown_heading".toList 2 3).map Anchor.endLine = [1, 2] := by decide +kernel
    have hstable := (h.stable (by decide)).map Anchor.endLine
    rw [hlow, hhigh] at hstable
    revert hstable
    decide

end Cognis.AnchoredOutput
