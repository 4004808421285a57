import Mathlib.Data.List.Infix
import Cognis.Library.SortByKey

universe u v w

/-! Folds in which an item comes later than its key, and prefixes of lists without repetition. -/

namespace LateInsert

open List

section

variable {σ : Type u} {α : Type v} {step : σ → α → σ} {R : σ → σ → Prop}

theorem foldl_late (hrefl : ∀ s, R s s) (htrans : ∀ s t u, R s t → R t u → R s u)
    (hcongr : ∀ s t a, R s t → R (step s a) (step t a)) {s : σ} {item : α} {earlier : List α}
    (hcommute : ∀ pre a, pre ++ [a] <+: earlier →
      R (step (step (pre.foldl step s) a) item) (step (step (pre.foldl step s) item) a)) :
    R (step (earlier.foldl step s) item) ((item :: earlier).foldl step s) := by
  induction earlier using reverseRecOn with
  | nil => exact hrefl _
  | append_singleton earlier a ih =>
    have hrest : R (step (earlier.foldl step s) item) ((item :: earlier).foldl step s) := by
      apply ih
      rintro pre b ⟨rest, rfl⟩
      exact hcommute pre b ⟨rest ++ [a], by simp⟩
    rw [← cons_append, foldl_append, foldl_append]
    exact htrans _ _ _ (hcommute earlier a (prefix_refl _)) (hcongr _ _ a hrest)

end

section

open SortByKey

variable {α : Type u} {β : Type v} [LinearOrder β] {key : α → β}

theorem sortBy_split {l : List α} (hl : (l.map key).Nodup) {b : β} (hb : ∀ a ∈ l, key a ≠ b) :
    sortBy key l =
      (sortBy key l).filter (fun a => decide (key a < b)) ++
        (sortBy key l).filter (fun a => decide (b < key a)) := by
  have hsorted := ascending_sortBy hl
  have hmem : ∀ a ∈ sortBy key l, key a ≠ b := fun a ha => hb a ((mem_sortBy key).mp ha)
  revert hsorted hmem
  generalize sortBy key l = items
  intro hsorted hmem
  induction items with
  | nil => rfl
  | cons a items ih =>
    obtain ⟨hfirst, hrest⟩ := pairwise_cons.mp hsorted
    have hsplit := ih hrest fun c hc => hmem c (mem_cons_of_mem _ hc)
    rcases lt_or_gt_of_ne (hmem a mem_cons_self) with hlt | hgt
    · rw [filter_cons_of_pos (by simpa using hlt),
        filter_cons_of_neg (by simpa using le_of_lt hlt), cons_append, ← hsplit]
    · have hall : ∀ c ∈ items, b < key c := fun c hc => hgt.trans (hfirst c hc)
      have hnone : items.filter (fun c => decide (key c < b)) = [] := by
        rw [filter_eq_nil_iff]
        intro c hc
        simpa using le_of_lt (hall c hc)
      have hevery : items.filter (fun c => decide (b < key c)) = items := by
        rw [filter_eq_self]
        intro c hc
        simpa using hall c hc
      rw [filter_cons_of_neg (by simpa using le_of_lt hgt), hnone,
        filter_cons_of_pos (by simpa using hgt), hevery, nil_append]

theorem sortBy_append_singleton {l : List α} (hl : (l.map key).Nodup) {a : α}
    (ha : ∀ c ∈ l, key c ≠ key a) :
    sortBy key (l ++ [a]) =
      (sortBy key l).filter (fun c => decide (key c < key a)) ++
        a :: (sortBy key l).filter (fun c => decide (key a < key c)) := by
  apply sortBy_eq_of_perm
  · have hsorted := ascending_sortBy hl
    refine pairwise_append.mpr ⟨hsorted.sublist filter_sublist,
      pairwise_cons.mpr ⟨?_, hsorted.sublist filter_sublist⟩, ?_⟩
    · intro c hc
      exact of_decide_eq_true (mem_filter.mp hc).2
    · intro c hc d hd
      have hbelow : key c < key a := of_decide_eq_true (mem_filter.mp hc).2
      rcases mem_cons.mp hd with rfl | hd
      · exact hbelow
      · exact hbelow.trans (of_decide_eq_true (mem_filter.mp hd).2)
  · refine (perm_append_singleton a l).trans ?_
    refine Perm.trans (Perm.cons a ?_) perm_middle.symm
    rw [← sortBy_split hl ha]
    exact (sortBy_perm key l).symm

end

section

variable {α : Type u} [DecidableEq α]

def appendNew (held items : List α) : List α :=
  items.foldl (fun held item => if held.contains item then held else held ++ [item]) held

theorem prefix_appendNew (held items : List α) : held <+: appendNew held items := by
  unfold appendNew
  induction items generalizing held with
  | nil => exact prefix_refl held
  | cons item items ih =>
    rw [foldl_cons]
    split
    · exact ih held
    · exact (prefix_append held [item]).trans (ih _)

theorem appendNew_eq_self {held items : List α} (h : ∀ a ∈ items, a ∈ held) :
    appendNew held items = held := by
  unfold appendNew
  induction items with
  | nil => rfl
  | cons item items ih =>
    rw [foldl_cons, if_pos (contains_iff_mem.mpr (h item mem_cons_self))]
    exact ih fun a ha => h a (mem_cons_of_mem _ ha)

theorem appendNew_of_prefix {held started items : List α} (hstarted : started <+: held)
    (hheld : held <+: appendNew started items) :
    appendNew held items = appendNew started items := by
  unfold appendNew at hheld ⊢
  induction items generalizing started with
  | nil =>
    obtain rfl : held = started := hheld.eq_of_length_le hstarted.length_le
    rfl
  | cons item items ih =>
    rw [foldl_cons] at hheld
    rw [foldl_cons, foldl_cons]
    by_cases hknown : started.contains item
    · have hmem : held.contains item :=
        contains_iff_mem.mpr (hstarted.subset (contains_iff_mem.mp hknown))
      rw [if_pos hknown] at hheld ⊢
      rw [if_pos hmem]
      exact ih hstarted hheld
    · rw [if_neg hknown] at hheld ⊢
      rcases prefix_or_prefix_of_prefix (prefix_appendNew (started ++ [item]) items) hheld
        with hlonger | hshorter
      · have hmem : held.contains item := by
          apply contains_iff_mem.mpr
          exact hlonger.subset (mem_append_right _ (mem_singleton.mpr rfl))
        rw [if_pos hmem]
        exact ih hlonger hheld
      · rcases prefix_concat_iff.mp hshorter with rfl | hwithin
        · rw [if_pos (contains_iff_mem.mpr (mem_append_right _ (mem_singleton.mpr rfl)))]
        · have hsame : held = started :=
            (hwithin.eq_of_length_le hstarted.length_le)
          rw [hsame, if_neg hknown]

end

end LateInsert
