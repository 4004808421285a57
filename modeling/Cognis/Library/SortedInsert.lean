import Cognis.Library.SortByKey

universe u v

namespace SortedInsert

open List SortByKey

variable {α : Type u} {β : Type v} [LinearOrder β] (key : α → β)

/-- The binary search loop: the first position of `[low, high)` whose key exceeds `x`'s.
`fuel` bounds its rounds. -/
def searchAfter (items : List α) (x : α) : Nat → Nat → Nat → Nat
  | 0, low, _ => low
  | fuel + 1, low, high =>
    if low < high then
      let mid := (low + high) / 2
      match items[mid]? with
      | none => low
      | some y => if key y ≤ key x then searchAfter items x fuel (mid + 1) high
        else searchAfter items x fuel low mid
    else low

/-- The position after the elements whose key is at most `x`'s. -/
def insertionIndex (items : List α) (x : α) : Nat :=
  searchAfter key items x items.length 0 items.length

def insertSorted (items : List α) (x : α) : List α :=
  items.take (insertionIndex key items x) ++ x :: items.drop (insertionIndex key items x)

theorem insertSorted_perm (items : List α) (x : α) :
    (insertSorted key items x).Perm (x :: items) := by
  refine perm_middle.trans (Perm.cons x ?_)
  rw [take_append_drop]

variable {key} {items : List α}

@[simp] theorem mem_insertSorted {x y : α} :
    y ∈ insertSorted key items x ↔ y = x ∨ y ∈ items := by
  rw [(insertSorted_perm key items x).mem_iff, mem_cons]

/-- Everything before `low` is at most `x`, everything from `high` on exceeds it. -/
def Brackets (key : α → β) (items : List α) (x : α) (low high : Nat) : Prop :=
  low ≤ high ∧ high ≤ items.length ∧ (∀ y ∈ items.take low, key y ≤ key x) ∧
    ∀ y ∈ items.drop high, key x < key y

theorem searchAfter_brackets {x : α} (hs : items.Pairwise (fun a b => key a ≤ key b))
    (fuel low high : Nat) (h : Brackets key items x low high) (hf : high - low ≤ fuel) :
    Brackets key items x (searchAfter key items x fuel low high)
      (searchAfter key items x fuel low high) := by
  induction fuel generalizing low high with
  | zero =>
    obtain rfl : low = high := by have := h.1; omega
    exact h
  | succ fuel ih =>
    unfold searchAfter
    split_ifs with hlt
    · obtain ⟨_, hlen, hbelow, habove⟩ := h
      have hmid : (low + high) / 2 < items.length := by omega
      have hsplit : items = items.take ((low + high) / 2) ++
          items[(low + high) / 2] :: items.drop ((low + high) / 2 + 1) := by
        rw [getElem_cons_drop, take_append_drop]
      have hord := hs
      rw [hsplit, pairwise_append, pairwise_cons] at hord
      simp only [getElem?_eq_getElem hmid]
      split_ifs with hy
      · refine ih _ _ ⟨by omega, hlen, fun y hmem => ?_, habove⟩ (by omega)
        rw [take_add_one, getElem?_eq_getElem hmid] at hmem
        rcases mem_append.mp hmem with hmem | hmem
        · exact (hord.2.2 y hmem _ mem_cons_self).trans hy
        · simp only [Option.toList_some, mem_singleton] at hmem
          exact hmem ▸ hy
      · refine ih _ _ ⟨by omega, by omega, hbelow, fun y hmem => ?_⟩ (by omega)
        rw [← getElem_cons_drop hmid] at hmem
        rcases mem_cons.mp hmem with rfl | hmem
        · exact lt_of_not_ge hy
        · exact lt_of_lt_of_le (lt_of_not_ge hy) (hord.2.1.1 y hmem)
    · obtain rfl : low = high := by have := h.1; omega
      exact h

theorem insertionIndex_brackets (hs : items.Pairwise (fun a b => key a ≤ key b)) (x : α) :
    Brackets key items x (insertionIndex key items x) (insertionIndex key items x) :=
  searchAfter_brackets hs items.length 0 items.length
    ⟨Nat.zero_le _, le_refl _, by simp, by simp⟩ (by omega)

theorem ascending_insertSorted (hs : Ascending key items) {x : α}
    (hx : ∀ y ∈ items, key y ≠ key x) : Ascending key (insertSorted key items x) := by
  obtain ⟨-, -, hbelow, habove⟩ := insertionIndex_brackets (hs.imp le_of_lt) x
  have hcut := hs
  rw [Ascending, ← take_append_drop (insertionIndex key items x) items,
    pairwise_append] at hcut
  rw [Ascending, insertSorted, pairwise_append, pairwise_cons]
  refine ⟨hcut.1, ⟨habove, hcut.2.1⟩, fun a ha b hb => ?_⟩
  have hax : key a < key x := lt_of_le_of_ne (hbelow a ha) (hx a (mem_of_mem_take ha))
  rcases mem_cons.mp hb with rfl | hb
  · exact hax
  · exact hax.trans (habove b hb)

end SortedInsert
