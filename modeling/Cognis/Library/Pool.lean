import Mathlib.Data.List.Pairwise
import Mathlib.Data.List.Perm.Basic

universe u

/-! A pool of concurrent processes, kept as a list: one process moves on or ends
at a time and the others stay as they are. -/

namespace Pool

open List

variable {α : Type u} {l : List α} {i : Nat} {x : Option α}

/-- The pool after process `i` has moved on to `x`, or ended. -/
def update (l : List α) (i : Nat) (x : Option α) : List α :=
  match x with
  | some a => l.set i a
  | none => l.eraseIdx i

theorem mem_update {b : α} (h : b ∈ update l i x) : x = some b ∨ ∃ j, j ≠ i ∧ l[j]? = some b := by
  cases x with
  | some a =>
    obtain ⟨j, hj⟩ := mem_iff_getElem?.mp h
    rw [update, getElem?_set] at hj
    by_cases hij : i = j
    · rw [if_pos hij] at hj
      split at hj
      · exact .inl hj
      · cases hj
    · rw [if_neg hij] at hj
      exact .inr ⟨j, Ne.symm hij, hj⟩
  | none =>
    obtain ⟨j, hj⟩ := mem_iff_getElem?.mp h
    rw [update, getElem?_eraseIdx] at hj
    split at hj
    · exact .inr ⟨j, by omega, hj⟩
    · exact .inr ⟨j + 1, by omega, hj⟩

theorem mem_update_of_ne {j : Nat} {b : α} (hij : j ≠ i) (hj : l[j]? = some b) :
    b ∈ update l i x := by
  cases x with
  | some a =>
    rw [update, mem_iff_getElem?]
    exact ⟨j, by rw [getElem?_set_ne (Ne.symm hij), hj]⟩
  | none =>
    rw [update, mem_eraseIdx_iff_getElem?]
    exact ⟨j, hij, hj⟩

theorem mem_update_self {a : α} (hi : i < l.length) : a ∈ update l i (some a) :=
  mem_set hi a

theorem mem_of_mem_eraseIdx {b : α} (h : b ∈ l.eraseIdx i) : b ∈ l :=
  (eraseIdx_sublist l i).subset h

variable {R : α → α → Prop}

/-- A symmetric relation between the processes survives a step if the moved
process has it to every other one. -/
theorem pairwise_update (hsymm : ∀ a b, R a b → R b a) (h : l.Pairwise R)
    (hx : ∀ a, x = some a → ∀ j b, j ≠ i → l[j]? = some b → R a b) :
    (update l i x).Pairwise R := by
  cases x with
  | none => exact h.sublist (eraseIdx_sublist l i)
  | some a =>
    rw [update, pairwise_iff_getElem]
    intro j k hj hk hjk
    rw [length_set] at hj hk
    rw [getElem_set, getElem_set]
    by_cases hij : i = j
    · have hik : ¬ i = k := by omega
      rw [if_pos hij, if_neg hik]
      exact hx a rfl k l[k] (Ne.symm hik) (getElem?_eq_getElem hk)
    · rw [if_neg hij]
      by_cases hik : i = k
      · rw [if_pos hik]
        exact hsymm _ _ (hx a rfl j l[j] (Ne.symm hij) (getElem?_eq_getElem hj))
      · rw [if_neg hik]
        exact pairwise_iff_getElem.mp h j k hj hk hjk

theorem countP_update (p : α → Bool) {a : α} (hi : l[i]? = some a) :
    (update l i x).countP p + (if p a then 1 else 0) = l.countP p + (if x.any p then 1 else 0) := by
  obtain ⟨hlt, rfl⟩ := List.getElem?_eq_some_iff.mp hi
  have hpos : (if p l[i] then 1 else 0) ≤ l.countP p := by
    split
    · rename_i hp
      exact countP_pos_iff.mpr ⟨l[i], getElem_mem hlt, hp⟩
    · omega
  cases x with
  | some b =>
    rw [update, countP_set hlt, Option.any_some]
    omega
  | none =>
    have hperm := (getElem_cons_eraseIdx_perm hlt).countP_eq p
    rw [countP_cons] at hperm
    rw [update, Option.any_none]
    simpa using hperm

theorem rel_of_ne (hsymm : ∀ a b, R a b → R b a) (h : l.Pairwise R) {j : Nat} {a b : α}
    (hij : i ≠ j) (hi : l[i]? = some a) (hj : l[j]? = some b) : R a b := by
  obtain ⟨hilt, rfl⟩ := List.getElem?_eq_some_iff.mp hi
  obtain ⟨hjlt, rfl⟩ := List.getElem?_eq_some_iff.mp hj
  rcases Nat.lt_or_gt_of_ne hij with hlt | hgt
  · exact pairwise_iff_getElem.mp h i j hilt hjlt hlt
  · exact hsymm _ _ (pairwise_iff_getElem.mp h j i hjlt hilt hgt)

end Pool
