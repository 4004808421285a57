import Mathlib.Data.List.Basic

universe u

/-! Substitution of what a matcher matches, from the left and without overlap. -/

namespace Substitution

open List

variable {α : Type u}

/-- From the element before a position and the list from there: what replaces the match, and how
many elements it has after the first. -/
abbrev Matcher (α : Type u) : Type u := Option α → List α → Option (List α × Nat)

def sub (m : Matcher α) (before : Option α) : List α → List α
  | [] => []
  | c :: rest =>
    match m before (c :: rest) with
    | some (replacement, more) =>
      replacement ++ sub m (c :: rest.take more).getLast? (rest.drop more)
    | none => c :: sub m (some c) rest
termination_by text => text.length
decreasing_by
  all_goals
    simp only [length_drop, length_cons]
    omega

variable {m : Matcher α} {before before' : Option α} {c : α} {rest replacement : List α}
  {more : Nat}

@[simp] theorem sub_nil : sub m before [] = [] := by
  unfold sub
  rfl

theorem sub_cons_none (h : m before (c :: rest) = none) :
    sub m before (c :: rest) = c :: sub m (some c) rest := by
  rw [sub, h]

theorem sub_cons_some (h : m before (c :: rest) = some (replacement, more)) :
    sub m before (c :: rest) =
      replacement ++ sub m (c :: rest.take more).getLast? (rest.drop more) := by
  rw [sub, h]

theorem sub_congr {text : List α} (h : m before text = m before' text) :
    sub m before text = sub m before' text := by
  cases text with
  | nil => rw [sub_nil, sub_nil]
  | cons c rest =>
    cases hmatch : m before' (c :: rest) with
    | none => rw [sub_cons_none hmatch, sub_cons_none (h.trans hmatch)]
    | some => rw [sub_cons_some hmatch, sub_cons_some (h.trans hmatch)]

theorem sub_append {lead text : List α}
    (h : ∀ tail, tail <:+ lead → tail ≠ [] → ∀ before, m before (tail ++ text) = none) :
    sub m before (lead ++ text) = lead ++ sub m (lead.getLast?.or before) text := by
  induction lead generalizing before with
  | nil => rfl
  | cons c lead ih =>
    have hnone : m before (c :: (lead ++ text)) = none :=
      h (c :: lead) (suffix_refl _) (cons_ne_nil c lead) before
    have hlead : ∀ tail, tail <:+ lead → tail ≠ [] → ∀ before, m before (tail ++ text) = none := by
      intro tail htail
      exact h tail (htail.trans (suffix_cons c lead))
    rw [cons_append, sub_cons_none hnone, ih hlead]
    cases lead with
    | nil => rfl
    | cons => simp [getLast?_cons]

end Substitution
