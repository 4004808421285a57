import Mathlib.Data.List.Basic
import Mathlib.Data.List.Induction

universe u

/-! A text that is put together from fragments: the step appends the fragment where it is innocent,
and otherwise loses some of it. -/

namespace Reassembly

open List

variable {α : Type u} {step : List α → List α → List α × List α}
  {innocent : List α → List α → Prop}

def reassemble (step : List α → List α → List α × List α) (fragments : List (List α)) :
    List α × List α :=
  fragments.foldl (fun acc fragment =>
    let next := step acc.1 fragment
    (next.1, acc.2 ++ next.2)) ([], [])

theorem reassemble_append (step : List α → List α → List α × List α)
    (before : List (List α)) (fragment : List α) :
    reassemble step (before ++ [fragment]) = ((step (reassemble step before).1 fragment).1,
        (reassemble step before).2 ++ (step (reassemble step before).1 fragment).2) := by
  unfold reassemble
  rw [foldl_append]
  rfl

/-- A step that appends an innocent fragment, and loses characters of every other. -/
structure Loses (step : List α → List α → List α × List α)
    (innocent : List α → List α → Prop) : Prop where
  appends : ∀ text fragment, innocent text fragment →
    step text fragment = (text ++ fragment, fragment)
  loses : ∀ text fragment, ¬ innocent text fragment →
    (step text fragment).1.length < text.length + fragment.length

variable (h : Loses step innocent)
include h

theorem Loses.length_le (text fragment : List α) :
    (step text fragment).1.length ≤ text.length + fragment.length := by
  by_cases hinnocent : innocent text fragment
  · have happended := h.appends text fragment hinnocent
    exact Nat.le_of_eq (by rw [happended, length_append])
  · exact Nat.le_of_lt (h.loses text fragment hinnocent)

theorem Loses.length_reassemble_le (fragments : List (List α)) :
    (reassemble step fragments).1.length ≤ fragments.flatten.length := by
  induction fragments using reverseRecOn with
  | nil => exact Nat.le_refl 0
  | append_singleton before fragment ih =>
    have hstep := h.length_le (reassemble step before).1 fragment
    rw [reassemble_append, flatten_append, length_append, flatten_singleton]
    dsimp only
    omega

theorem Loses.innocent_of_length {fragments : List (List α)}
    (hlength : (reassemble step fragments).1.length = fragments.flatten.length) :
    reassemble step fragments = (fragments.flatten, fragments.flatten) ∧
      ∀ before fragment, before ++ [fragment] <+: fragments → innocent before.flatten fragment := by
  induction fragments using reverseRecOn with
  | nil =>
    refine ⟨rfl, ?_⟩
    intro before fragment hpre
    exact absurd (prefix_nil.mp hpre) (by simp)
  | append_singleton before fragment ih =>
    rw [reassemble_append, flatten_append, length_append, flatten_singleton] at hlength
    dsimp only at hlength
    have hbefore := h.length_reassemble_le before
    have hstep := h.length_le (reassemble step before).1 fragment
    obtain ⟨hsame, hall⟩ := ih (by omega)
    rw [hsame] at hlength
    dsimp only at hlength
    have hlast : innocent before.flatten fragment := by
      by_contra hguilty
      have hloses := h.loses before.flatten fragment hguilty
      omega
    constructor
    · rw [reassemble_append, hsame, h.appends _ _ hlast, flatten_append, flatten_singleton]
    · intro front last hpre
      rcases prefix_concat_iff.mp hpre with heq | hearlier
      · obtain ⟨rfl, hfragment⟩ := append_inj' heq rfl
        cases hfragment
        exact hlast
      · exact hall front last hearlier

theorem Loses.exact_iff (fragments : List (List α)) :
    reassemble step fragments = (fragments.flatten, fragments.flatten) ↔
      ∀ before fragment, before ++ [fragment] <+: fragments → innocent before.flatten fragment := by
  constructor
  · intro hexact
    exact (h.innocent_of_length (by rw [hexact])).2
  · intro hall
    induction fragments using reverseRecOn with
    | nil => rfl
    | append_singleton before fragment ih =>
      have hbefore := ih fun front last hpre =>
        hall front last (hpre.trans (prefix_append before [fragment]))
      rw [reassemble_append, hbefore, h.appends _ _ (hall before fragment (prefix_refl _)),
        flatten_append, flatten_singleton]

end Reassembly
