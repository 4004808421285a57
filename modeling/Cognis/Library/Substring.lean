import Mathlib.Data.List.Basic

/-! Searching a list for a part of it, from the left and without overlaps. -/

namespace Substring

open List

variable {α : Type} [DecidableEq α] {pattern text : List α} {i j : Nat}

/-- `str.find` -/
def find (pattern : List α) : List α → Option Nat
  | [] => if pattern = [] then some 0 else none
  | c :: text => if pattern.isPrefixOf (c :: text) then some 0 else (find pattern text).map (· + 1)

def countFrom (pattern : List α) : Nat → List α → Nat
  | 0, _ => 0
  | n + 1, text =>
    match find pattern text with
    | none => 0
    | some i => countFrom pattern n (text.drop (i + pattern.length)) + 1

/-- `str.count`: the occurrences that do not overlap. -/
def count (pattern text : List α) : Nat := countFrom pattern (text.length + 1) text

def replaceFirst (pattern new text : List α) : List α :=
  match find pattern text with
  | none => text
  | some i => text.take i ++ new ++ text.drop (i + pattern.length)

def replaceFrom (pattern new : List α) : Nat → List α → List α
  | 0, text => text
  | n + 1, text =>
    match find pattern text with
    | none => text
    | some i => text.take i ++ new ++ replaceFrom pattern new n (text.drop (i + pattern.length))

/-- `str.replace` of a pattern that is not empty. -/
def replace (pattern new text : List α) : List α := replaceFrom pattern new (text.length + 1) text

def Occurs (pattern text : List α) (i : Nat) : Prop := i ≤ text.length ∧ pattern <+: text.drop i

/-- Two occurrences of the pattern share a part of the text. -/
def Overlapping (pattern text : List α) : Prop :=
  ∃ i j, i < j ∧ j < i + pattern.length ∧ Occurs pattern text i ∧ Occurs pattern text j

theorem not_occurs_of_find (h : find pattern text = none) : ¬ Occurs pattern text i := by
  induction text generalizing i with
  | nil =>
    intro hi
    have hnil : pattern = [] := by simpa using hi.2
    simp [find, hnil] at h
  | cons c text ih =>
    unfold find at h
    split_ifs at h with hstarts
    intro hi
    cases i with
    | zero => exact hstarts <| isPrefixOf_iff_prefix.mpr hi.2
    | succ i => exact ih (by simpa using h) ⟨by simpa using hi.1, hi.2⟩

theorem find_spec (h : find pattern text = some i) :
    Occurs pattern text i ∧ ∀ j, Occurs pattern text j → i ≤ j := by
  induction text generalizing i with
  | nil =>
    unfold find at h
    split_ifs at h with hnil
    cases h
    exact ⟨by simp [Occurs, hnil], fun _ _ => Nat.zero_le _⟩
  | cons c text ih =>
    unfold find at h
    split_ifs at h with hstarts
    · cases h
      exact ⟨⟨Nat.zero_le _, isPrefixOf_iff_prefix.mp hstarts⟩, fun _ _ => Nat.zero_le _⟩
    · obtain ⟨k, hk, rfl⟩ := Option.map_eq_some_iff.mp h
      obtain ⟨hoccurs, hfirst⟩ := ih hk
      refine ⟨⟨by simpa using hoccurs.1, hoccurs.2⟩, ?_⟩
      intro j hj
      cases j with
      | zero => exact (hstarts <| isPrefixOf_iff_prefix.mpr hj.2).elim
      | succ j => exact Nat.succ_le_succ (hfirst j ⟨by simpa using hj.1, hj.2⟩)

theorem not_overlapping_of_count_zero (h : count pattern text = 0) :
    ¬ Overlapping pattern text := by
  rintro ⟨i, j, -, -, hoccurs, -⟩
  unfold count countFrom at h
  cases hfind : find pattern text with
  | none => exact not_occurs_of_find hfind hoccurs
  | some k => simp [hfind] at h

/-- Where the pattern is counted once, all of its occurrences overlap the first one. -/
theorem occurs_of_count_one (h : count pattern text = 1) : ∃ i, find pattern text = some i ∧
    ∀ j, Occurs pattern text j → i ≤ j ∧ (j = i ∨ j < i + pattern.length) := by
  unfold count countFrom at h
  cases hfind : find pattern text with
  | none => simp [hfind] at h
  | some i =>
    obtain ⟨_, hfirst⟩ := find_spec hfind
    have hrest : countFrom pattern text.length (text.drop (i + pattern.length)) = 0 := by
      simpa [hfind] using h
    refine ⟨i, rfl, fun j hj => ⟨hfirst j hj, ?_⟩⟩
    by_contra hlater
    obtain ⟨n, hn⟩ : ∃ n, text.length = n + 1 := by
      refine ⟨text.length - 1, ?_⟩
      have hbound := hj.1
      have hle := hfirst j hj
      omega
    rw [hn] at hrest
    unfold countFrom at hrest
    cases hagain : find pattern (text.drop (i + pattern.length)) with
    | some k => simp [hagain] at hrest
    | none =>
      apply not_occurs_of_find (i := j - (i + pattern.length)) hagain
      have hbound := hj.1
      constructor
      · rw [length_drop]
        omega
      · rw [drop_drop, show i + pattern.length + (j - (i + pattern.length)) = j by omega]
        exact hj.2

/-- A pattern that is counted once occurs once, unless its occurrences overlap. -/
theorem unique_iff_of_count_one (h : count pattern text = 1) (hfind : find pattern text = some i) :
    (∀ j, Occurs pattern text j → j = i) ↔ ¬ Overlapping pattern text := by
  obtain ⟨first, hfirst, hall⟩ := occurs_of_count_one h
  cases hfind.symm.trans hfirst
  constructor
  · rintro hunique ⟨j, k, hless, -, hj, hk⟩
    have hsame := (hunique j hj).trans (hunique k hk).symm
    omega
  · intro hnone j hj
    obtain ⟨hle, heq | hless⟩ := hall j hj
    · exact heq
    · by_contra hne
      exact hnone ⟨i, j, by omega, hless, (find_spec hfind).1, hj⟩

end Substring
