import Mathlib.Data.List.Basic

universe u v w z

/-! Computations that make checks in order and fail with the first that has a fault. -/

namespace Checks

open List

variable {γ : Type u} {ε : Type v} {α : Type w} {β : Type z} {fault : γ → Option ε}

/-- The value `v` after the checks, or the first fault. -/
def outcome (fault : γ → Option ε) (checks : List γ) (v : α) : Except ε α :=
  match checks.findSome? fault with
  | some err => .error err
  | none => .ok v

theorem outcome_singleton (c : γ) (v : α) : outcome fault [c] v =
    match fault c with
    | some err => .error err
    | none => .ok v := by
  unfold outcome
  rw [findSome?_singleton]

variable {f : α → Except ε β}

theorem bind_outcome {checks more : List γ} {v : α} {r : β} (h : f v = outcome fault more r) :
    (outcome fault checks v).bind f = outcome fault (checks ++ more) r := by
  unfold outcome at h ⊢
  rw [findSome?_append]
  cases checks.findSome? fault with
  | none => exact h
  | some err => rfl

variable {checks : List γ}

theorem bind_outcome_ok {v : α} {r : β}
    (h : f v = .ok r) : (outcome fault checks v).bind f = outcome fault checks r := by
  have hmore : f v = outcome fault [] r := h
  rw [bind_outcome hmore, append_nil]

theorem outcome_ok_iff {v : α} :
    (∃ r, outcome fault checks v = .ok r) ↔ ∀ c ∈ checks, fault c = none := by
  unfold outcome
  rw [← findSome?_eq_none_iff]
  cases checks.findSome? fault with
  | none | some err => simp

theorem outcome_error_iff {v : α} {err : ε} :
    outcome fault checks v = .error err ↔ checks.findSome? fault = some err := by
  unfold outcome
  cases checks.findSome? fault with
  | none | some => simp

theorem findSome?_eq_bind (checks : List γ) : checks.findSome? fault =
    (checks.find? fun c => (fault c).isSome).bind fault := by
  induction checks with
  | nil => rfl
  | cons c checks ih =>
    rw [findSome?_cons, find?_cons]
    cases hfault : fault c with
    | none => exact ih
    | some err => simp [hfault]

def anyTrue : List (Except ε Bool) → Except ε Bool
  | [] => .ok false
  | .error err :: _ => .error err
  | .ok true :: _ => .ok true
  | .ok false :: rs => anyTrue rs

def Shielded (rs : List (Except ε Bool)) : Prop :=
  ∀ before err after, rs = before ++ .error err :: after → .ok true ∈ after → .ok true ∈ before

variable {rs : List (Except ε Bool)}

theorem shielded_cons_false :
    Shielded (.ok false :: rs) ↔ Shielded rs := by
  constructor
  · intro h before err after hrs htrue
    have hbefore := h (.ok false :: before) err after (by rw [hrs, cons_append]) htrue
    simpa using hbefore
  · intro h before err after hrs htrue
    cases before with
    | nil => cases hrs
    | cons r before =>
      obtain ⟨-, htail⟩ := List.cons.inj hrs
      exact mem_cons_of_mem _ (h before err after htail htrue)

theorem shielded_cons_true (rs : List (Except ε Bool)) : Shielded (.ok true :: rs) := by
  intro before err after hrs _
  cases before with
  | nil => cases hrs
  | cons =>
    obtain ⟨rfl, -⟩ := List.cons.inj hrs
    exact mem_cons_self

theorem shielded_cons_error {err : ε} :
    Shielded (.error err :: rs) ↔ .ok true ∉ rs := by
  constructor
  · intro h htrue
    have hnone := h [] err rs rfl htrue
    cases hnone
  · intro h before err' after hrs htrue
    cases before with
    | nil =>
      obtain ⟨-, rfl⟩ := List.cons.inj hrs
      exact absurd htrue h
    | cons =>
      obtain ⟨-, rfl⟩ := List.cons.inj hrs
      exact absurd (mem_append_right _ (mem_cons_of_mem _ htrue)) h

theorem anyTrue_iff_mem_iff (rs : List (Except ε Bool)) :
    (anyTrue rs = .ok true ↔ .ok true ∈ rs) ↔ Shielded rs := by
  induction rs with
  | nil =>
    have hnil : Shielded ([] : List (Except ε Bool)) := by
      intro before err after hrs
      cases before <;> cases hrs
    simp [anyTrue, hnil]
  | cons r rs ih =>
    match r with
    | .error err =>
      rw [shielded_cons_error]
      simp [anyTrue]
    | .ok true => simp [anyTrue, shielded_cons_true]
    | .ok false =>
      rw [shielded_cons_false, ← ih]
      simp [anyTrue]

end Checks
