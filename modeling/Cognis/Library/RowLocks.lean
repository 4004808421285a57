import Mathlib.Logic.Function.Basic
import Mathlib.Tactic.SplitIfs

namespace Cognis

/-- A table whose writers lock rows: the committed rows, and the version that a transaction has
written and not committed. -/
structure LockedTable (κ ρ τ : Type*) where
  committed : κ → Option ρ
  held : κ → Option (τ × ρ)

namespace LockedTable

variable {κ ρ τ : Type*} {t t' : LockedTable κ ρ τ} {key other : κ} {p : ρ → Bool} {f : ρ → ρ}
  {task : τ} {row : ρ} {matched : Bool}

/-- The condition fails on the committed row, so that an update that begins now finds nothing. -/
def misses (t : LockedTable κ ρ τ) (key : κ) (p : ρ → Bool) : Bool :=
  !(t.committed key).any p

def Version (t : LockedTable κ ρ τ) (key : κ) (row : ρ) : Prop :=
  t.committed key = some row ∨ ∃ task, t.held key = some (task, row)

theorem of_misses (h : t.misses key p) : ∀ row, t.committed key = some row → p row = false := by
  intro row hrow
  unfold misses at h
  rw [hrow] at h
  simpa using h

section

variable [DecidableEq κ]

def hold (t : LockedTable κ ρ τ) (task : τ) (key : κ) (row : ρ) : LockedTable κ ρ τ :=
  { t with held := Function.update t.held key (some (task, row)) }

def put (t : LockedTable κ ρ τ) (key : κ) (row : ρ) : LockedTable κ ρ τ :=
  { t with committed := Function.update t.committed key (some row) }

/-- An update of one row that waits for the lock, and then checks its condition on the row as it is.
It tells if the condition held; `none` while the row is locked. -/
def update (t : LockedTable κ ρ τ) (task : τ) (key : κ) (p : ρ → Bool) (f : ρ → ρ) :
    Option (Bool × LockedTable κ ρ τ) :=
  match t.held key with
  | some _ => none
  | none =>
    match t.committed key with
    | none => some (false, t)
    | some row =>
      if p row then some (true, t.hold task key (f row)) else some (false, t)

theorem of_update_true (h : t.update task key p f = some (true, t')) :
    t.held key = none ∧ ∃ row, t.committed key = some row ∧ p row ∧
      t' = t.hold task key (f row) := by
  unfold update at h
  cases hheld : t.held key with
  | some =>
    rw [hheld] at h
    cases h
  | none =>
    rw [hheld] at h
    cases hrow : t.committed key with
    | none =>
      rw [hrow] at h
      cases h
    | some row =>
      rw [hrow] at h
      dsimp only at h
      split_ifs at h with hp
      · cases h
        exact ⟨rfl, row, rfl, hp, rfl⟩
      · cases h

theorem of_update_false (h : t.update task key p f = some (false, t')) :
    t' = t ∧ ∀ row, t.committed key = some row → p row = false := by
  unfold update at h
  cases hheld : t.held key with
  | some =>
    rw [hheld] at h
    cases h
  | none =>
    rw [hheld] at h
    cases hrow : t.committed key with
    | none =>
      rw [hrow] at h
      cases h
      refine ⟨rfl, ?_⟩
      intro row hsome
      cases hsome
    | some row =>
      rw [hrow] at h
      dsimp only at h
      split_ifs at h with hp
      · cases h
      · cases h
        refine ⟨rfl, ?_⟩
        intro row' hsome
        cases hsome
        exact Bool.eq_false_iff.mpr hp

def write (t : LockedTable κ ρ τ) (key : κ) (row : ρ) : Option (LockedTable κ ρ τ) :=
  match t.held key with
  | some _ => none
  | none => some (t.put key row)

theorem of_write (h : t.write key row = some t') : t.held key = none ∧ t' = t.put key row := by
  unfold write at h
  cases hheld : t.held key with
  | some =>
    rw [hheld] at h
    cases h
  | none =>
    rw [hheld] at h
    cases h
    exact ⟨rfl, rfl⟩

end

variable [DecidableEq κ] [DecidableEq τ]

def finish (t : LockedTable κ ρ τ) (task : τ) (key : κ) (applied : Bool) : LockedTable κ ρ τ :=
  match t.held key with
  | some (holder, row) =>
    if holder = task then
      { committed := if applied then Function.update t.committed key (some row) else t.committed
        held := Function.update t.held key none }
    else t
  | none => t

theorem finish_of_held (h : t.held key = some (task, row)) : t.finish task key matched =
      { committed := if matched then Function.update t.committed key (some row) else t.committed
        held := Function.update t.held key none } := by
  unfold finish
  rw [h]
  dsimp only
  rw [if_pos rfl]

theorem finish_of_not_held (h : ∀ row, t.held key ≠ some (task, row)) :
    t.finish task key matched = t := by
  unfold finish
  cases hheld : t.held key with
  | none => rfl
  | some version =>
    obtain ⟨holder, row⟩ := version
    dsimp only
    rw [if_neg]
    intro hmine
    exact h row (by rw [hheld, hmine])

omit [DecidableEq τ] in
theorem hold_held {holder : τ} {found : ρ}
    (h : (t.hold task key row).held other = some (holder, found)) :
    (other = key ∧ holder = task ∧ found = row) ∨ t.held other = some (holder, found) := by
  simp only [hold, Function.update_apply] at h
  split_ifs at h with heq
  · cases h
    exact .inl ⟨heq, rfl, rfl⟩
  · exact .inr h

omit [DecidableEq τ] in
theorem put_committed {found : ρ} (h : (t.put key row).committed other = some found) :
    (other = key ∧ found = row) ∨ t.committed other = some found := by
  simp only [put, Function.update_apply] at h
  split_ifs at h with heq
  · cases h
    exact .inl ⟨heq, rfl⟩
  · exact .inr h

theorem finish_committed (h : (t.finish task key matched).committed other = some row) :
    t.committed other = some row ∨
      (other = key ∧ matched ∧ t.held key = some (task, row)) := by
  by_cases hmine : ∃ row, t.held key = some (task, row)
  · obtain ⟨row', hheld⟩ := hmine
    rw [finish_of_held hheld] at h
    cases hmatched : matched with
    | false =>
      rw [hmatched] at h
      exact .inl h
    | true =>
      rw [hmatched] at h
      dsimp only at h
      rw [if_pos rfl] at h
      by_cases heq : other = key
      · rw [heq, Function.update_self] at h
        cases h
        exact .inr ⟨heq, rfl, hheld⟩
      · rw [Function.update_of_ne heq] at h
        exact .inl h
  · rw [finish_of_not_held fun row' hheld => hmine ⟨row', hheld⟩] at h
    exact .inl h

theorem finish_held {version : τ × ρ} : (t.finish task key matched).held other = some version ↔
      t.held other = some version ∧ ¬ (other = key ∧ version.1 = task) := by
  by_cases hmine : ∃ row, t.held key = some (task, row)
  · obtain ⟨row', hheld⟩ := hmine
    rw [finish_of_held hheld]
    dsimp only
    by_cases heq : other = key
    · rw [heq, Function.update_self, hheld]
      constructor
      · intro h
        cases h
      · intro h
        exact absurd ⟨rfl, by rw [← Option.some.inj h.1]⟩ h.2
    · rw [Function.update_of_ne heq]
      constructor
      · intro h
        exact ⟨h, fun h' => heq h'.1⟩
      · intro h
        exact h.1
  · rw [finish_of_not_held fun row' hheld => hmine ⟨row', hheld⟩]
    constructor
    · intro h
      refine ⟨h, ?_⟩
      intro h'
      rw [h'.1] at h
      exact hmine ⟨version.2, by rw [h, ← h'.2]⟩
    · intro h
      exact h.1

theorem finish_applied (h : t.held key = some (task, row)) :
    (t.finish task key true).committed key = some row := by
  rw [finish_of_held h]
  exact Function.update_self key (some row) t.committed

theorem finish_committed_eq
    (hnot : other = key → matched → ∀ row, t.held key ≠ some (task, row)) :
    (t.finish task key matched).committed other = t.committed other := by
  by_cases hmine : ∃ row, t.held key = some (task, row)
  · obtain ⟨row, hheld⟩ := hmine
    rw [finish_of_held hheld]
    cases hmatched : matched with
    | false => rfl
    | true =>
      have hne : other ≠ key := fun heq => hnot heq hmatched row hheld
      dsimp only
      rw [if_pos rfl, Function.update_of_ne hne]
  · rw [finish_of_not_held fun row hheld => hmine ⟨row, hheld⟩]

end LockedTable

end Cognis
