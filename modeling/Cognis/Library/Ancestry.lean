import Mathlib.Logic.Function.Basic
import Mathlib.Logic.Relation

universe u v

/-! Forests given by the parent of each node: descent, and hanging on a leaf. -/

namespace Ancestry

variable {ι : Type u} {parent : ι → Option ι} {x y z n : ι}

/-- `x` descends from `y` by one link or more. -/
def Descends (parent : ι → Option ι) : ι → ι → Prop :=
  Relation.TransGen fun x y => parent x = some y

theorem Descends.of_link (h : parent x = some y) : Descends parent x y :=
  Relation.TransGen.single h

theorem Descends.trans (hxy : Descends parent x y) (hyz : Descends parent y z) :
    Descends parent x z :=
  Relation.TransGen.trans hxy hyz

theorem descends_iff :
    Descends parent x y ↔ ∃ p, parent x = some p ∧ (p = y ∨ Descends parent p y) := by
  unfold Descends
  rw [Relation.TransGen.head'_iff]
  apply exists_congr
  intro p
  rw [Relation.reflTransGen_iff_eq_or_transGen, @eq_comm _ y p]

theorem not_descends_of_root (h : parent x = none) : ¬ Descends parent x y := by
  intro hxy
  obtain ⟨p, hp, -⟩ := descends_iff.mp hxy
  rw [h] at hp
  cases hp

theorem Descends.lift {P : ι → Prop} (hlink : ∀ x y, parent x = some y → P x → P y)
    (h : Descends parent x y) (hx : P x) : P y := by
  induction h with
  | single hxy => exact hlink _ _ hxy hx
  | tail _ hyz ih => exact hlink _ _ hyz ih

section

variable [DecidableEq ι] {p : Option ι}

theorem descends_update_of_ne (hleaf : ∀ x, parent x ≠ some n) (hx : x ≠ n) :
    Descends (Function.update parent n p) x y ↔ Descends parent x y := by
  constructor
  · intro h
    induction h using Relation.TransGen.head_induction_on with
    | single hxy =>
      rw [Function.update_of_ne hx] at hxy
      exact .of_link hxy
    | @head x z hxz _ ih =>
      rw [Function.update_of_ne hx] at hxz
      have hz : z ≠ n := fun heq => hleaf x (heq ▸ hxz)
      exact (Descends.of_link hxz).trans (ih hz)
  · intro h
    induction h using Relation.TransGen.head_induction_on with
    | single hxy => exact .of_link (by rw [Function.update_of_ne hx, hxy])
    | @head x z hxz _ ih =>
      have hz : z ≠ n := fun heq => hleaf x (heq ▸ hxz)
      have hlink : Function.update parent n p x = some z :=
        (Function.update_of_ne hx p parent).trans hxz
      exact (Descends.of_link hlink).trans (ih hz)

theorem descends_update_self (hleaf : ∀ x, parent x ≠ some n) (hp : p ≠ some n) :
    Descends (Function.update parent n p) n y ↔
      ∃ q, p = some q ∧ (q = y ∨ Descends parent q y) := by
  rw [descends_iff, Function.update_self]
  apply exists_congr
  intro q
  apply and_congr_right
  intro hq
  have hne : q ≠ n := fun heq => hp (heq ▸ hq)
  rw [descends_update_of_ne hleaf hne]

end

end Ancestry
