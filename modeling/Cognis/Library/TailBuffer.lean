import Mathlib.Data.List.Basic

namespace Cognis.TailBuffer

open List

variable {α : Type*} {limit base cursor : Nat} {all items : List α}

/-- A buffer that holds the last items of a sequence, at most `limit` of them, from `base` on. -/
structure Holds (limit : Nat) (all items : List α) (base : Nat) : Prop where
  base_eq : base = all.length - limit
  items_eq : items = all.drop base

theorem holds_nil : Holds limit ([] : List α) [] 0 where
  base_eq := by simp
  items_eq := rfl

namespace Holds

variable (h : Holds limit all items base)
include h

theorem base_le : base ≤ all.length := by
  rw [h.base_eq]
  exact Nat.sub_le _ _

theorem base_add_length : base + items.length = all.length := by
  have hle : base ≤ all.length := h.base_le
  rw [h.items_eq, length_drop]
  omega

theorem push (more : List α) :
    Holds limit (all ++ more) ((items ++ more).drop ((items ++ more).length - limit))
      (base + ((items ++ more).length - limit)) where
  base_eq := by
    have hbase : base = all.length - limit := h.base_eq
    have hlength : base + items.length = all.length := h.base_add_length
    rw [length_append, length_append]
    omega
  items_eq := by
    rw [← drop_drop, drop_append_of_le_length h.base_le, ← h.items_eq]

theorem unread :
    all.drop cursor =
      (all.drop cursor).take (base - cursor) ++ items.drop (max cursor base - base) := by
  have hrest : items.drop (max cursor base - base) = (all.drop cursor).drop (base - cursor) := by
    rw [h.items_eq, drop_drop, drop_drop]
    congr 1
    omega
  rw [hrest, take_append_drop]

theorem trimmed_eq_nil_iff (hcursor : cursor ≤ all.length) :
    (all.drop cursor).take (base - cursor) = [] ↔ base ≤ cursor := by
  have hle : base ≤ all.length := h.base_le
  rw [← length_eq_zero_iff, length_take, length_drop]
  omega

theorem length_of_trimmed (hbehind : cursor < base) :
    (items.drop (max cursor base - base)).length = limit := by
  have hbase : base = all.length - limit := h.base_eq
  have hlength : base + items.length = all.length := h.base_add_length
  rw [length_drop]
  omega

end Holds

end Cognis.TailBuffer
