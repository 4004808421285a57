import Mathlib.Data.List.Sort
import Mathlib.Data.List.Pairwise

universe u v

namespace SortByKey

open List

variable {α : Type u} {β : Type v} [LinearOrder β] (key : α → β)

def Ascending (l : List α) : Prop := l.Pairwise (fun a b => key a < key b)

instance (l : List α) : Decidable (Ascending key l) :=
  inferInstanceAs (Decidable (l.Pairwise (fun a b => key a < key b)))

def sortBy (l : List α) : List α := l.insertionSort (fun a b => key a ≤ key b)

theorem sortBy_perm (l : List α) : (sortBy key l).Perm l := perm_insertionSort _ _

variable {l : List α}

@[simp] theorem mem_sortBy {a : α} : a ∈ sortBy key l ↔ a ∈ l :=
  (sortBy_perm key l).mem_iff

@[simp] theorem length_sortBy (l : List α) : (sortBy key l).length = l.length :=
  (sortBy_perm key l).length_eq

theorem sortBy_pairwise (l : List α) : (sortBy key l).Pairwise (fun a b => key a ≤ key b) :=
  haveI : Std.Total (fun a b => key a ≤ key b) := ⟨fun a b => le_total (key a) (key b)⟩
  haveI : IsTrans α (fun a b => key a ≤ key b) := ⟨fun _ _ _ => le_trans⟩
  pairwise_insertionSort _ _

variable {key}

theorem Ascending.key_injOn (h : Ascending key l) {a b : α} (ha : a ∈ l) (hb : b ∈ l)
    (hk : key a = key b) : a = b := by
  have : Std.Symm (fun x y : α => key x ≠ key y) := ⟨fun _ _ h => h.symm⟩
  have hne : l.Pairwise (fun x y => key x ≠ key y) := h.imp (fun h => ne_of_lt h)
  by_contra hab
  exact hne.forall ha hb hab hk

theorem ascending_iff_of_ascending {γ : Type*} [LinearOrder γ] {place : α → γ}
    (h : Ascending key l) :
    Ascending place l ↔ ∀ a ∈ l, ∀ b ∈ l, key a < key b → place a < place b := by
  constructor
  · intro hplace a ha b hb hlt
    let agree (x y : α) : Prop := key x < key y → place x < place y
    have : Std.Symm (fun x y => agree x y ∧ agree y x) := ⟨fun _ _ h => h.symm⟩
    have hagree : l.Pairwise (fun x y => agree x y ∧ agree y x) := by
      refine (h.and hplace).imp fun hxy => ⟨fun _ => hxy.2, fun hyx => ?_⟩
      exact absurd (hxy.1.trans hyx) (lt_irrefl _)
    have hne : a ≠ b := by
      rintro rfl
      exact lt_irrefl _ hlt
    exact (hagree.forall ha hb hne).1 hlt
  · intro hplace
    exact h.imp_of_mem fun ha hb hlt => hplace _ ha _ hb hlt

theorem sortBy_stable {R : α → α → Prop} (h : l.Pairwise R) :
    (sortBy key l).Pairwise fun a b => key a < key b ∨ (key a = key b ∧ R a b) := by
  induction l with
  | nil => exact List.Pairwise.nil
  | cons a l ih =>
    obtain ⟨hfirst, hrest⟩ := pairwise_cons.mp h
    have hsorted := ih hrest
    have hmem : ∀ b ∈ sortBy key l, R a b := fun b hb => hfirst b ((mem_sortBy key).mp hb)
    change (orderedInsert (fun a b => key a ≤ key b) a (sortBy key l)).Pairwise _
    generalize sortBy key l = s at hsorted hmem
    induction s with
    | nil => exact pairwise_singleton _ _
    | cons b s ih =>
      obtain ⟨hb, hs⟩ := pairwise_cons.mp hsorted
      rw [orderedInsert_cons]
      split_ifs with hle
      · refine pairwise_cons.mpr ⟨?_, hsorted⟩
        intro c hc
        have hac : key a ≤ key c := by
          obtain rfl | hc' := mem_cons.mp hc
          · exact hle
          · obtain hlt | ⟨heq, -⟩ := hb c hc'
            · exact hle.trans hlt.le
            · exact hle.trans heq.le
        obtain hlt | heq := hac.lt_or_eq
        · exact .inl hlt
        · exact .inr ⟨heq, hmem c hc⟩
      · refine pairwise_cons.mpr ⟨?_, ih hs fun c hc => hmem c (mem_cons_of_mem _ hc)⟩
        intro c hc
        obtain rfl | hc' := (mem_orderedInsert _).mp hc
        · exact .inl (lt_of_not_ge hle)
        · exact hb c hc'

theorem sortBy_eq_of_perm {l s : List α} (hs : Ascending key s) (hp : l.Perm s) :
    sortBy key l = s := by
  have hperm : (sortBy key l).Perm s := (sortBy_perm key l).trans hp
  refine hperm.eq_of_pairwise ?_ (sortBy_pairwise key l) (hs.imp le_of_lt)
  intro a b ha hb hab hba
  exact hs.key_injOn (hperm.mem_iff.mp ha) hb (le_antisymm hab hba)

theorem sortBy_eq_self {s : List α} (hs : Ascending key s) : sortBy key s = s :=
  sortBy_eq_of_perm hs (Perm.refl s)

theorem ascending_sortBy (h : (l.map key).Nodup) : Ascending key (sortBy key l) := by
  have hn : ((sortBy key l).map key).Nodup := ((sortBy_perm key l).map key).nodup_iff.mpr h
  have hne : (sortBy key l).Pairwise (fun a b => key a ≠ key b) := pairwise_map.mp hn
  exact ((sortBy_pairwise key l).and hne).imp (fun h => lt_of_le_of_ne h.1 h.2)

variable (key)

/-- The `n` elements of greatest key, greatest first; ties keep their order. -/
def topBy (n : Nat) (l : List α) : List α :=
  (sortBy (fun a => OrderDual.toDual (key a)) l).take n

theorem topBy_subperm (n : Nat) (l : List α) : (topBy key n l).Subperm l :=
  (take_sublist _ _).subperm.trans (sortBy_perm _ l).subperm

variable {key}

theorem topBy_ne_nil {n : Nat} (hn : 0 < n) (hl : l ≠ []) : topBy key n l ≠ [] := by
  intro h
  have hlen := congrArg length h
  simp only [topBy, length_take, length_sortBy, length_nil] at hlen
  have : 0 < l.length := length_pos_of_ne_nil hl
  omega

private theorem mem_take_of_descending {s : List α} (hs : s.Pairwise (fun a b => key b < key a))
    (n : Nat) (x : α) : x ∈ s.take n ↔ x ∈ s ∧ s.countP (fun y => key x < key y) < n := by
  induction s generalizing n with
  | nil => simp
  | cons a t ih =>
    obtain ⟨ha, ht⟩ := pairwise_cons.mp hs
    cases n with
    | zero => simp
    | succ n =>
      have hzero : t.countP (fun y => key a < key y) = 0 := by
        rw [countP_eq_zero]
        intro y hy
        simpa using le_of_lt (ha y hy)
      rw [take_succ_cons, mem_cons, ih ht, mem_cons, countP_cons]
      by_cases hx : x = a
      · subst hx
        simp [hzero]
      · simp only [hx, false_or]
        by_cases hm : x ∈ t
        · simp [hm, ha x hm]
        · simp [hm]

/-- An element is among the top `n` when fewer than `n` others have a greater key. -/
theorem mem_topBy_iff (h : (l.map key).Nodup) (n : Nat) (x : α) :
    x ∈ topBy key n l ↔ x ∈ l ∧ l.countP (fun y => key x < key y) < n := by
  have hperm := sortBy_perm (fun a => OrderDual.toDual (key a)) l
  have hasc : Ascending (fun a => OrderDual.toDual (key a))
      (sortBy (fun a => OrderDual.toDual (key a)) l) := ascending_sortBy (by
    have := h.map OrderDual.toDual.injective
    rwa [map_map] at this)
  have htake : x ∈ topBy key n l ↔ _ ∧ List.countP (fun y => key x < key y) _ < n :=
    mem_take_of_descending hasc n x
  rw [htake, hperm.mem_iff, hperm.countP_eq]

end SortByKey
