import Mathlib.Logic.Relation
import Mathlib.Data.List.Basic

universe u

/-! What a list of edges reaches from a list of seeds. -/

namespace Closure

open List Relation

variable {α : Type u} [DecidableEq α] {edges : List (α × α)} {nodes seeds : List α} {n : Nat}
  {x : α}

def leaves (nodes : List α) (edge : α × α) : Bool :=
  nodes.contains edge.1 && !nodes.contains edge.2

def grow (edges : List (α × α)) (nodes : List α) : List α :=
  nodes ++ (edges.filter (leaves nodes)).map (·.2)

def rounds (edges : List (α × α)) : Nat → List α → List α
  | 0, nodes => nodes
  | n + 1, nodes => rounds edges n (grow edges nodes)

/-- Every round that is not the last gives an edge its end, so that one round for each edge
is enough. -/
def reach (edges : List (α × α)) (seeds : List α) : List α := rounds edges edges.length seeds

def Closed (edges : List (α × α)) (nodes : List α) : Prop :=
  ∀ edge ∈ edges, edge.1 ∈ nodes → edge.2 ∈ nodes

theorem mem_grow :
    x ∈ grow edges nodes ↔ x ∈ nodes ∨ ∃ edge ∈ edges, leaves nodes edge = true ∧ edge.2 = x := by
  simp only [grow, mem_append, mem_map, mem_filter, and_assoc]

theorem leaves_iff {edge : α × α} : leaves nodes edge = true ↔ edge.1 ∈ nodes ∧ edge.2 ∉ nodes := by
  simp [leaves]

theorem Closed.mem_grow (h : Closed edges nodes) : x ∈ grow edges nodes ↔ x ∈ nodes := by
  rw [Closure.mem_grow]
  constructor
  · rintro (hx | ⟨edge, hedge, hleaves, rfl⟩)
    · exact hx
    · exact h edge hedge (leaves_iff.mp hleaves).1
  · intro hx
    exact .inl hx

theorem Closed.grow (h : Closed edges nodes) : Closed edges (grow edges nodes) := by
  intro edge hedge hfrom
  exact h.mem_grow.mpr (h edge hedge (h.mem_grow.mp hfrom))

theorem Closed.rounds (h : Closed edges nodes) : Closed edges (rounds edges n nodes) := by
  induction n generalizing nodes with
  | zero => exact h
  | succ _ ih => exact ih h.grow

def outside (edges : List (α × α)) (nodes : List α) : List (α × α) :=
  edges.filter fun edge => !nodes.contains edge.2

theorem outside_grow_lt (h : ¬ Closed edges nodes) :
    (outside edges (grow edges nodes)).length < (outside edges nodes).length := by
  have hsub : outside edges (grow edges nodes) =
      (outside edges nodes).filter fun edge => !(grow edges nodes).contains edge.2 := by
    rw [outside, outside, filter_filter]
    apply filter_congr
    intro edge _
    by_cases hin : edge.2 ∈ nodes
    · have hgrown : edge.2 ∈ grow edges nodes := Closure.mem_grow.mpr (.inl hin)
      simp [hin, hgrown]
    · simp [hin]
  rw [hsub]
  apply length_filter_lt_length_iff_exists.mpr
  unfold Closed at h
  push Not at h
  obtain ⟨edge, hedge, hfrom, hto⟩ := h
  refine ⟨edge, ?_, ?_⟩
  · exact mem_filter.mpr ⟨hedge, by simp [hto]⟩
  · have hgrown : edge.2 ∈ grow edges nodes :=
      Closure.mem_grow.mpr (.inr ⟨edge, hedge, leaves_iff.mpr ⟨hfrom, hto⟩, rfl⟩)
    simp [hgrown]

theorem closed_rounds (h : (outside edges nodes).length ≤ n) :
    Closed edges (rounds edges n nodes) := by
  induction n generalizing nodes with
  | zero =>
    intro edge hedge _
    have hempty : outside edges nodes = [] := length_eq_zero_iff.mp (Nat.le_zero.mp h)
    by_contra hnot
    change edge.2 ∉ nodes at hnot
    have hmem : edge ∈ outside edges nodes := mem_filter.mpr ⟨hedge, by simpa using hnot⟩
    rw [hempty] at hmem
    cases hmem
  | succ n ih =>
    by_cases hclosed : Closed edges nodes
    · exact hclosed.grow.rounds
    · have hlt := outside_grow_lt hclosed
      exact ih (by omega)

theorem closed_reach : Closed edges (reach edges seeds) :=
  closed_rounds (length_filter_le _ _)

theorem subset_rounds (h : x ∈ nodes) : x ∈ rounds edges n nodes := by
  induction n generalizing nodes with
  | zero => exact h
  | succ _ ih => exact ih (Closure.mem_grow.mpr (.inl h))

theorem of_mem_rounds (h : x ∈ rounds edges n nodes) :
    ∃ seed ∈ nodes, ReflTransGen (fun a b => (a, b) ∈ edges) seed x := by
  induction n generalizing nodes with
  | zero => exact ⟨x, h, .refl⟩
  | succ n ih =>
    obtain ⟨seed, hseed, hpath⟩ := ih h
    rcases Closure.mem_grow.mp hseed with hmem | ⟨edge, hedge, hleaves, rfl⟩
    · exact ⟨seed, hmem, hpath⟩
    · exact ⟨edge.1, (leaves_iff.mp hleaves).1, .head hedge hpath⟩

theorem mem_reach : x ∈ reach edges seeds ↔
      ∃ seed ∈ seeds, ReflTransGen (fun a b => (a, b) ∈ edges) seed x := by
  constructor
  · exact of_mem_rounds
  · rintro ⟨seed, hseed, hpath⟩
    induction hpath with
    | refl => exact subset_rounds hseed
    | tail _ hedge ih => exact closed_reach _ hedge ih

end Closure
