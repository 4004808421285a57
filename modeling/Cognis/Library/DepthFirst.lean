import Mathlib.Logic.Relation
import Mathlib.Data.List.Basic

universe u

/-! Relations without cycles, and a depth-first search with a stack over a relation
that may lose edges while it runs. -/

namespace DepthFirst

open List Relation

variable {α : Type u} {r r' : α → α → Prop} {a b : α}

/-- No element is reached from itself. -/
def Acyclic (r : α → α → Prop) : Prop := ∀ a, ¬ TransGen r a a

theorem Acyclic.mono (h : Acyclic r) (hsub : ∀ x y, r' x y → r x y) : Acyclic r' :=
  fun a hcycle => h a (TransGen.mono hsub a a hcycle)

theorem transGen_insert (hback : ¬ ReflTransGen r b a) {x y : α}
    (h : TransGen (fun x y => r x y ∨ (x = a ∧ y = b)) x y) :
    TransGen r x y ∨ (ReflTransGen r x a ∧ ReflTransGen r b y) := by
  induction h with
  | single hstep =>
    rcases hstep with hedge | ⟨rfl, rfl⟩
    · exact .inl (.single hedge)
    · exact .inr ⟨.refl, .refl⟩
  | tail _ hstep ih =>
    rcases hstep with hedge | ⟨rfl, rfl⟩
    · rcases ih with hpath | ⟨hleft, hright⟩
      · exact .inl (hpath.tail hedge)
      · exact .inr ⟨hleft, hright.tail hedge⟩
    · rcases ih with hpath | ⟨-, hright⟩
      · exact .inr ⟨hpath.to_reflTransGen, .refl⟩
      · exact absurd hright hback

theorem Acyclic.insert (h : Acyclic r) (hback : ¬ ReflTransGen r b a) :
    Acyclic fun x y => r x y ∨ (x = a ∧ y = b) := by
  intro x hcycle
  rcases transGen_insert hback hcycle with hpath | ⟨hleft, hright⟩
  · exact h x hpath
  · exact hback (hright.trans hleft)

/-- A search under way: what it has expanded, and what it has still to look at, the
next one first. -/
structure Search (α : Type u) where
  visited : List α
  stack : List α
  deriving DecidableEq

/-- The search has not lost anything the start reaches: an expanded element has its
successors among the known ones. -/
structure Search.Covers (r : α → α → Prop) (start : α) (s : Search α) : Prop where
  start : start ∈ s.visited ∨ start ∈ s.stack
  closed : ∀ v ∈ s.visited, ∀ w, r v w → w ∈ s.visited ∨ w ∈ s.stack

variable {start current target : α} {s : Search α} {visited stack : List α}

theorem covers_start (r : α → α → Prop) (start : α) :
    Search.Covers r start ⟨[], [start]⟩ where
  start := .inr mem_cons_self
  closed := by
    intro v hv
    cases hv

theorem Search.Covers.mono (h : s.Covers r start) (hsub : ∀ x y, r' x y → r x y) :
    s.Covers r' start where
  start := h.start
  closed v hv w hedge := h.closed v hv w (hsub v w hedge)

section

variable (h : Search.Covers r start ⟨visited, current :: stack⟩)
include h

theorem Search.Covers.skip
    (hvisited : current ∈ visited) : Search.Covers r start ⟨visited, stack⟩ where
  start := by
    rcases h.start with hleft | hright
    · exact .inl hleft
    · rcases mem_cons.mp hright with rfl | htail
      · exact .inl hvisited
      · exact .inr htail
  closed v hv w hedge := by
    rcases h.closed v hv w hedge with hleft | hright
    · exact .inl hleft
    · rcases mem_cons.mp hright with rfl | htail
      · exact .inl hvisited
      · exact .inr htail

theorem Search.Covers.expand
    {successors : List α} (hsuccessors : ∀ w, r current w → w ∈ successors) :
    Search.Covers r start ⟨current :: visited, successors ++ stack⟩ where
  start := by
    rcases h.start with hleft | hright
    · exact .inl (mem_cons_of_mem _ hleft)
    · rcases mem_cons.mp hright with rfl | htail
      · exact .inl mem_cons_self
      · exact .inr (mem_append_right _ htail)
  closed v hv w hedge := by
    rcases mem_cons.mp hv with rfl | hmem
    · exact .inr (mem_append_left _ (hsuccessors w hedge))
    · rcases h.closed v hmem w hedge with hleft | hright
      · exact .inl (mem_cons_of_mem _ hleft)
      · rcases mem_cons.mp hright with rfl | htail
        · exact .inl mem_cons_self
        · exact .inr (mem_append_right _ htail)

end

theorem Search.Covers.mem_visited (h : Search.Covers r start ⟨visited, []⟩)
    (hpath : ReflTransGen r start target) : target ∈ visited := by
  induction hpath with
  | refl => exact h.start.resolve_right not_mem_nil
  | tail _ hedge ih => exact (h.closed _ ih _ hedge).resolve_right not_mem_nil

end DepthFirst
