import Mathlib.Data.List.Induction

universe u

/-! Sequences of brackets that open and close things. -/

inductive Delimiter (ι : Type u) where
  | opened (i : ι)
  | closed (i : ι)
  deriving DecidableEq

namespace Brackets

open List Option

variable {ι : Type u}

/-- Brackets in an order in which all that opens closes later. -/
structure Ordered (before : Delimiter ι → Delimiter ι → Prop) (brackets : List (Delimiter ι)) :
    Prop where
  sorted : brackets.Pairwise before
  asymm : ∀ a b, before a b → ¬ before b a
  closes : ∀ i, .opened i ∈ brackets ↔ .closed i ∈ brackets
  opensFirst : ∀ i, .opened i ∈ brackets → before (.opened i) (.closed i)

variable {before : Delimiter ι → Delimiter ι → Prop} {brackets done rest : List (Delimiter ι)}
  {stack : List ι} {i j : ι} {b : Delimiter ι}

section

variable (h : Ordered before (done ++ b :: rest))
include h

theorem Ordered.mem_done {a : Delimiter ι}
    (ha : a ∈ done ++ b :: rest) (hbefore : before a b) : a ∈ done := by
  obtain hdone | hrest := mem_append.mp ha
  · exact hdone
  · obtain rfl | hlater := mem_cons.mp hrest
    · exact absurd hbefore (h.asymm a a hbefore)
    · have hafter := (pairwise_cons.mp (pairwise_append.mp h.sorted).2.1).1 a hlater
      exact absurd hbefore (h.asymm b a hafter)

theorem Ordered.before_of_mem {a : Delimiter ι}
    (ha : a ∈ done) : before a b :=
  (pairwise_append.mp h.sorted).2.2 a ha b mem_cons_self

theorem Ordered.not_mem_done : b ∉ done := by
  intro hdone
  have hself := h.before_of_mem hdone
  exact h.asymm b b hself hself

end

variable [DecidableEq ι]

def step : List ι → Delimiter ι → Option (List ι)
  | stack, .opened i => some (i :: stack)
  | j :: stack, .closed i => if i = j then some stack else none
  | [], .closed _ => none

theorem step_closed (j : ι) (stack : List ι) (i : ι) :
    step (j :: stack) (.closed i) = if i = j then some stack else none := rfl

def run (stack : List ι) (brackets : List (Delimiter ι)) : Option (List ι) :=
  brackets.foldlM step stack

/-- Every bracket closes what was opened last and is still open, and all is closed. -/
def Nested (brackets : List (Delimiter ι)) : Prop := run [] brackets = some []

instance (brackets : List (Delimiter ι)) : Decidable (Nested brackets) :=
  inferInstanceAs (Decidable (_ = _))

theorem run_append_singleton : run stack (done ++ [b]) = (run stack done).bind (step · b) := by
  unfold run
  rw [foldlM_append]
  cases done.foldlM step stack with
  | none => rfl
  | some => simp

/-- The brackets that are open, the latest on top. -/
structure Open (before : Delimiter ι → Delimiter ι → Prop) (done : List (Delimiter ι))
    (stack : List ι) : Prop where
  mem_iff : ∀ i, i ∈ stack ↔ .opened i ∈ done ∧ .closed i ∉ done
  latest : stack.Pairwise fun i j => before (.opened j) (.opened i)

theorem Ordered.run_open (h : Ordered before (done ++ rest)) (hrun : run [] done = some stack) :
    Open before done stack := by
  induction done using reverseRecOn generalizing rest stack with
  | nil =>
    cases hrun
    exact ⟨by simp, List.Pairwise.nil⟩
  | append_singleton done b ih =>
    rw [append_assoc, singleton_append] at h
    rw [run_append_singleton] at hrun
    obtain ⟨stack', hdone, hstep⟩ := bind_eq_some_iff.mp hrun
    have hopen := ih h hdone
    have hfresh := h.not_mem_done
    cases b with
    | opened i =>
      cases hstep
      have hunclosed : .closed i ∉ done := by
        intro hclosed
        have hclosing := h.before_of_mem hclosed
        have hmem : .opened i ∈ done ++ .opened i :: rest :=
          mem_append_right _ mem_cons_self
        exact h.asymm _ _ hclosing (h.opensFirst i hmem)
      refine ⟨?_, pairwise_cons.mpr ⟨?_, hopen.latest⟩⟩
      · intro j
        by_cases hj : j = i
        · subst hj
          simp [hunclosed]
        · simp [hj, hopen.mem_iff j]
      · intro j hj
        exact h.before_of_mem ((hopen.mem_iff j).mp hj).1
    | closed i =>
      cases stack' with
      | nil => cases hstep
      | cons top stack' =>
        rw [step_closed] at hstep
        split at hstep
        · rename_i htop
          subst htop
          obtain rfl := Option.some.inj hstep
          obtain ⟨hlast, hlatest⟩ := pairwise_cons.mp hopen.latest
          have hnot : i ∉ stack' := by
            intro hi
            have hself := hlast i hi
            exact h.asymm _ _ hself hself
          refine ⟨?_, hlatest⟩
          intro j
          by_cases hj : j = i
          · subst hj
            simp [hnot]
          · have hmem := hopen.mem_iff j
            simp only [mem_cons, hj, false_or] at hmem
            simp [hmem, hj]
        · cases hstep

def Crossing (before : Delimiter ι → Delimiter ι → Prop) (i j : ι) : Prop :=
  before (.opened i) (.opened j) ∧ before (.opened j) (.closed i) ∧
    before (.closed i) (.closed j)

theorem Ordered.isSome_run (h : Ordered before (done ++ rest))
    (hcross : ∀ i j, .opened i ∈ done ++ rest → .opened j ∈ done ++ rest →
      ¬ Crossing before i j) : (run [] done).isSome = true := by
  induction done using reverseRecOn generalizing rest with
  | nil => rfl
  | append_singleton done b ih =>
    rw [append_assoc, singleton_append] at h hcross
    obtain ⟨stack, hdone⟩ := isSome_iff_exists.mp (ih h hcross)
    have hopen := h.run_open hdone
    rw [run_append_singleton, hdone, bind_some]
    cases b with
    | opened i => rfl
    | closed i =>
      have hmem : .opened i ∈ done ++ .closed i :: rest :=
        (h.closes i).mpr (mem_append_right _ mem_cons_self)
      have hi : i ∈ stack :=
        (hopen.mem_iff i).mpr ⟨h.mem_done hmem (h.opensFirst i hmem), h.not_mem_done⟩
      cases stack with
      | nil => cases hi
      | cons top stack =>
        by_cases htop : i = top
        · simp [step, htop]
        · exfalso
          have hlater : i ∈ stack := (mem_cons.mp hi).resolve_left htop
          obtain ⟨htopDone, htopOpen⟩ := (hopen.mem_iff top).mp mem_cons_self
          have htopMem : .opened top ∈ done ++ .closed i :: rest :=
            mem_append_left _ htopDone
          refine hcross i top hmem htopMem ⟨?_, h.before_of_mem htopDone, ?_⟩
          · exact (pairwise_cons.mp hopen.latest).1 i hlater
          · obtain hclosed | hclosed := mem_append.mp ((h.closes top).mp htopMem)
            · exact absurd hclosed htopOpen
            · obtain heq | hclosed := mem_cons.mp hclosed
              · exact absurd (Delimiter.closed.inj heq).symm htop
              · exact (pairwise_cons.mp (pairwise_append.mp h.sorted).2.1).1 _ hclosed

theorem Ordered.nested_iff (h : Ordered before brackets) : Nested brackets ↔
    ∀ i j, .opened i ∈ brackets → .opened j ∈ brackets → ¬ Crossing before i j := by
  constructor
  · rintro hnested i j hi hj ⟨hopens, hmiddle, hcloses⟩
    obtain ⟨done, rest, rfl⟩ := append_of_mem ((h.closes i).mp hi)
    have hsplit : run [] ((done ++ [.closed i]) ++ rest) = some [] := by
      rw [append_assoc, singleton_append]
      exact hnested
    unfold run at hsplit
    rw [foldlM_append] at hsplit
    obtain ⟨stack, hstack, -⟩ := bind_eq_some_iff.mp hsplit
    have hstep : (run [] done).bind (step · (.closed i)) = some stack := by
      rw [← run_append_singleton]
      exact hstack
    obtain ⟨stack', hdone, hclose⟩ := bind_eq_some_iff.mp hstep
    have hopen := h.run_open hdone
    cases stack' with
    | nil => cases hclose
    | cons =>
      rw [step_closed] at hclose
      split at hclose
      · rename_i htop
        subst htop
        have hjOpen : .closed j ∉ done := fun hclosed =>
          h.asymm _ _ hcloses (h.before_of_mem hclosed)
        have hjmem := (hopen.mem_iff j).mpr ⟨h.mem_done hj hmiddle, hjOpen⟩
        obtain rfl | hjmem := mem_cons.mp hjmem
        · exact h.asymm _ _ hopens hopens
        · exact h.asymm _ _ hopens ((pairwise_cons.mp hopen.latest).1 j hjmem)
      · cases hclose
  · intro hcross
    have hall : Ordered before (brackets ++ []) := by
      rw [append_nil]
      exact h
    obtain ⟨stack, hrun⟩ := isSome_iff_exists.mp
      (hall.isSome_run (by rw [append_nil]; exact hcross))
    have hopen := hall.run_open hrun
    have hnil : stack = [] := by
      rw [eq_nil_iff_forall_not_mem]
      intro i hi
      obtain ⟨hopened, hunclosed⟩ := (hopen.mem_iff i).mp hi
      exact hunclosed ((h.closes i).mp hopened)
    rw [Nested, hrun, hnil]

end Brackets
