import Mathlib.Data.List.Basic

universe u v w

/-! Runs of a deterministic step function over a list of events. -/

namespace Runs

open List

variable {σ : Type u} {ε : Type v} {step : σ → ε → σ}

def run (step : σ → ε → σ) (s : σ) (es : List ε) : σ := es.foldl step s

@[simp] theorem run_nil (s : σ) : run step s [] = s := rfl

@[simp] theorem run_cons (s : σ) (e : ε) (es : List ε) :
    run step s (e :: es) = run step (step s e) es := rfl

theorem run_append (s : σ) (es fs : List ε) :
    run step s (es ++ fs) = run step (run step s es) fs := foldl_append

/-- Every event meets `P` in the state it acts on. -/
def Meets (step : σ → ε → σ) (P : σ → ε → Prop) : σ → List ε → Prop
  | _, [] => True
  | s, e :: es => P s e ∧ Meets step P (step s e) es

instance {P : σ → ε → Prop} [∀ s e, Decidable (P s e)] :
    ∀ (s : σ) (es : List ε), Decidable (Meets step P s es)
  | _, [] => inferInstanceAs (Decidable True)
  | s, e :: es =>
    have : Decidable (Meets step P (step s e) es) := instDecidableMeets (step s e) es
    inferInstanceAs (Decidable (P s e ∧ Meets step P (step s e) es))

variable {es : List ε} {s : σ}

theorem Meets.mono {P Q : σ → ε → Prop} (h : ∀ s e, P s e → Q s e)
    (hes : Meets step P s es) : Meets step Q s es := by
  induction es generalizing s with
  | nil => trivial
  | cons e es ih => exact ⟨h s e hes.1, ih hes.2⟩

theorem run_invariant (I : σ → Prop) (hstep : ∀ s e, I s → I (step s e)) (hs : I s)
    (es : List ε) : I (run step s es) := by
  induction es generalizing s with
  | nil => exact hs
  | cons e _ ih => exact ih (hstep s e hs)

variable {P : σ → ε → Prop}

theorem run_invariant_of_meets (I : σ → Prop) (hstep : ∀ s e, I s → P s e → I (step s e)) (hs : I s)
    (h : Meets step P s es) : I (run step s es) := by
  induction es generalizing s with
  | nil => exact hs
  | cons e es ih => exact ih (hstep s e hs h.1) h.2

/-- Where `J` is kept as long as `I` holds, and a step keeps `I` exactly if it meets `P`, the states
of a run all have `I` exactly if the run meets `P`. -/
theorem forall_prefix_iff_meets_of_invariant (J I : σ → Prop) (es : List ε)
    (hstep : ∀ s, ∀ e ∈ es, J s → I s → J (step s e) ∧ (I (step s e) ↔ P s e)) (hJ : J s)
    (hI : I s) : (∀ pre, pre <+: es → I (run step s pre)) ↔ Meets step P s es := by
  induction es generalizing s with
  | nil =>
    simp only [prefix_nil, forall_eq, Meets, iff_true]
    exact hI
  | cons e es ih =>
    obtain ⟨hJ', hiff⟩ := hstep s e mem_cons_self hJ hI
    have hrest (hI' : I (step s e)) := ih (fun s e he => hstep s e (mem_cons_of_mem _ he)) hJ' hI'
    constructor
    · intro h
      have hI' : I (step s e) := h [e] (by simp)
      refine ⟨hiff.mp hI', (hrest hI').mp ?_⟩
      intro pre hpre
      exact h (e :: pre) ((prefix_cons_inj e).mpr hpre)
    · rintro ⟨hP, h⟩ pre hpre
      cases pre with
      | nil => exact hI
      | cons _ pre =>
        obtain ⟨rfl, htail⟩ := cons_prefix_cons.mp hpre
        exact (hrest (hiff.mpr hP)).mpr h pre htail

theorem forall_prefix_iff_meets (I : σ → Prop) (hstep : ∀ s e, I s → (I (step s e) ↔ P s e))
    (hs : I s) (es : List ε) :
    (∀ pre, pre <+: es → I (run step s pre)) ↔ Meets step P s es :=
  forall_prefix_iff_meets_of_invariant (fun _ => True) I es
    (fun s e _ _ hI => ⟨trivial, hstep s e hI⟩) trivial hs

/-- Where an invariant makes two conditions on an event the same, runs that keep the
invariant meet both or neither. -/
theorem meets_congr_of_invariant {O P Q : σ → ε → Prop} (I : σ → Prop)
    (hstep : ∀ s e, I s → O s e → P s e → I (step s e))
    (hiff : ∀ s e, I s → O s e → (Q s e ↔ P s e)) (hs : I s)
    (hO : Meets step O s es) : Meets step Q s es ↔ Meets step P s es := by
  induction es generalizing s with
  | nil => exact Iff.rfl
  | cons e es ih =>
    have hhead := hiff s e hs hO.1
    constructor
    · rintro ⟨hq, hrest⟩
      have hp := hhead.mp hq
      exact ⟨hp, (ih (hstep s e hs hO.1 hp) hO.2).mp hrest⟩
    · rintro ⟨hp, hrest⟩
      exact ⟨hhead.mpr hp, (ih (hstep s e hs hO.1 hp) hO.2).mpr hrest⟩

theorem meets_append {es fs : List ε} :
    Meets step P s (es ++ fs) ↔ Meets step P s es ∧ Meets step P (run step s es) fs := by
  induction es generalizing s with
  | nil => simp [Meets]
  | cons e es ih => simp only [cons_append, Meets, ih, run_cons, and_assoc]

/-- A run meets `P` when each of its events does, in the state it acts on. -/
theorem meets_iff_forall_prefix :
    Meets step P s es ↔ ∀ pre e, pre ++ [e] <+: es → P (run step s pre) e := by
  constructor
  · rintro h pre e ⟨rest, rfl⟩
    rw [append_assoc, meets_append] at h
    exact h.2.1
  · intro h
    induction es generalizing s with
    | nil => trivial
    | cons e es ih =>
      refine ⟨h [] e ⟨es, rfl⟩, ih ?_⟩
      intro pre e' hpre
      exact h (e :: pre) e' ((prefix_cons_inj e).mpr hpre)

/-- The first event of a run that does not meet `P`. -/
theorem exists_first_of_not_meets
    (h : ¬ Meets step P s es) : ∃ pre e, pre ++ [e] <+: es ∧ Meets step P s pre ∧
      ¬ P (run step s pre) e := by
  induction es generalizing s with
  | nil => exact absurd trivial h
  | cons e es ih =>
    by_cases he : P s e
    · have hrest : ¬ Meets step P (step s e) es := fun hmeets => h ⟨he, hmeets⟩
      obtain ⟨pre, e', hpre, hmeets, hbad⟩ := ih hrest
      exact ⟨e :: pre, e', (prefix_cons_inj e).mpr hpre, ⟨he, hmeets⟩, hbad⟩
    · exact ⟨[], e, ⟨es, rfl⟩, trivial, he⟩

end Runs
