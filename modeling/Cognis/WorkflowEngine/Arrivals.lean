import Cognis.WorkflowEngine.DeterministicVisits

namespace Cognis.WorkflowEngine

open List Runs

variable {host : Host} {workflow : Workflow} {w v : World} {step : StepDefinition}
  {fresh : StepRun → Prop}

def bare (row : StepRun) : Prop := row.generation = none

theorem freshness_bare : Freshness bare where
  stamped _ _ _ hgen _ h := hgen.trans h
  bare _ h := h

theorem kept_takenUp (step : StepDefinition) (s : WorkflowState) : Kept s (takenUp step s) :=
  (Kept.refl s).congr rfl rfl rfl id

/-- The position is at a deterministic step that waits at no gate: the iteration
moves on by the step's route. -/
def routes (workflow : Workflow) (s : WorkflowState) : Bool :=
  match workflow.steps[s.currentStepIndex]? with
  | some step => step.isDeterministic && s.pendingGate.isNone
  | none => false

theorem visit_routes (hstep : workflow.steps[w.state.currentStepIndex]? = some step)
    (hroutes : routes workflow w.state) :
    visit host workflow w.state =
      visitDeterministic host workflow step (takenUp step w.state) := by
  rw [routes, hstep] at hroutes
  rw [Bool.and_eq_true] at hroutes
  obtain ⟨hdet, hgate⟩ := hroutes
  have hnone : w.state.pendingGate = none := Option.isNone_iff_eq_none.mp hgate
  unfold visit
  rw [hstep]
  rw [hnone]
  dsimp only
  unfold StepDefinition.isDeterministic at hdet
  cases hkind : step.kind with
  | run | gate =>
    rw [hkind] at hdet
    cases hdet
  | toolCall | condition | complete => rfl

variable (host) in
theorem visit_post_routes (hstep : workflow.steps[w.state.currentStepIndex]? = some step)
    (hroutes : routes workflow w.state)
    (hrows : ∀ (i : Nat) (row : StepRun), w.rows[i]? = some row → row.stepRunId = i)
    (hactive : w.taskStatus.terminal = false) :
    Ensures (fun v _ => Underway (ofArrival w step) w v) (visit host workflow w.state)
      (VisitPost workflow (ofArrival w step) w step (RouteBack workflow w)) w := by
  rw [visit_routes hstep hroutes]
  exact visitDeterministic_post (Held.refl hrows hactive) (kept_takenUp step w.state) rfl

variable (host) in
theorem visit_post_other (hstep : workflow.steps[w.state.currentStepIndex]? = some step)
    (hroutes : routes workflow w.state = false)
    (hrows : ∀ (i : Nat) (row : StepRun), w.rows[i]? = some row → row.stepRunId = i)
    (hactive : w.taskStatus.terminal = false) :
    Ensures (Holding bare w) (visit host workflow w.state)
      (VisitPost workflow bare w step (fun _ _ => True)) w := by
  have hheld : Held bare w w := Held.refl hrows hactive
  have htaken := kept_takenUp step w.state
  rw [routes, hstep] at hroutes
  dsimp only at hroutes
  unfold visit
  rw [hstep]
  dsimp only
  split
  · exact resumeDerivedGate_post freshness_bare _ hheld (Kept.refl w.state)
  · rename_i hwaits
    split
    · exact visitRun_post freshness_bare hheld htaken
    · exact visitGate_post freshness_bare _ hheld htaken
    · rename_i hrun hgate
      -- a deterministic step here would wait at a gate, which the split excludes
      have hdet : step.isDeterministic := by
        unfold StepDefinition.isDeterministic
        cases hkind : step.kind with
        | run config => exact absurd hkind (hrun config)
        | gate config => exact absurd hkind (hgate config)
        | toolCall | condition | complete => rfl
      have hnot : step.isGate = false := by
        unfold StepDefinition.isGate
        cases hkind : step.kind with
        | gate config => exact absurd hkind (hgate config)
        | _ => rfl
      rw [hdet, Bool.true_and] at hroutes
      cases hgate : w.state.pendingGate with
      | none =>
        rw [hgate] at hroutes
        cases hroutes
      | some payload => exact absurd hnot (hwaits payload hgate)

theorem forM_ok {α : Type} {f : α → Except ValidationError Unit} {l : List α}
    (h : l.forM f = .ok ()) : ∀ a ∈ l, f a = .ok () := by
  induction l with
  | nil => intro a ha; cases ha
  | cons first rest ih =>
    change (f first >>= fun _ => rest.forM f) = .ok () at h
    cases hfirst : f first with
    | error =>
      rw [hfirst] at h
      cases h
    | ok _ =>
      rw [hfirst] at h
      intro a ha
      rcases mem_cons.mp ha with rfl | hrest
      · exact hfirst
      · exact ih h a hrest

theorem validateWorkflow_names (h : validateWorkflow workflow = .ok ()) {i j : Nat}
    {a b : StepDefinition} (hi : workflow.steps[i]? = some a) (hj : workflow.steps[j]? = some b)
    (hname : a.name = b.name) : i = j := by
  have hdistinct (i j : Nat) (a b : StepDefinition) (hi : workflow.steps[i]? = some a)
      (hj : workflow.steps[j]? = some b) (hlt : i < j) : a.name ≠ b.name := by
    intro hname
    have hentry : (b, j) ∈ workflow.steps.zipIdx := mk_mem_zipIdx_iff_getElem?.mpr hj
    have hstep := forM_ok h (b, j) hentry
    have hdup : ((workflow.steps.map StepDefinition.name).take j).contains b.name := by
      rw [contains_iff_mem, ← hname]
      apply mem_of_getElem? (i := i)
      rw [getElem?_take, if_pos hlt, getElem?_map, hi]
      rfl
    unfold validateStep at hstep
    rw [if_pos hdup] at hstep
    cases hstep
  rcases Nat.lt_trichotomy i j with hlt | heq | hgt
  · exact absurd hname (hdistinct i j a b hi hj hlt)
  · exact heq
  · exact absurd hname.symm (hdistinct j i b a hj hi hgt)

/-- A step run of a deterministic step's current generation belongs to a step the
position has passed, or to the present arrival. -/
structure Renewed (workflow : Workflow) (w : World) : Prop where
  numbered : ∀ (i : Nat) (row : StepRun), w.rows[i]? = some row → row.stepRunId = i
  arrived : ∀ (j : Nat) (step : StepDefinition), workflow.steps[j]? = some step →
    step.isDeterministic = true → ∀ row ∈ w.rows, row.stepName = step.name →
    ∀ g, row.generation = some g → g ≤ w.state.generation step.name ∧
      (g = w.state.generation step.name → j < w.state.currentStepIndex ∨
        (j = w.state.currentStepIndex ∧ row.startedAt = w.arrivals))

/-- Where a move from `w` leaves no result to be reused. -/
def Cleared (workflow : Workflow) (w v : World) : Prop :=
  ∀ (j : Nat) (other : StepDefinition), v.state.currentStepIndex ≤ j →
    j ≤ w.state.currentStepIndex → workflow.steps[j]? = some other →
    other.isDeterministic = true →
    w.state.generation other.name < v.state.generation other.name ∨
      ∀ row ∈ v.rows, row.stepName = other.name →
        row.generation ≠ some (w.state.generation other.name)

theorem Renewed.next (h : Renewed workflow w) (hvalid : validateWorkflow workflow = .ok ())
    (hfresh : ∀ row, fresh row → row.generation = none ∨ ∃ step,
      workflow.steps[w.state.currentStepIndex]? = some step ∧ ofArrival w step row)
    (hrows : RowsKept fresh w.rows v.rows)
    (hgen : ∀ name, w.state.generation name ≤ v.state.generation name)
    (hmove : (v.state.currentStepIndex = w.state.currentStepIndex ∧ v.arrivals = w.arrivals) ∨
      w.state.currentStepIndex < v.state.currentStepIndex ∨ Cleared workflow w v) :
    Renewed workflow v := by
  refine ⟨hrows.numbered, ?_⟩
  intro j other hother hdet row hrow hname g hg
  have hbefore : g ≤ w.state.generation other.name ∧
      (g = w.state.generation other.name → j < w.state.currentStepIndex ∨
        (j = w.state.currentStepIndex ∧ row.startedAt = w.arrivals)) := by
    obtain ⟨i, hi⟩ := mem_iff_getElem?.mp hrow
    rcases hrows.old i row hi with ⟨first, hfirst, hn, hgrow, hstart⟩ | hnew
    · rw [hstart]
      exact h.arrived j other hother hdet first (mem_of_getElem? hfirst)
        (hn.symm.trans hname) g (hgrow.symm.trans hg)
    · rcases hfresh row hnew with hnone | ⟨step, hstep, hnone | ⟨hn, hgrow, hstart⟩⟩
      · rw [hnone] at hg
        cases hg
      · rw [hnone] at hg
        cases hg
      · have hsame : other.name = step.name := hname.symm.trans hn
        have hj : j = w.state.currentStepIndex := validateWorkflow_names hvalid hother hstep hsame
        have hcurrent : g = w.state.generation other.name := by
          rw [hsame]
          exact Option.some.inj (hg.symm.trans hgrow)
        exact ⟨hcurrent.le, fun _ => .inr ⟨hj, hstart⟩⟩
  have hle := hgen other.name
  refine ⟨hbefore.1.trans hle, ?_⟩
  intro hcurrent
  have hold : g = w.state.generation other.name := by
    have := hbefore.1
    omega
  have hpassed := hbefore.2 hold
  rcases hmove with ⟨hindex, harrivals⟩ | hforward | hcleared
  · rw [hindex, harrivals]
    exact hpassed
  · left
    omega
  · by_cases hj : j < v.state.currentStepIndex
    · exact .inl hj
    · exfalso
      have hjw : j ≤ w.state.currentStepIndex := by omega
      rcases hcleared j other (by omega) hjw hother hdet with hraised | hgone
      · omega
      · exact hgone row hrow hname (by rw [hg, hold])

/-- Some deterministic step from `target` up to the position has a step run of its
current generation. -/
def standing (workflow : Workflow) (w : World) (target : Nat) : Bool :=
  ((workflow.steps.take (w.state.currentStepIndex + 1)).drop target).any fun step =>
    step.isDeterministic && w.rows.any fun row =>
      row.stepName == step.name && row.generation == some (w.state.generation step.name)

/-- A move back, unless it is a deterministic step's route, passes over no result of a current
generation. Where the move goes is what the decision it follows makes of the state, so the
position is read off the step. -/
def renews (host : Host) (workflow : Workflow) (run : Run) (e : Event) : Bool :=
  let target := (Run.step host workflow run e).world.state.currentStepIndex
  routes workflow run.world.state || run.world.state.currentStepIndex ≤ target ||
    !standing workflow run.world target

theorem not_standing {target j : Nat} {other : StepDefinition} {row : StepRun}
    (h : standing workflow w target = false) (htarget : target ≤ j)
    (hj : j ≤ w.state.currentStepIndex) (hother : workflow.steps[j]? = some other)
    (hdet : other.isDeterministic) (hrow : row ∈ w.rows) (hname : row.stepName = other.name) :
    row.generation ≠ some (w.state.generation other.name) := by
  intro hgen
  have hmem : other ∈ (workflow.steps.take (w.state.currentStepIndex + 1)).drop target := by
    apply mem_of_getElem? (i := j - target)
    rw [getElem?_drop, getElem?_take, if_pos (by omega)]
    rw [show target + (j - target) = j by omega]
    exact hother
  have hany : w.rows.any (fun row => row.stepName == other.name &&
      row.generation == some (w.state.generation other.name)) := by
    rw [any_eq_true]
    refine ⟨row, hrow, ?_⟩
    rw [hname, hgen, beq_self_eq_true, beq_self_eq_true, Bool.and_self]
  have hstanding : standing workflow w target := by
    rw [standing, any_eq_true]
    exact ⟨other, hmem, by rw [hdet, hany, Bool.and_self]⟩
  rw [h] at hstanding
  cases hstanding

/-- What an iteration leaves of the records it began with, if the task goes on. -/
structure Left (fresh : StepRun → Prop) (route : Nat → World → Prop) (w v : World) : Prop where
  rows : RowsKept fresh w.rows v.rows
  generation : ∀ name, w.state.generation name ≤ v.state.generation name
  arrivals : v.state.currentStepIndex = w.state.currentStepIndex → v.arrivals = w.arrivals
  position : v.state.currentStepIndex = w.state.currentStepIndex ∨
    w.state.currentStepIndex < v.state.currentStepIndex ∨ route v.state.currentStepIndex v

variable {route : Nat → World → Prop}

theorem Held.left (h : Held fresh w v) : Left fresh route w v where
  rows := h.rows
  generation := h.state.generation
  arrivals _ := by rw [h.arrivals, if_pos rfl]
  position := .inl h.state.index

theorem Underway.left (h : Underway fresh w v) : Left fresh route w v where
  rows := h.rows
  generation := h.state.generation
  arrivals _ := h.arrivals
  position := .inl h.state.index

theorem Placed.left {skips : List String}
    (h : Placed fresh w skips (w.state.currentStepIndex + 1) v) : Left fresh route w v := by
  have hindex := h.state.index
  refine ⟨h.rows, h.state.generation, ?_, .inr (.inl ?_)⟩
  · intro hsame
    omega
  · omega

theorem left_of_moved (h : ∃ index, Placed fresh w [] index v ∧ route index v) :
    Left fresh route w v := by
  obtain ⟨index, hplaced, hroute⟩ := h
  have hindex := hplaced.state.index
  refine ⟨hplaced.rows, hplaced.state.generation, ?_, .inr (.inr ?_)⟩
  · intro hsame
    rw [hplaced.arrivals, if_pos (hindex.symm.trans hsame)]
  · rw [hindex]
    exact hroute

theorem Closed.left {status : WorkflowStatus} (h : Closed workflow fresh w status v)
    (hstep : workflow.steps[w.state.currentStepIndex]? = some step) : Left fresh route w v := by
  have hlt := (List.getElem?_eq_some_iff.mp hstep).1
  have hindex := h.state.index
  refine ⟨h.rows, h.state.generation, ?_, .inr (.inl ?_)⟩
  · intro hsame
    omega
  · omega

theorem VisitPost.left {how : VisitEnd} (h : VisitPost workflow fresh w step route how v)
    (hstep : workflow.steps[w.state.currentStepIndex]? = some step) :
    v.taskStatus.terminal ∨ Left fresh route w v := by
  cases how with
  | retried | deferred | paused | interrupted => exact .inr (Held.left h)
  | skipped | passedOver => exact .inr (Placed.left h)
  | approved | looped | revised | continued | advanced => exact .inr (left_of_moved h)
  | completed => exact .inr (Closed.left h hstep)
  | failed =>
    rcases h with hfailed | hv
    · exact .inl (by rw [hfailed]; rfl)
    · exact .inr (hv.left hstep)
  | cancelled =>
    rcases h with hcancelled | hv
    · exact .inl (by rw [hcancelled]; rfl)
    · exact .inr (hv.left hstep)
  | raised | stopped => exact .inl h
  | finished => exact h.elim

theorem Left.failRunning (h : Left fresh route w v) (hf : Freshness fresh)
    (hroute : ∀ index, route index v → route index (v.commit [.failRunning .failed])) :
    Left fresh route w (v.commit [.failRunning .failed]) where
  rows := h.rows.failRunning hf.stamped v.arrivals .failed
  generation := h.generation
  arrivals := h.arrivals
  position := by
    rcases h.position with hsame | hforward | hr
    · exact .inl hsame
    · exact .inr (.inl hforward)
    · exact .inr (.inr (hroute _ hr))

theorem finishWorkflow_terminal (s : WorkflowState) (how : VisitEnd) :
    Ensures (fun v _ => v = w) (finishWorkflow s how)
      (fun _ v => v.taskStatus.terminal = true) w := by
  unfold finishWorkflow
  dsimp only
  split
  · rw [ensures_bind, ensures_persist]
    exact ⟨rfl, rfl⟩
  · split
    · rw [ensures_bind, ensures_persist]
      exact ⟨rfl, rfl⟩
    · rw [ensures_bind, ensures_persist]
      exact ⟨rfl, rfl⟩

variable (host workflow) in
theorem Run.step_left (run : Run) (e : Event) (hactive : run.world.taskStatus.terminal = false)
    (hrows : ∀ (i : Nat) (row : StepRun), run.world.rows[i]? = some row → row.stepRunId = i) :
    (Run.step host workflow run e).world.taskStatus.terminal ∨
      (∃ step, workflow.steps[run.world.state.currentStepIndex]? = some step ∧
        Left (ofArrival run.world step) (RouteBack workflow run.world) run.world
          (Run.step host workflow run e).world) ∨
      (routes workflow run.world.state = false ∧
        Left bare (fun _ _ => True) run.world (Run.step host workflow run e).world) := by
  have hheld : Held bare run.world run.world := Held.refl hrows hactive
  have hover (hterminal : run.world.taskStatus.terminal) :
      (Run.step host workflow run e).world.taskStatus.terminal := by
    rw [hactive] at hterminal
    cases hterminal
  cases hroutes : routes workflow run.world.state with
  | true =>
    cases hstep : workflow.steps[run.world.state.currentStepIndex]? with
    | none =>
      rw [routes, hstep] at hroutes
      cases hroutes
    | some step =>
      have hpost := visit_post_routes host hstep hroutes hrows hactive
      rcases Run.step_cases _ hpost e with
        ⟨ht, -⟩ | ⟨how, v, hv, hnext⟩ | ⟨_, v, hv, hnext | hnext⟩
      · exact .inl (hover ht)
      · rw [hnext]
        rcases hv.left hstep with hterminal | hleft
        · exact .inl hterminal
        · exact .inr (.inl ⟨step, rfl, hleft⟩)
      · rw [hnext]
        exact .inr (.inl ⟨step, rfl, hv.left⟩)
      · rw [hnext]
        refine .inr (.inl ⟨step, rfl, hv.left.failRunning (freshness_ofArrival _ _) ?_⟩)
        exact fun index hroute => hroute
  | false =>
    cases hstep : workflow.steps[run.world.state.currentStepIndex]? with
    | none =>
      have hvisit : visit host workflow run.world.state =
          finishWorkflow run.world.state .finished := by
        unfold visit
        rw [hstep]
      have hpost := finishWorkflow_terminal (w := run.world) run.world.state .finished
      rw [← hvisit] at hpost
      rcases Run.step_cases _ hpost e with ⟨ht, -⟩ | ⟨how, v, hv, hnext⟩ |
        ⟨_, v, rfl, hnext | hnext⟩
      · exact .inl (hover ht)
      · rw [hnext]
        exact .inl hv
      · rw [hnext]
        exact .inr (.inr ⟨rfl, hheld.left⟩)
      · rw [hnext]
        exact .inr (.inr ⟨rfl, hheld.left.failRunning freshness_bare fun _ _ => trivial⟩)
    | some =>
      have hpost := visit_post_other host hstep hroutes hrows hactive
      rcases Run.step_cases _ hpost e with
        ⟨ht, -⟩ | ⟨how, v, hv, hnext⟩ | ⟨o, v, hv, hnext | hnext⟩
      · exact .inl (hover ht)
      · rw [hnext]
        rcases hv.left hstep with hterminal | hleft
        · exact .inl hterminal
        · exact .inr (.inr ⟨rfl, hleft⟩)
      · rw [hnext]
        exact .inr (.inr ⟨rfl, Held.left hv⟩)
      · rw [hnext]
        exact .inr (.inr ⟨rfl, Left.failRunning (Held.left hv) freshness_bare fun _ _ => trivial⟩)

theorem Renewed.runStep {run : Run} {e : Event} (hvalid : validateWorkflow workflow = .ok ())
    (h : run.world.taskStatus.terminal ∨ Renewed workflow run.world)
    (he : renews host workflow run e) :
    (Run.step host workflow run e).world.taskStatus.terminal ∨
      Renewed workflow (Run.step host workflow run e).world := by
  by_cases hterminal : run.world.taskStatus.terminal
  · left
    rw [Run.step, if_pos hterminal]
    exact hterminal
  · have hactive : run.world.taskStatus.terminal = false := by
      simpa using hterminal
    have hinv : Renewed workflow run.world := h.resolve_left hterminal
    rcases Run.step_left host workflow run e hactive hinv.numbered with
      hover | ⟨step, hstep, hleft⟩ | ⟨hroutes, hleft⟩
    · exact .inl hover
    · refine .inr (hinv.next hvalid (fun row hrow => .inr ⟨step, hstep, hrow⟩) hleft.rows
        hleft.generation ?_)
      rcases hleft.position with hsame | hforward | hback
      · exact .inl ⟨hsame, hleft.arrivals hsame⟩
      · exact .inr (.inl hforward)
      · exact .inr (.inr fun j other hj hjw hother _ => .inl (hback j other hj hjw hother))
    · refine .inr (hinv.next hvalid (fun row hrow => .inl hrow) hleft.rows hleft.generation ?_)
      rcases hleft.position with hsame | hforward | -
      · exact .inl ⟨hsame, hleft.arrivals hsame⟩
      · exact .inr (.inl hforward)
      · unfold renews at he
        dsimp only at he
        rw [hroutes, Bool.false_or, Bool.or_eq_true, decide_eq_true_eq] at he
        rcases he with hle | hclear
        · rcases hle.lt_or_eq with hforward | hsame
          · exact .inr (.inl hforward)
          · exact .inl ⟨hsame.symm, hleft.arrivals hsame.symm⟩
        · have hclear : standing workflow run.world
              (Run.step host workflow run e).world.state.currentStepIndex = false := by
            simpa using hclear
          refine .inr (.inr fun j other hj hjw hother hdet => .inr ?_)
          intro row hrow hname hgen
          obtain ⟨i, hi⟩ := mem_iff_getElem?.mp hrow
          rcases hleft.rows.old i row hi with ⟨first, hfirst, hn, hg, -⟩ | hbare
          · exact not_standing hclear hj hjw hother hdet (mem_of_getElem? hfirst)
              (hn.symm.trans hname) (hg.symm.trans hgen)
          · rw [hbare] at hgen
            cases hgen

/-- In every run whose moves back, deterministic routes apart, pass over no result of
a current generation, the step run a deterministic step takes up belongs to its
present arrival; without one the step is executed anew. -/
theorem deterministic_results_renewed (hvalid : validateWorkflow workflow = .ok ())
    (es : List Event)
    (h : Meets (Run.step host workflow) (fun run e => renews host workflow run e = true) {} es)
    {w : World} (hw : (run (Run.step host workflow) {} es).world = w)
    (hactive : w.taskStatus.terminal = false) {step : StepDefinition}
    (hstep : workflow.steps[w.state.currentStepIndex]? = some step)
    (hdet : step.isDeterministic) {row : StepRun}
    (hrow : currentRow w.state step (latestStepRun w.rows step.name) = some row) :
    row.startedAt = w.arrivals := by
  have hstart : Renewed workflow ({} : Run).world := by
    refine ⟨?_, ?_⟩
    · intro i row hi
      cases hi
    · intro j step _ _ row hmem
      cases hmem
  have hinv := run_invariant_of_meets
    (fun run => run.world.taskStatus.terminal = true ∨ Renewed workflow run.world)
    (fun run e hrun he => Renewed.runStep hvalid hrun he) (.inr hstart) h
  rw [hw, hactive] at hinv
  have hrenewed : Renewed workflow w := hinv.resolve_left (by decide)
  rw [currentRow, Option.filter_eq_some_iff, decide_eq_true_eq] at hrow
  obtain ⟨hlatest, hgen⟩ := hrow
  obtain ⟨hmem, hname⟩ := mem_of_latestStepRun hlatest
  obtain ⟨-, hcurrent⟩ := hrenewed.arrived _ step hstep hdet row hmem hname _ hgen
  rcases hcurrent rfl with hpassed | ⟨-, hstarted⟩
  · exact absurd hpassed (Nat.lt_irrefl _)
  · exact hstarted

def publishStep : StepDefinition :=
  { name := "publish", kind := .toolCall {} { tool := "publish" } none }

def publishing (last : StepDefinition) : Workflow where
  defaults := { evaluate := false }
  steps := [{ name := "draft", kind := .run { requireDeliverable := false } }, publishStep, last]

def checkStep : StepDefinition :=
  { name := "check", kind := .condition {} { if_ := "true", then_ := some "draft" } }

def reviewStep : StepDefinition :=
  { name := "review", kind := .gate (some { message := "Publish?" }) }

def publishingRun : List Event :=
  [.visit (Outside.ready "first" .approved (.revise "draft")),
    .visit (Outside.ready "first" .approved (.revise "draft")),
    .visit (Outside.ready "first" .approved (.revise "draft")),
    .visit (Outside.ready "second" .approved (.revise "draft"))]

/-- The second call of the tool is killed after it was recorded: the step run it
left is taken up again, not the one of the first round. -/
theorem deterministic_results_renewed_condition :
    let workflow := publishing checkStep
    let w := (run (Run.step Host.literal workflow) {}
      (publishingRun ++ [.crash (Outside.ready "second" .approved .cancel) 3])).world
    (currentRow w.state publishStep (latestStepRun w.rows "publish")).map StepRun.startedAt =
      some w.arrivals ∧ w.arrivals = 4 := by
  intro workflow w
  have hfour : w.arrivals = 4 := by decide +kernel
  refine ⟨?_, hfour⟩
  cases hrow : currentRow w.state publishStep (latestStepRun w.rows "publish") with
  | none =>
    have hsome : currentRow w.state publishStep (latestStepRun w.rows "publish") ≠ none := by
      decide +kernel
    exact absurd hrow hsome
  | some row =>
    have hmeets : Meets (Run.step Host.literal workflow)
        (fun run e => renews Host.literal workflow run e = true) {}
        (publishingRun ++ [.crash (Outside.ready "second" .approved .cancel) 3]) := by
      decide +kernel
    have hvalid : validateWorkflow workflow = .ok () := by decide +kernel
    have hactive : w.taskStatus.terminal = false := by decide +kernel
    have hat : workflow.steps[w.state.currentStepIndex]? = some publishStep := by decide +kernel
    have hdet : publishStep.isDeterministic := by decide
    have hstarted : row.startedAt = w.arrivals :=
      deterministic_results_renewed hvalid _ hmeets (Eq.refl w) hactive hat hdet hrow
    rw [Option.map_some, hstarted]

/-- After the gate sends the draft back, the tool is not called with the new one: the
step answers with the call made before the move. -/
theorem gate_revise_reuses_result :
    let workflow := publishing reviewStep
    let w := (run (Run.step Host.literal workflow) {} publishingRun).world
    let last := (Run.step Host.literal workflow { world := w }
      (.visit (Outside.ready "second" .approved .cancel))).world
    validateWorkflow workflow = .ok () ∧ w.taskStatus = .running ∧
      workflow.steps[w.state.currentStepIndex]? = some publishStep ∧
      (currentRow w.state publishStep (latestStepRun w.rows "publish")).map StepRun.startedAt =
        some 1 ∧ w.arrivals = 4 ∧
      last.state.currentStepIndex = 2 ∧ last.dispatched.length = 1 ∧
      (last.state.stepOutputs.get? "draft").map StepOutput.summary = some "second" ∧
      (last.state.stepOutputs.get? "publish").map StepOutput.outputs =
        some (.obj [("output", .str "first")]) := by
  decide +kernel

end Cognis.WorkflowEngine
