import Cognis.WorkflowEngine.Engine

namespace Cognis.WorkflowEngine

variable (s : WorkflowState) (writes : List Write) (call : ToolCall) (step : String)
  (task : TaskStatus)

variable {α β : Type} {P : World → Op → Prop} {w : World}

/-- Every operation of the program meets `P`, and its result `Q`. -/
def Ensures (P : World → Op → Prop) (p : Prog α) (Q : α → World → Prop) (w : World) : Prop :=
  p.Always World.after World.answers P Q w

@[simp] theorem ensures_pure (a : α) (Q : α → World → Prop) :
    Ensures P (pure a) Q w ↔ Q a w := Iff.rfl

@[simp] theorem ensures_bind (p : Prog α) (f : α → Prog β) (Q : β → World → Prop) :
    Ensures P (p >>= f) Q w ↔ Ensures P p (fun a v => Ensures P (f a) Q v) w :=
  Program.always_bind p f Q w

@[simp] theorem ensures_map (p : Prog α) (f : α → β) (Q : β → World → Prop) :
    Ensures P (f <$> p) Q w ↔ Ensures P p (fun a v => Q (f a) v) w :=
  Program.always_map p f Q w

theorem Ensures.mono {p : Prog α} {Q Q' : α → World → Prop} (h : Ensures P p Q w)
    (hQ : ∀ a v, Q a v → Q' a v) : Ensures P p Q' w :=
  Program.Always.mono h hQ

theorem Ensures.mono_pre {P' : World → Op → Prop} {p : Prog α} {Q : α → World → Prop}
    (h : Ensures P p Q w) (hP : ∀ v o, P v o → P' v o) : Ensures P' p Q w :=
  Program.Always.mono_pre h hP

section

@[simp] theorem ensures_persist (Q : Unit → World → Prop) :
    Ensures P (persist s task) Q w ↔ P w (.persist s task) ∧ Q () (w.persist s task) := by
  refine and_congr Iff.rfl ⟨fun h => h () trivial, fun h _ _ => h⟩

@[simp] theorem ensures_commit (Q : Unit → World → Prop) :
    Ensures P (commit writes) Q w ↔ P w (.commit writes) ∧ Q () (w.commit writes) := by
  refine and_congr Iff.rfl ⟨fun h => h () trivial, fun h _ _ => h⟩

@[simp] theorem ensures_latest (name : String) (Q : Option StepRun → World → Prop) :
    Ensures P (latest name) Q w ↔ P w (.latestStepRun name) ∧ Q (latestStepRun w.rows name) w := by
  refine and_congr Iff.rfl ⟨fun h => h _ rfl, ?_⟩
  rintro h _ rfl
  exact h

@[simp] theorem ensures_newStepRunId (Q : Nat → World → Prop) :
    Ensures P newStepRunId Q w ↔ P w .newStepRunId ∧ Q w.rows.length w := by
  refine and_congr Iff.rfl ⟨fun h => h _ rfl, ?_⟩
  rintro h _ rfl
  exact h

@[simp] theorem ensures_dispatch (Q : ToolReply → World → Prop) :
    Ensures P (dispatch call) Q w ↔ P w (.dispatch call) ∧ ∀ r, Q r (w.after (.dispatch call)) :=
  and_congr Iff.rfl ⟨fun h r => h r trivial, fun h r _ => h r⟩

@[simp] theorem ensures_toolDefinition (tool : String) (Q : ToolLookup → World → Prop) :
    Ensures P (toolDefinition tool) Q w ↔ P w (.toolDefinition tool) ∧ ∀ r, Q r w :=
  and_congr Iff.rfl ⟨fun h r => h r trivial, fun h r _ => h r⟩

@[simp] theorem ensures_resolvedDecision (gate : String)
    (Q : Option (Action × String) → World → Prop) :
    Ensures P (resolvedDecision gate) Q w ↔ P w (.resolvedDecision gate) ∧ ∀ r, Q r w :=
  and_congr Iff.rfl ⟨fun h r => h r trivial, fun h r _ => h r⟩

@[simp] theorem ensures_awaitDecision (gate : String) (Q : GateReply → World → Prop) :
    Ensures P (awaitDecision gate) Q w ↔ P w (.awaitDecision gate) ∧ ∀ r, Q r w :=
  and_congr Iff.rfl ⟨fun h r => h r trivial, fun h r _ => h r⟩

@[simp] theorem ensures_rejectedDeliverable (id : Nat) (Q : Option Deliverable → World → Prop) :
    Ensures P (rejectedDeliverable id) Q w ↔ P w (.rejectedDeliverable id) ∧ ∀ r, Q r w :=
  and_congr Iff.rfl ⟨fun h r => h r trivial, fun h r _ => h r⟩

@[simp] theorem ensures_recordFeedback (Q : Bool → World → Prop) :
    Ensures P (recordFeedback step) Q w ↔ P w (.recordFeedback step) ∧ ∀ r, Q r w :=
  and_congr Iff.rfl ⟨fun h r => h r trivial, fun h r _ => h r⟩

@[simp] theorem ensures_resolveAgents (Q : Bool → World → Prop) :
    Ensures P (resolveAgents step) Q w ↔ P w (.resolveAgents step) ∧ ∀ r, Q r w :=
  and_congr Iff.rfl ⟨fun h r => h r trivial, fun h r _ => h r⟩

@[simp] theorem ensures_resolveRuntime (Q : RuntimeReply → World → Prop) :
    Ensures P (resolveRuntime step) Q w ↔ P w (.resolveRuntime step) ∧ ∀ r, Q r w :=
  and_congr Iff.rfl ⟨fun h r => h r trivial, fun h r _ => h r⟩

@[simp] theorem ensures_runStep (Q : AgentReply → World → Prop) :
    Ensures P (runStep step) Q w ↔ P w (.runStep step) ∧ ∀ r, Q r w :=
  and_congr Iff.rfl ⟨fun h r => h r trivial, fun h r _ => h r⟩

@[simp] theorem ensures_evaluateStep (output : StepOutput) (Q : StepEvaluation → World → Prop) :
    Ensures P (evaluateStep step output) Q w ↔ P w (.evaluateStep step output) ∧ ∀ r, Q r w :=
  and_congr Iff.rfl ⟨fun h r => h r trivial, fun h r _ => h r⟩

end

@[simp] theorem World.persist_state : (w.persist s task).state = s := rfl

section

variable {host : Host} {workflow : Workflow}

/-- What every operation of an iteration meets and its end has holds of a run's next
state: of the records an operation met, if the iteration was cut short. -/
theorem Run.step_cases {run : Run} (Q : VisitEnd → World → Prop)
    (h : Ensures P (visit host workflow run.world.state) Q run.world) (e : Event) :
    run.world.taskStatus.terminal = true ∧ Run.step host workflow run e = run ∨
      (∃ how v, Q how v ∧ Run.step host workflow run e = run.record (some how) v) ∨
      (∃ o v, P v o ∧ (Run.step host workflow run e = run.record none v ∨
        Run.step host workflow run e = run.record none (v.commit [.failRunning .failed]))) := by
  by_cases ht : run.world.taskStatus.terminal = true
  · exact .inl ⟨ht, by rw [Run.step, if_pos ht]⟩
  · have hcrash (outside : Outside) (fuel : Nat) :=
      Program.Always.crash (World.answers_reply outside) h fuel 0
    rw [Run.step, if_neg ht]
    cases e with
    | visit outside =>
      exact .inr (.inl ⟨_, _, Program.Always.exec (World.answers_reply outside) h 0, rfl⟩)
    | crash outside fuel =>
      have hc := hcrash outside fuel
      generalize hr : Program.crash (World.reply outside) World.after
        (WorkflowEngine.visit host workflow run.world.state) fuel 0 run.world = r at hc
      obtain ⟨result, v⟩ := r
      dsimp only
      rw [hr]
      cases result with
      | some how => exact .inr (.inl ⟨how, v, hc, rfl⟩)
      | none =>
        obtain ⟨o, ho⟩ := hc
        exact .inr (.inr ⟨o, v, ho, .inl rfl⟩)
    | shutdown outside fuel =>
      have hc := hcrash outside fuel
      generalize hr : Program.crash (World.reply outside) World.after
        (WorkflowEngine.visit host workflow run.world.state) fuel 0 run.world = r at hc
      obtain ⟨result, v⟩ := r
      dsimp only
      rw [hr]
      cases result with
      | some how => exact .inr (.inl ⟨how, v, hc, rfl⟩)
      | none =>
        obtain ⟨o, ho⟩ := hc
        exact .inr (.inr ⟨o, v, ho, .inr rfl⟩)

end

end Cognis.WorkflowEngine
