import Cognis.WorkflowEngine.Logic

namespace Cognis.WorkflowEngine

variable {α β : Type} {host : Host} {workflow : Workflow} {step : StepDefinition}
  {s : WorkflowState} {w : World}

def Op.awaits : Op → Bool
  | .awaitDecision _ => true
  | _ => false

/-- A program that waits for no decision. -/
def Unwaiting (p : Prog α) : Prop :=
  ∀ w, Ensures (fun _ o => o.awaits = false) p (fun _ _ => True) w

theorem unwaiting_pure (a : α) : Unwaiting (pure a : Prog α) := fun _ => trivial

variable {p : Prog α} {f : α → Prog β}

theorem Unwaiting.bind (hp : Unwaiting p) (hf : ∀ a, Unwaiting (f a)) : Unwaiting (p >>= f) := by
  intro w
  rw [ensures_bind]
  exact (hp w).mono fun a v _ => hf a v

theorem Unwaiting.map (hp : Unwaiting p) (f : α → β) : Unwaiting (f <$> p) :=
  hp.bind fun a => unwaiting_pure (f a)

theorem unwaiting_perform (o : Op) (ho : o.awaits = false) :
    Unwaiting (Program.perform (ρ := Reply) o) :=
  fun _ => ⟨ho, fun _ _ => trivial⟩

/-- `R` of every wait of the program: its gate, the records meanwhile and the
program that takes the reply. -/
def Awaits (R : String → World → (GateReply → Prog α) → Prop) (p : Prog α) (w : World) : Prop :=
  p.Tracked World.after World.answers (fun v o k =>
      match o, k with
      | .awaitDecision gate, k => R gate v k
      | _, _ => True) w

variable {R : String → World → (GateReply → Prog β) → Prop}

theorem Unwaiting.awaits {p : Prog β} (h : Unwaiting p) : Awaits R p w := by
  refine (h w).tracked ?_
  intro v o k ho
  cases o with
  | awaitDecision => cases ho
  | _ => trivial

theorem awaits_bind {P : World → Op → Prop} {Q : α → World → Prop}
    (hp : Awaits (fun gate v k => R gate v fun r => k r >>= f) p w) (hQ : Ensures P p Q w)
    (hf : ∀ a v, Q a v → Awaits R (f a) v) : Awaits R (p >>= f) w := by
  refine Program.tracked_bind (hp.mono ?_) hQ hf
  intro v o k h
  cases o with
  | awaitDecision => exact h
  | _ => trivial

theorem Awaits.mono {R' : String → World → (GateReply → Prog β) → Prop} {p : Prog β}
    (h : Awaits R p w) (hR : ∀ gate v k, R gate v k → R' gate v k) : Awaits R' p w := by
  refine Program.Tracked.mono h ?_
  intro v o k ho
  cases o with
  | awaitDecision gate => exact hR gate v k ho
  | _ => trivial

theorem ensures_trivial (p : Prog α) (w : World) :
    Ensures (fun _ _ => True) p (fun _ _ => True) w := by
  induction p generalizing w with
  | done _ => trivial
  | call o k ih => exact ⟨trivial, fun r _ => ih r _⟩

theorem Unwaiting.awaits_bind (hp : Unwaiting p)
    (hf : ∀ a v, Awaits R (f a) v) : Awaits R (p >>= f) w :=
  WorkflowEngine.awaits_bind hp.awaits (ensures_trivial p w) fun a v _ => hf a v

theorem persist_unwaiting (s : WorkflowState) (task : TaskStatus) : Unwaiting (persist s task) :=
  unwaiting_perform _ rfl

theorem commit_unwaiting (writes : List Write) : Unwaiting (commit writes) :=
  unwaiting_perform _ rfl

theorem latest_unwaiting (name : String) : Unwaiting (latest name) := unwaiting_perform _ rfl

theorem newStepRunId_unwaiting : Unwaiting newStepRunId := unwaiting_perform _ rfl

theorem persistGateEvaluation_unwaiting (gateName : String) (action : Action) :
    Unwaiting (persistGateEvaluation gateName action) := by
  refine (latest_unwaiting gateName).bind ?_
  intro row
  cases row with
  | none => exact newStepRunId_unwaiting.bind fun id => commit_unwaiting _
  | some row => exact commit_unwaiting _

theorem finishWorkflow_unwaiting (s : WorkflowState) (how : VisitEnd) :
    Unwaiting (finishWorkflow s how) := by
  unfold finishWorkflow
  dsimp only
  split
  · exact (persist_unwaiting _ _).bind fun _ => unwaiting_pure how
  · split
    · exact (persist_unwaiting _ _).bind fun _ => unwaiting_pure how
    · exact (persist_unwaiting _ _).bind fun _ => unwaiting_pure how

theorem fail_unwaiting (s : WorkflowState) : Unwaiting (fail s) := finishWorkflow_unwaiting _ _

theorem cancel_unwaiting (s : WorkflowState) : Unwaiting (cancel s) := finishWorkflow_unwaiting _ _

theorem raise_unwaiting (s : WorkflowState) (raised : Raised) : Unwaiting (raise s raised) := by
  have hexception : Unwaiting (raise s .exception) := by
    exact (commit_unwaiting _).bind fun _ =>
      (persist_unwaiting _ _).bind fun _ => unwaiting_pure _
  cases raised with
  | transient | exception => exact hexception
  | interrupted cancelled =>
    cases cancelled with
    | true | false => exact (persist_unwaiting _ _).bind fun _ => unwaiting_pure _

theorem deferTransient_unwaiting (s : WorkflowState) : Unwaiting (deferTransient step s) := by
  exact (persist_unwaiting _ _).bind fun _ => unwaiting_pure _

theorem stayPaused_unwaiting (s : WorkflowState) : Unwaiting (stayPaused s) := by
  exact (persist_unwaiting _ _).bind fun _ => unwaiting_pure _

theorem conclude_unwaiting (s : WorkflowState) (result : Except Raised Handled) :
    Unwaiting (conclude s result) := by
  cases result with
  | error raised => exact raise_unwaiting s raised
  | ok handled =>
    cases handled with
    | unhandled => exact fail_unwaiting s
    | looped | retried | deferred | exhausted how => exact unwaiting_pure _

theorem skipExhausted_unwaiting (s : WorkflowState) : Unwaiting (skipExhausted step s) := by
  have hlast (u : WorkflowState) : Unwaiting (do
      let u := { u with
        skippedSteps := u.skippedSteps ++ [step.name]
        lastOperatorInstruction := none
        currentStepIndex := u.currentStepIndex + 1 }
      persist u .running
      return u) :=
    (persist_unwaiting _ _).bind fun _ => unwaiting_pure _
  refine (latest_unwaiting step.name).bind ?_
  intro row
  cases row with
  | none => exact hlast s
  | some row =>
    refine Unwaiting.bind (unwaiting_perform _ rfl) ?_
    intro deliverable
    cases deliverable with
    | none => exact hlast s
    | some => exact hlast _

theorem followExhausted_unwaiting (decision : WorkflowState × Except Raised Action) :
    Unwaiting (followExhausted workflow decision) := by
  obtain ⟨s, result⟩ := decision
  cases result with
  | error => exact unwaiting_pure _
  | ok action =>
    cases action with
    | «continue» | cancel => exact (persist_unwaiting _ _).bind fun _ => unwaiting_pure _
    | revise =>
      unfold followExhausted
      dsimp only
      split
      · exact unwaiting_pure _
      · exact (persist_unwaiting _ _).bind fun _ => unwaiting_pure _
    | fail | gate | other => exact unwaiting_pure _

theorem settle_unwaiting (id : Nat) (ending : Ending) : Unwaiting (settle step id ending) := by
  have hfinalize (info : RuntimeInfo) (output : StepOutput) (status : StepRunStatus)
      (next : Option Nat) (workflowStatus : Option CompletionStatus) (action : Option ErrorAction) :
      Unwaiting (finalizeDeterministicStep id info output status next workflowStatus action) := by
    exact (commit_unwaiting _).bind fun _ => (commit_unwaiting _).bind fun _ => unwaiting_pure _
  cases ending with
  | finalize | fail =>
    exact hfinalize _ _ _ _ _ _

theorem executeToolCallStep_unwaiting (config : ToolCallStepConfig) (next : Option String)
    (id : Nat) (info : RuntimeInfo) (context : RenderContext) :
    Unwaiting (executeToolCallStep host workflow step config next s id info context) := by
  have hsettle (ending : Ending) : Unwaiting (Except.ok (ε := Raised) <$> settle step id ending) :=
    (settle_unwaiting id ending).map _
  unfold executeToolCallStep
  split
  · exact hsettle _
  · split
    · refine (commit_unwaiting _).bind fun _ => Unwaiting.bind (unwaiting_perform _ rfl) ?_
      intro lookup
      cases lookup with
      | transient => exact unwaiting_pure _
      | raised => exact hsettle _
      | found =>
        dsimp only
        split
        · exact hsettle _
        · refine (commit_unwaiting _).bind fun _ => Unwaiting.bind (unwaiting_perform _ rfl) ?_
          intro reply
          cases reply with
          | transient => exact unwaiting_pure _
          | timeout | raised | result => exact hsettle _
    · exact hsettle _

theorem runDeterministicStep_unwaiting (id : Nat) (info : RuntimeInfo) :
    Unwaiting (runDeterministicStep host workflow step s id info) := by
  have hsettle (ending : Ending) : Unwaiting (Except.ok (ε := Raised) <$> settle step id ending) :=
    (settle_unwaiting id ending).map _
  unfold runDeterministicStep
  extract_lets context body
  have hbody : Unwaiting body := by
    unfold body
    split
    · exact hsettle _
    · exact hsettle _
    · exact executeToolCallStep_unwaiting _ _ _ _ _
    · exact unwaiting_pure _
    · exact unwaiting_pure _
  split
  · exact hbody
  · split
    · exact hsettle _
    · refine (commit_unwaiting _).bind fun _ => ?_
      split
      · exact hbody
      · exact hsettle _

theorem executeDeterministicStep_unwaiting :
    Unwaiting (executeDeterministicStep host workflow step s) := by
  have hfail (row : StepRun) (error : String) : Unwaiting
      (some <$> failDeterministicStep step row.stepRunId row.runtimeInfo error none none) :=
    (settle_unwaiting row.stepRunId (.fail row.runtimeInfo error none none)).map some
  have hrecover (row : StepRun) : Unwaiting (recoverDeterministicStep workflow step row) := by
    unfold recoverDeterministicStep
    dsimp only
    split
    · split
      · exact unwaiting_pure _
      · split
        · exact (commit_unwaiting _).bind fun _ => unwaiting_pure _
        · split
          · exact hfail row _
          · exact unwaiting_pure _
    · split
      · exact hfail row _
      · exact unwaiting_pure _
  refine (latest_unwaiting step.name).bind ?_
  intro row
  split
  · refine (hrecover _).bind ?_
    intro result
    cases result with
    | some => exact unwaiting_pure _
    | none => exact runDeterministicStep_unwaiting _ _
  · exact newStepRunId_unwaiting.bind fun id =>
      (commit_unwaiting _).bind fun _ => runDeterministicStep_unwaiting _ _

theorem executeRunStep_unwaiting : Unwaiting (executeRunStep workflow step s) := by
  have hstart : Unwaiting (startRunStep step s) := by
    refine (latest_unwaiting step.name).bind ?_
    intro row
    cases row with
    | none =>
      exact newStepRunId_unwaiting.bind fun id => (commit_unwaiting _).bind fun _ =>
        unwaiting_pure _
    | some row => exact (commit_unwaiting _).bind fun _ => unwaiting_pure _
  have hfinish (id : Nat) (info : RuntimeInfo) :
    Unwaiting (finishRunStep workflow step id info) := by
    refine Unwaiting.bind (unwaiting_perform _ rfl) ?_
    intro reply
    cases reply with
    | interrupted | raised =>
      exact (commit_unwaiting _).bind fun _ => unwaiting_pure _
    | finished output => exact (commit_unwaiting _).bind fun _ => unwaiting_pure _
  refine Unwaiting.bind (unwaiting_perform _ rfl) ?_
  intro resolved
  split
  · refine hstart.bind ?_
    rintro ⟨id, info⟩
    refine Unwaiting.bind (unwaiting_perform _ rfl) ?_
    intro runtime
    cases runtime with
    | transient | failed error => exact (commit_unwaiting _).bind fun _ => unwaiting_pure _
    | ready =>
      exact (commit_unwaiting _).bind fun _ => (hfinish id info).bind fun _ => unwaiting_pure _
  · exact unwaiting_pure _

theorem routeDeterministic_unwaiting (result : DeterministicResult) :
    Unwaiting (routeDeterministic workflow step s result) := by
  unfold routeDeterministic
  dsimp only
  split
  · exact raise_unwaiting _ _
  · exact (persist_unwaiting _ _).bind fun _ => unwaiting_pure _

theorem settleError_unwaiting (result : DeterministicResult)
    (answer : WorkflowState × Except Raised ErrorGate) :
    Unwaiting (settleError workflow step result answer) := by
  obtain ⟨s, result⟩ := answer
  cases result with
  | error => exact raise_unwaiting _ _
  | ok decision =>
    cases decision with
    | paused => exact unwaiting_pure _
    | cancel => exact cancel_unwaiting _
    | fail => exact fail_unwaiting _
    | «continue» => exact routeDeterministic_unwaiting _

/-- A wait at the gate `name` in the state `s`; `F` takes the decision. -/
def GateWait (host : Host) (workflow : Workflow) (name : String) (s : WorkflowState)
    (F : WorkflowState × Except Raised Action → Prog α) (gateName : String) (v : World)
    (k : GateReply → Prog α) : Prop :=
  gateName = name ∧ ∃ gate, v.state = pausedState workflow name gate s ∧
    ∀ reply, k reply = followReply host name gate (gateContext gate s)
      (pausedState workflow name gate s) reply >>= F

theorem followReply_unwaiting (name : String) (gate : GateConfig)
    (context : List (String × StepOutput)) (reply : GateReply) :
    Unwaiting (followReply host name gate context s reply) := by
  cases reply with
  | interrupted => exact unwaiting_pure _
  | decided =>
    exact (persistGateEvaluation_unwaiting _ _).bind fun _ => unwaiting_pure _

theorem handleGateStep_awaits {name : String} {gate : Option GateConfig}
    {F : WorkflowState × Except Raised Action → Prog β} (hF : ∀ d v, Awaits R (F d) v)
    (hR : ∀ gateName v k, GateWait host workflow name s F gateName v k → R gateName v k) :
    Awaits R (handleGateStep host workflow name gate s >>= F) w := by
  have hwait (gate : GateConfig) (v : World) :
      Awaits (fun gateName v k => R gateName v fun r => k r >>= F)
        (waitAtGate host workflow name gate s) v := by
    refine ⟨trivial, fun _ _ => ⟨hR _ _ _ ⟨rfl, gate, rfl, fun _ => rfl⟩, ?_⟩⟩
    intro reply _
    exact (followReply_unwaiting name gate _ reply).awaits
  refine awaits_bind ?_ (ensures_trivial _ w) fun d v _ => hF d v
  unfold handleGateStep
  split
  · split
    · exact (unwaiting_pure _).awaits
    · refine Unwaiting.awaits_bind (unwaiting_perform _ rfl) ?_
      intro decision v
      cases decision with
      | none => exact hwait _ v
      | some =>
        exact ((persistGateEvaluation_unwaiting _ _).bind fun _ => unwaiting_pure _).awaits
  · split
    · exact (unwaiting_pure _).awaits
    · split
      · exact (unwaiting_pure _).awaits
      · split
        · exact ((persistGateEvaluation_unwaiting _ _).bind fun _ => unwaiting_pure _).awaits
        · exact hwait _ w

theorem GateWait.bind {name : String} {F : WorkflowState × Except Raised Action → Prog α}
    {gateName : String} {v : World} {k : GateReply → Prog α} (G : α → Prog β)
    (h : GateWait host workflow name s F gateName v k) :
    GateWait host workflow name s (fun decision => F decision >>= G) gateName v
      (fun reply => k reply >>= G) := by
  obtain ⟨hname, gate, hpaused, hk⟩ := h
  refine ⟨hname, gate, hpaused, ?_⟩
  intro reply
  dsimp only
  rw [hk reply, Program.seq_assoc]

theorem handleGateStep_index (name : String) (gate : Option GateConfig) :
    Ensures (fun _ _ => True) (handleGateStep host workflow name gate s)
      (fun decision _ => decision.1.currentStepIndex = s.currentStepIndex) w := by
  have hgate (action : Action) (u : WorkflowState) (v : World) :
      Ensures (fun _ _ => True) (do
          persistGateEvaluation name action
          return (u, Except.ok (ε := Raised) action))
        (fun decision _ => decision.1.currentStepIndex = u.currentStepIndex) v := by
    rw [ensures_bind]
    exact (ensures_trivial _ v).mono fun _ _ _ => rfl
  have hwait (gate : GateConfig) (v : World) :
      Ensures (fun _ _ => True) (waitAtGate host workflow name gate s)
        (fun decision _ => decision.1.currentStepIndex = s.currentStepIndex) v := by
    unfold waitAtGate
    rw [ensures_bind, ensures_persist]
    refine ⟨trivial, ?_⟩
    rw [ensures_bind, ensures_awaitDecision]
    refine ⟨trivial, ?_⟩
    intro reply
    cases reply with
    | interrupted => rfl
    | decided action =>
      refine (hgate action _ _).mono ?_
      intro decision _ hindex
      rw [hindex]
      dsimp only [resumedState]
      split
      · split <;> rfl
      · rfl
  unfold handleGateStep
  split
  · split
    · rfl
    · rw [ensures_bind, ensures_resolvedDecision]
      refine ⟨trivial, ?_⟩
      intro decision
      cases decision with
      | none => exact hwait _ w
      | some => exact hgate _ _ w
  · split
    · rfl
    · split
      · rfl
      · split
        · exact hgate _ _ w
        · exact hwait _ w

theorem handleExhausted_index (action : OnExhausted) (lastError : Option String) :
    Ensures (fun _ _ => True) (handleExhausted host workflow step s action lastError)
      (fun x _ => x.2 = .ok none → x.1.currentStepIndex = s.currentStepIndex) w := by
  unfold handleExhausted
  cases action with
  | «continue» =>
    rw [ensures_bind]
    refine (ensures_trivial _ w).mono ?_
    intro u _ _ hnone
    cases hnone
  | fail => exact fun _ => rfl
  | gate =>
    dsimp only
    split
    · exact fun _ => rfl
    · rw [ensures_bind]
      refine (handleGateStep_index _ _).mono ?_
      rintro ⟨u, result⟩ v hindex
      cases result with
      | error raised => exact fun hnone => by cases hnone
      | ok decision =>
        cases decision with
        | «continue» | cancel => exact ⟨trivial, fun _ _ hnone => by cases hnone⟩
        | revise =>
          unfold followExhausted
          dsimp only
          split
          · exact fun _ => hindex
          · exact ⟨trivial, fun _ _ hnone => by cases hnone⟩
        | fail | gate | other text => exact fun _ => hindex

theorem recordEvaluationFeedback_unwaiting (evaluation : StepEvaluation) :
    Unwaiting (recordEvaluationFeedback step s evaluation) := by
  refine Unwaiting.bind (unwaiting_perform _ rfl) ?_
  intro recorded
  split
  · exact unwaiting_pure _
  · exact unwaiting_pure _

end Cognis.WorkflowEngine
