import Cognis.WorkflowEngine.Frame

namespace Cognis.WorkflowEngine

variable {host : Host} {workflow : Workflow} {fresh : StepRun → Prop} {base w : World}
  {s : WorkflowState} {step : StepDefinition}

/-- Each operation of an iteration meets records that hold its beginning. -/
def Holding (fresh : StepRun → Prop) (base : World) : World → Op → Prop :=
  fun w _ => Held fresh base w

structure Freshness (fresh : StepRun → Prop) : Prop where
  stamped : Stamped fresh
  bare : ∀ row : StepRun, row.generation = none → fresh row

variable (hf : Freshness fresh)

include hf

variable (gateName : String)

theorem persistGateEvaluation_held (action : Action) (h : Held fresh base w) :
    Ensures (Holding fresh base) (persistGateEvaluation gateName action)
      (fun _ v => Held fresh base v) w := by
  unfold persistGateEvaluation
  rw [ensures_bind, ensures_latest]
  refine ⟨h, ?_⟩
  cases hrow : latestStepRun w.rows gateName with
  | none =>
    rw [ensures_bind, ensures_newStepRunId]
    refine ⟨h, ?_⟩
    rw [ensures_commit]
    refine ⟨h, h.withRows ?_⟩
    exact h.rows.create w.arrivals rfl (hf.bare _ rfl)
  | some row =>
    rw [ensures_commit]
    refine ⟨h, h.update hf.stamped ?_⟩
    intro info hinfo other hother
    have hsame : other = row := by
      rw [h.rows.latest hrow] at hother
      exact (Option.some.inj hother).symm
    have hi : info = row.runtimeInfo := (Option.some.inj hinfo).symm
    rw [hi, hsame]
    rfl

theorem waitAtGate_held (gate : GateConfig) (h : Held fresh base w) (hs : Kept base.state s) :
    Ensures (Holding fresh base) (waitAtGate host workflow gateName gate s)
      (fun r v => Held fresh base v ∧ Kept base.state r.1) w := by
  have hpaused := hs.paused workflow gateName gate
  have hv : Held fresh base (w.persist (pausedState workflow gateName gate s) .paused) :=
    h.persist hpaused rfl
  unfold waitAtGate
  rw [ensures_bind, ensures_persist]
  refine ⟨h, ?_⟩
  rw [ensures_bind, ensures_awaitDecision]
  refine ⟨hv, ?_⟩
  intro reply
  cases reply with
  | interrupted => exact ⟨hv, hpaused⟩
  | decided action instruction =>
    unfold followReply
    rw [ensures_bind]
    refine (persistGateEvaluation_held hf gateName action hv).mono ?_
    intro _ u hu
    refine ⟨hu, Kept.resumed ?_ action instruction⟩
    split
    · split
      · exact hpaused.congr rfl rfl rfl id
      · exact hpaused
    · exact hpaused

theorem handleGateStep_held (gate : Option GateConfig)
    (h : Held fresh base w) (hs : Kept base.state s) :
    Ensures (Holding fresh base) (handleGateStep host workflow gateName gate s)
      (fun r v => Held fresh base v ∧ Kept base.state r.1) w := by
  unfold handleGateStep
  split
  · split
    · exact ⟨h, hs⟩
    · rw [ensures_bind, ensures_resolvedDecision]
      refine ⟨h, ?_⟩
      intro reply
      cases reply with
      | none => exact waitAtGate_held hf gateName _ h hs
      | some reply =>
        obtain ⟨action, instruction⟩ := reply
        unfold resumePause
        rw [ensures_bind]
        refine (persistGateEvaluation_held hf gateName action h).mono ?_
        intro _ u hu
        exact ⟨hu, hs.resumed action instruction⟩
  · split
    · exact ⟨h, hs⟩
    · split
      · exact ⟨h, hs⟩
      · split
        · rw [ensures_bind]
          refine (persistGateEvaluation_held hf gateName _ h).mono ?_
          intro _ u hu
          exact ⟨hu, hs⟩
        · exact waitAtGate_held hf gateName _ h hs

omit hf

/-- The records of a workflow an iteration has ended: the position is past the last
step, and only the task's own end is missing. -/
structure Closed (workflow : Workflow) (fresh : StepRun → Prop) (base : World)
    (status : WorkflowStatus) (w : World) : Prop where
  state : Shifted base.state [] workflow.steps.length w.state
  status : w.state.status = status
  rows : RowsKept fresh base.rows w.rows
  active : w.taskStatus.terminal = false

theorem Held.close (h : Held fresh base w) {u : WorkflowState} {status : WorkflowStatus}
    (hu : Shifted base.state [] workflow.steps.length u) (hstatus : u.status = status) :
    Closed workflow fresh base status (w.persist u .running) :=
  ⟨hu, hstatus, h.rows, rfl⟩

def ExhaustedEnd (workflow : Workflow) (fresh : StepRun → Prop) (base : World)
    (step : StepDefinition) (how : Exhausted) (v : World) : Prop :=
  match how with
  | .skipped => Placed fresh base [step.name] (base.state.currentStepIndex + 1) v
  | .continued => Placed fresh base [] (base.state.currentStepIndex + 1) v
  | .cancelled => Closed workflow fresh base .cancelled v
  | .revised => ∃ index, Placed fresh base [] index v

def ExhaustedPost (workflow : Workflow) (fresh : StepRun → Prop) (base : World)
    (step : StepDefinition) (r : WorkflowState × Except Raised (Option Exhausted)) (v : World) :
    Prop :=
  match r.2 with
  | .error _ | .ok none => Held fresh base v ∧ Kept base.state r.1
  | .ok (some how) => ExhaustedEnd workflow fresh base step how v

theorem skipExhausted_placed (h : Held fresh base w) (hs : Kept base.state s) :
    Ensures (Holding fresh base) (skipExhausted step s)
      (fun _ v => Placed fresh base [step.name] (base.state.currentStepIndex + 1) v) w := by
  have hlast (u : WorkflowState) (hu : Kept base.state u) : Ensures (Holding fresh base) (do
          persist { u with
              skippedSteps := u.skippedSteps ++ [step.name]
              lastOperatorInstruction := none
              currentStepIndex := u.currentStepIndex + 1 }
            .running
          return u)
        (fun _ v => Placed fresh base [step.name] (base.state.currentStepIndex + 1) v) w := by
    rw [ensures_bind, ensures_persist]
    refine ⟨h, h.persist ⟨⟨?_, ?_, hu.generation⟩, hu.live⟩ rfl⟩
    · rw [hu.index]
    · rw [hu.skipped, List.append_nil]
  unfold skipExhausted
  rw [ensures_bind, ensures_latest]
  refine ⟨h, ?_⟩
  split
  · exact hlast s hs
  · rw [ensures_bind, ensures_rejectedDeliverable]
    refine ⟨h, ?_⟩
    intro reply
    split
    · exact hlast s hs
    · exact hlast _ (hs.congr rfl rfl rfl id)

theorem followExhausted_post (result : Except Raised Action) (h : Held fresh base w)
    (hs : Kept base.state s) :
    Ensures (Holding fresh base) (followExhausted workflow (s, result))
      (ExhaustedPost workflow fresh base step) w := by
  cases result with
  | error => exact ⟨h, hs⟩
  | ok decision =>
    cases decision with
    | «continue» =>
      unfold followExhausted
      rw [ensures_bind, ensures_persist]
      refine ⟨h, h.persist ?_ rfl⟩
      have hnext := hs.clearNotes.goto (base.state.currentStepIndex + 1)
      rw [← hs.index] at hnext ⊢
      exact hnext
    | cancel =>
      unfold followExhausted
      rw [ensures_bind, ensures_persist]
      exact ⟨h, h.close ⟨rfl, hs.skipped, hs.generation⟩ rfl⟩
    | revise target =>
      unfold followExhausted
      dsimp only
      split
      · exact ⟨h, hs⟩
      · rename_i index _
        rw [ensures_bind, ensures_persist]
        exact ⟨h, index, h.persist (hs.reviseTo target index) rfl⟩
    | fail | gate | other => exact ⟨h, hs⟩

theorem handleExhausted_post (hf : Freshness fresh) (action : OnExhausted)
    (lastError : Option String) (h : Held fresh base w) (hs : Kept base.state s) :
    Ensures (Holding fresh base) (handleExhausted host workflow step s action lastError)
      (ExhaustedPost workflow fresh base step) w := by
  unfold handleExhausted
  cases action with
  | «continue» =>
    rw [ensures_bind]
    exact skipExhausted_placed h hs
  | fail => exact ⟨h, hs⟩
  | gate =>
    dsimp only
    split
    · exact ⟨h, hs⟩
    · rw [ensures_bind]
      refine (handleGateStep_held hf _ _ h hs).mono ?_
      rintro ⟨u, result⟩ v ⟨hv, hu⟩
      exact followExhausted_post result hv hu

def HandledPost (workflow : Workflow) (fresh : StepRun → Prop) (base : World)
    (step : StepDefinition) (r : WorkflowState × Except Raised Handled) (v : World) : Prop :=
  match r.2 with
  | .error _ | .ok .unhandled => Held fresh base v ∧ Kept base.state r.1
  | .ok .looped => ∃ index, Placed fresh base [] index v
  | .ok .retried | .ok .deferred => Held fresh base v
  | .ok (.exhausted how) => ExhaustedEnd workflow fresh base step how v

theorem ExhaustedPost.handled {r : WorkflowState × Except Raised (Option Exhausted)} {v : World}
    (h : ExhaustedPost workflow fresh base step r v) :
    HandledPost workflow fresh base step (r.1, r.2.map Handled.ofExhausted) v := by
  obtain ⟨u, result⟩ := r
  cases result with
  | error => exact h
  | ok how => cases how <;> exact h

theorem handleReviewLoop_post (hf : Freshness fresh) (onReject : OnRejectConfig)
    (h : Held fresh base w) (hs : Kept base.state s) :
    Ensures (Holding fresh base) (handleReviewLoop host workflow step onReject s)
      (HandledPost workflow fresh base step) w := by
  unfold handleReviewLoop
  dsimp only
  split
  · rw [ensures_bind]
    exact (handleExhausted_post hf _ _ h hs).mono fun r v hr => hr.handled
  · have hset : Kept base.state (s.setIterations (reviewLoopKey onReject.target step.name)
          (s.iterations (reviewLoopKey onReject.target step.name) 0 + 1)) :=
      hs.setIterations (Nat.le_succ _)
    split
    · exact ⟨h, hset⟩
    · rename_i index _
      rw [ensures_bind, ensures_persist]
      exact ⟨h, index, h.persist (Kept.reviseTo hset onReject.target index) rfl⟩

theorem deferStepRecovery_post (hf : Freshness fresh) (failure : StepOutput)
    (h : Held fresh base w) (hs : Kept base.state s) :
    Ensures (Holding fresh base) (deferStepRecovery host workflow step s failure)
      (HandledPost workflow fresh base step) w := by
  have hkey (name : String) := generationKey_ne_recoveryKey name step.name
  have hset : Kept base.state
      { s.setIterations (recoveryKey step.name) (s.iterations (recoveryKey step.name) 0 + 1) with
        lastRetryReason := some .executionFailed
        lastEvaluationFeedback := failure.error } :=
    Moved.congr (hs.setIterations_of_ne hkey) rfl rfl rfl id
  unfold deferStepRecovery
  dsimp only
  split
  · rw [ensures_bind]
    exact (handleExhausted_post hf _ _ h (Moved.popIterations hset hkey)).mono
      fun r v hr => hr.handled
  · rw [ensures_bind, ensures_persist]
    exact ⟨h, h.persist (hset.congr rfl rfl rfl id) rfl⟩

theorem recordEvaluationFeedback_kept (evaluation : StepEvaluation) (h : Held fresh base w)
    (hs : Kept base.state s) :
    Ensures (Holding fresh base) (recordEvaluationFeedback step s evaluation)
      (fun u v => Kept base.state u ∧ v = w) w := by
  unfold recordEvaluationFeedback
  rw [ensures_bind, ensures_recordFeedback]
  refine ⟨h, ?_⟩
  intro recorded
  split
  · exact ⟨hs.congr rfl rfl rfl id, rfl⟩
  · exact ⟨hs.congr rfl rfl rfl id, rfl⟩

theorem retryStep_post (hf : Freshness fresh) (evaluation : Option StepEvaluation)
    (h : Held fresh base w) (hs : Kept base.state s) :
    Ensures (Holding fresh base) (retryStep host workflow step s evaluation)
      (HandledPost workflow fresh base step) w := by
  have hlast (u : WorkflowState) (hu : Kept base.state u) (n : Nat) (reason : RetryReason) :
      Held fresh base (w.persist ({ u with lastRetryReason := some reason }.setIterations
          (attemptsKey step.name) n) .running) := by
    apply h.persist ?_ rfl
    have hnote : Kept base.state { u with lastRetryReason := some reason } :=
      hu.congr rfl rfl rfl id
    exact Moved.setIterations_of_ne hnote fun name => generationKey_ne_attemptsKey name step.name
  unfold retryStep
  dsimp only
  split
  · rw [ensures_bind]
    exact (handleExhausted_post hf _ _ h hs).mono fun r v hr => hr.handled
  · cases evaluation with
    | none =>
      rw [ensures_bind, ensures_pure, ensures_bind, ensures_persist]
      exact ⟨h, hlast s hs _ _⟩
    | some evaluation =>
      rw [ensures_bind]
      refine (recordEvaluationFeedback_kept evaluation h hs).mono ?_
      rintro u _ ⟨hu, rfl⟩
      rw [ensures_bind, ensures_persist]
      exact ⟨h, hlast u hu _ _⟩

theorem handleStepRetry_post (hf : Freshness fresh) (evaluation : Option StepEvaluation)
    (failure : Option StepOutput) (h : Held fresh base w) (hs : Kept base.state s) :
    Ensures (Holding fresh base) (handleStepRetry host workflow step s evaluation failure)
      (HandledPost workflow fresh base step) w := by
  unfold handleStepRetry
  cases failure with
  | none => exact retryStep_post hf evaluation h hs
  | some failure =>
    have hnote : Kept base.state { s with
          lastRetryReason := some .executionFailed
          lastEvaluationFeedback := failure.error } := hs.congr rfl rfl rfl id
    dsimp only
    split
    · exact deferStepRecovery_post hf failure h hnote
    · split
      · rw [ensures_bind]
        exact (handleExhausted_post hf _ _ h hnote).mono fun r v hr => hr.handled
      · exact retryStep_post hf evaluation h hnote

def RoutedPost (workflow : Workflow) (fresh : StepRun → Prop) (base : World)
    (step : StepDefinition) (r : WorkflowState × Except Raised Routed) (v : World) : Prop :=
  match r.2 with
  | .error _ | .ok .failed | .ok .cancelled | .ok .«continue» =>
    Held fresh base v ∧ Kept base.state r.1
  | .ok .routed => ∃ index, Placed fresh base [] index v
  | .ok (.exhausted how) => ExhaustedEnd workflow fresh base step how v

theorem reviseOutcome_post (output : StepOutput) (target : String) (h : Held fresh base w)
    (hs : Kept base.state s) :
    Ensures (Holding fresh base) (reviseOutcome workflow step output s target)
      (RoutedPost workflow fresh base step) w := by
  unfold reviseOutcome
  split
  · exact ⟨h, hs⟩
  · rename_i index _
    rw [ensures_bind, ensures_persist]
    exact ⟨h, index, h.persist (Moved.congr (hs.reviseTo target index) rfl rfl rfl id) rfl⟩

theorem followOutcomeGate_post (output : StepOutput) (result : Except Raised Action)
    (h : Held fresh base w) (hs : Kept base.state s) :
    Ensures (Holding fresh base) (followOutcomeGate workflow step output (s, result))
      (fun r v => RoutedPost workflow fresh base step r v ∧ r.2 ≠ .ok .«continue») w := by
  cases result with
  | error => exact ⟨⟨h, hs⟩, by simp⟩
  | ok decision =>
    cases decision with
    | «continue» =>
      unfold followOutcomeGate
      rw [ensures_bind, ensures_persist]
      exact ⟨h, ⟨_, h.persist (hs.clearNotes.goto _) rfl⟩, by simp⟩
    | revise target =>
      unfold followOutcomeGate reviseOutcome
      dsimp only
      split
      · exact ⟨⟨h, hs⟩, by simp⟩
      · rename_i index _
        rw [ensures_bind, ensures_persist]
        refine ⟨h, ⟨index, h.persist ?_ rfl⟩, by simp⟩
        exact Moved.congr (hs.reviseTo target index) rfl rfl rfl id
    | cancel | fail | gate | other => exact ⟨⟨h, hs⟩, by simp⟩

theorem handleOutcomeGate_post (hf : Freshness fresh) (output : StepOutput)
    (h : Held fresh base w) (hs : Kept base.state s) :
    Ensures (Holding fresh base) (handleOutcomeGate host workflow step output s)
      (fun r v => RoutedPost workflow fresh base step r v ∧ r.2 ≠ .ok .«continue») w := by
  unfold handleOutcomeGate
  split
  · exact ⟨⟨h, hs⟩, by simp⟩
  · rw [ensures_bind]
    refine (handleGateStep_held hf _ _ h hs).mono ?_
    rintro ⟨u, result⟩ v ⟨hv, hu⟩
    exact followOutcomeGate_post output result hv hu

theorem handleOutcomeRevise_post (hf : Freshness fresh) (output : StepOutput)
    (route : OutcomeRoute) (target : String) (h : Held fresh base w) (hs : Kept base.state s) :
    Ensures (Holding fresh base) (handleOutcomeRevise host workflow step output s route target)
      (RoutedPost workflow fresh base step) w := by
  unfold handleOutcomeRevise
  split
  · exact reviseOutcome_post output target h hs
  · dsimp only
    split
    · rw [ensures_bind]
      refine (handleExhausted_post hf _ _ h hs).mono ?_
      rintro ⟨u, result⟩ v hv
      cases result with
      | error => exact hv
      | ok how => cases how <;> exact hv
    · exact reviseOutcome_post output target h (hs.setIterations (Nat.le_succ _))

theorem handleStepOutcome_post (hf : Freshness fresh) (output : StepOutput)
    (h : Held fresh base w) (hs : Kept base.state s) :
    Ensures (Holding fresh base) (handleStepOutcome host workflow step output s)
      (RoutedPost workflow fresh base step) w := by
  have hclear : Kept base.state { clearNotes s with lastOperatorInstruction := none } :=
    hs.clearNotes.congr rfl rfl rfl id
  unfold handleStepOutcome
  dsimp only
  split
  · exact ⟨h, hclear⟩
  · split
    · exact ⟨h, hclear⟩
    · exact ⟨h, hs⟩
    · exact ⟨h, hs⟩
    · exact ⟨h, hs⟩
    · exact (handleOutcomeGate_post hf output h hs).mono fun _ _ hr => hr.1
    · exact handleOutcomeRevise_post hf output _ _ h hs

theorem handleStepOutcome_gate {output : StepOutput}
    (hgate : (step.resolveOutcomeRoute
      ((output.outcome.map StepOutcome.status).getD .success)).map OutcomeRoute.action =
        some .gate) :
    handleStepOutcome host workflow step output s =
      handleOutcomeGate host workflow step output s := by
  unfold handleStepOutcome
  dsimp only
  cases hroute : step.resolveOutcomeRoute
      ((output.outcome.map StepOutcome.status).getD .success) with
  | none =>
    rw [hroute] at hgate
    cases hgate
  | some route =>
    rw [hroute] at hgate
    dsimp only
    rw [show route.action = .gate from Option.some.inj hgate]

theorem pauseForDeterministicError_held (hf : Freshness fresh) (error : String)
    (h : Held fresh base w) (hs : Kept base.state s) :
    Ensures (Holding fresh base) (pauseForDeterministicError host workflow step s error)
      (fun r v => Held fresh base v ∧ Kept base.state r.1) w := by
  unfold pauseForDeterministicError
  split
  · exact ⟨h, hs⟩
  · rw [ensures_bind]
    refine (handleGateStep_held hf _ _ h hs).mono ?_
    rintro ⟨u, result⟩ v ⟨hv, hu⟩
    cases result with
    | error => exact ⟨hv, hu⟩
    | ok decision => cases decision <;> exact ⟨hv, hu⟩

end Cognis.WorkflowEngine
