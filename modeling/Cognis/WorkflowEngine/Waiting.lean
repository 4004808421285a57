import Cognis.WorkflowEngine.Moves
import Cognis.WorkflowEngine.Pauses

namespace Cognis.WorkflowEngine

variable {host : Host} {workflow : Workflow} {step : StepDefinition} {s : WorkflowState}
  {w : World} {β : Type} {R : String → World → (GateReply → Prog β) → Prop}

/-- What a worker that waits at a derived gate holds in hand. -/
inductive Waiting where
  | exhausted
  | reviewLoop (evaluation : StepEvaluation)
  | outcome (output : StepOutput)
  | error (result : DeterministicResult)
  | resumedOutcome (output : StepOutput)
  | resumedError (payload : PausePayload)

namespace Waiting

def gateName (step : StepDefinition) : Waiting → String
  | .exhausted | .reviewLoop _ => exhaustedGateName step.name
  | .outcome _ | .resumedOutcome _ => outcomeGateName step.name
  | .error _ | .resumedError _ => errorGateName step.name

def follow (host : Host) (workflow : Workflow) (step : StepDefinition) :
    Waiting → WorkflowState × Except Raised Action → Prog VisitEnd
  | .exhausted, decision => do
    let exhausted ← followExhausted workflow decision
    resumeExhausted exhausted
  | .reviewLoop evaluation, decision => do
    let exhausted ← followExhausted workflow decision
    settleReview host workflow step evaluation (exhausted.1, exhausted.2.map Handled.ofExhausted)
  | .outcome output, decision => do
    let routed ← followOutcomeGate workflow step output decision
    settleOutcome routed
  | .error result, decision => settleError workflow step result (followErrorGate decision)
  | .resumedOutcome output, decision => do
    let routed ← followOutcomeGate workflow step output decision
    resumeOutcome routed
  | .resumedError payload, decision =>
    resumeError workflow step payload (followErrorGate decision)

def InHand (workflow : Workflow) (step : StepDefinition) (s : WorkflowState) : Waiting → Prop
  | .exhausted | .reviewLoop _ => workflow.interaction ≠ .none
  | .outcome output | .resumedOutcome output =>
    s.stepOutputs.get? step.name = some output ∧ (step.resolveOutcomeRoute
        ((output.outcome.map StepOutcome.status).getD .success)).map OutcomeRoute.action =
          some .gate
  | .error _ | .resumedError _ => True

end Waiting

/-- A worker at `step` waits with `waiting` in hand, in the state `s` before the pause. -/
structure Waits (host : Host) (workflow : Workflow) (step : StepDefinition) (waiting : Waiting)
    (s : WorkflowState) (gateName : String) (v : World) (k : GateReply → Prog VisitEnd) :
    Prop where
  position : workflow.steps[s.currentStepIndex]? = some step
  derived : step.isGate = false
  wait : GateWait host workflow (waiting.gateName step) s (waiting.follow host workflow step)
    gateName v k
  hand : waiting.InHand workflow step s

def Stands (host : Host) (workflow : Workflow) (step : StepDefinition) (gateName : String)
    (v : World) (k : GateReply → Prog VisitEnd) : Prop :=
  ∃ waiting s, Waits host workflow step waiting s gateName v k

theorem handleExhausted_awaits {action : OnExhausted} {lastError : Option String}
    {G : WorkflowState × Except Raised (Option Exhausted) → Prog β}
    (hG : ∀ x v, (x.2 = .ok none → x.1.currentStepIndex = s.currentStepIndex) → Awaits R (G x) v)
    (hR : workflow.interaction ≠ .none → ∀ gateName v k,
      GateWait host workflow (exhaustedGateName step.name) s
        (fun decision => followExhausted workflow decision >>= G) gateName v k → R gateName v k) :
    Awaits R (handleExhausted host workflow step s action lastError >>= G) w := by
  refine awaits_bind ?_ (handleExhausted_index action lastError) hG
  unfold handleExhausted
  cases action with
  | «continue» => exact ((skipExhausted_unwaiting s).bind fun u => unwaiting_pure _).awaits
  | fail => exact (unwaiting_pure _).awaits
  | gate =>
    dsimp only
    split
    · exact (unwaiting_pure _).awaits
    · rename_i hinteraction
      refine handleGateStep_awaits
        (fun decision v => (followExhausted_unwaiting decision).awaits) ?_
      intro gateName v k hwait
      exact hR hinteraction gateName v _ (hwait.bind G)

variable (x : WorkflowState × Except Raised (Option Exhausted))

theorem conclude_ofExhausted : conclude x.1 (x.2.map Handled.ofExhausted) = resumeExhausted x := by
  obtain ⟨s, result⟩ := x
  cases result with
  | error => rfl
  | ok how => cases how <;> rfl

theorem resumeExhausted_unwaiting : Unwaiting (resumeExhausted x) := by
  rw [← conclude_ofExhausted]
  exact conclude_unwaiting _ _

section

variable (hstep : workflow.steps[s.currentStepIndex]? = some step) (hderived : step.isGate = false)

include hstep hderived

theorem exhausted_stands (action : OnExhausted) (lastError : Option String) :
    Awaits (Stands host workflow step)
      (handleExhausted host workflow step s action lastError >>= fun x =>
        conclude x.1 (x.2.map Handled.ofExhausted)) w := by
  refine handleExhausted_awaits (fun x v _ => (conclude_unwaiting _ _).awaits) ?_
  intro hinteraction gateName v k hwait
  refine ⟨.exhausted, s, hstep, hderived, ?_, hinteraction⟩
  have hfollow : (fun decision => followExhausted workflow decision >>= fun x =>
      conclude x.1 (x.2.map Handled.ofExhausted)) =
      Waiting.follow host workflow step .exhausted := by
    funext decision
    exact congrArg (followExhausted workflow decision >>= ·) (funext conclude_ofExhausted)
  rw [← hfollow]
  exact hwait

variable (evaluation : Option StepEvaluation)

theorem retryStep_stands : Awaits (Stands host workflow step)
      (retryStep host workflow step s evaluation >>= fun x => conclude x.1 x.2) w := by
  have hlast (u : WorkflowState) (v : World) : Awaits (Stands host workflow step) ((do
        persist u .running
        return (u, Except.ok (ε := Raised) Handled.retried)) >>= fun x => conclude x.1 x.2) v :=
    (((persist_unwaiting _ _).bind fun _ => unwaiting_pure _).bind
      fun x : WorkflowState × Except Raised Handled => conclude_unwaiting x.1 x.2).awaits
  unfold retryStep
  dsimp only
  split
  · rw [Program.seq_assoc]
    exact exhausted_stands hstep hderived _ _
  · cases evaluation with
    | none => exact hlast _ _
    | some evaluation =>
      rw [Program.seq_assoc]
      exact (recordEvaluationFeedback_unwaiting evaluation).awaits_bind fun u v => hlast _ v

theorem deferStepRecovery_stands (failure : StepOutput) : Awaits (Stands host workflow step)
      (deferStepRecovery host workflow step s failure >>= fun x => conclude x.1 x.2) w := by
  unfold deferStepRecovery
  dsimp only
  split
  · rw [Program.seq_assoc]
    refine exhausted_stands ?_ hderived _ _
    exact hstep
  · exact (((persist_unwaiting _ _).bind fun _ => unwaiting_pure _).bind
      fun x : WorkflowState × Except Raised Handled => conclude_unwaiting x.1 x.2).awaits

theorem handleStepRetry_stands
    (failure : Option StepOutput) :
    Awaits (Stands host workflow step)
      (handleStepRetry host workflow step s evaluation failure >>= fun x => conclude x.1 x.2)
        w := by
  unfold handleStepRetry
  cases failure with
  | none => exact retryStep_stands hstep hderived evaluation
  | some failure =>
    have hnoted : workflow.steps[({ s with
        lastRetryReason := some .executionFailed
        lastEvaluationFeedback := failure.error } : WorkflowState).currentStepIndex]? = some step :=
      hstep
    dsimp only
    split
    · exact deferStepRecovery_stands hnoted hderived failure
    · split
      · rw [Program.seq_assoc]
        exact exhausted_stands hnoted hderived _ _
      · exact retryStep_stands hnoted hderived evaluation

theorem retryRejected_stands (evaluation : StepEvaluation) :
    Awaits (Stands host workflow step) (retryRejected host workflow step evaluation s) w :=
  handleStepRetry_stands hstep hderived (some evaluation) none

theorem settleReview_stands (evaluation : StepEvaluation) (handled : Except Raised Handled) :
    Awaits (Stands host workflow step)
      (settleReview host workflow step evaluation (s, handled)) w := by
  unfold settleReview
  split
  · rename_i heq
    cases heq
    exact retryRejected_stands hstep hderived evaluation
  · exact (conclude_unwaiting _ _).awaits

end

theorem rejectStep_stands (hstep : workflow.steps[s.currentStepIndex]? = some step)
    (hderived : step.isGate = false) (evaluation : StepEvaluation) :
    Awaits (Stands host workflow step) (rejectStep host workflow step s evaluation) w := by
  have hnoted : workflow.steps[({ s with
      lastEvaluationFeedback := some evaluation.feedbackText } :
        WorkflowState).currentStepIndex]? = some step := hstep
  unfold rejectStep
  split
  · exact retryRejected_stands hnoted hderived evaluation
  · unfold handleReviewLoop
    dsimp only
    split
    · rw [Program.seq_assoc]
      refine handleExhausted_awaits ?_ ?_
      · rintro ⟨u, result⟩ v hindex
        cases result with
        | error raised => exact (conclude_unwaiting u (.error raised)).awaits
        | ok how =>
          cases how with
          | none =>
            have hsame : u.currentStepIndex = s.currentStepIndex := hindex rfl
            have hat : workflow.steps[u.currentStepIndex]? = some step := by
              rw [hsame]
              exact hstep
            exact settleReview_stands hat hderived evaluation (.ok .unhandled)
          | some how => exact (conclude_unwaiting u (.ok (.exhausted how))).awaits
      · intro hinteraction gateName v k hwait
        exact ⟨.reviewLoop evaluation, _, hnoted, hderived, hwait, hinteraction⟩
    · split
      · refine settleReview_stands ?_ hderived evaluation (.ok .unhandled)
        exact hstep
      · exact ((persist_unwaiting _ _).bind fun _ => unwaiting_pure _).awaits

theorem settleOutcome_unwaiting (r : WorkflowState × Except Raised Routed) :
    Unwaiting (settleOutcome r) := by
  obtain ⟨s, result⟩ := r
  cases result with
  | error raised => exact raise_unwaiting s raised
  | ok outcome =>
    cases outcome with
    | failed => exact fail_unwaiting s
    | cancelled => exact cancel_unwaiting s
    | routed | exhausted how => exact unwaiting_pure _
    | «continue» => exact (persist_unwaiting _ _).bind fun _ => unwaiting_pure _

theorem resumeOutcome_unwaiting (r : WorkflowState × Except Raised Routed) :
    Unwaiting (resumeOutcome r) := by
  obtain ⟨s, result⟩ := r
  cases result with
  | error raised => exact raise_unwaiting s raised
  | ok outcome =>
    cases outcome with
    | failed => exact fail_unwaiting s
    | cancelled => exact cancel_unwaiting s
    | routed | exhausted how | «continue» => exact unwaiting_pure _

theorem resumeError_unwaiting (payload : PausePayload)
    (answer : WorkflowState × Except Raised ErrorGate) :
    Unwaiting (resumeError workflow step payload answer) := by
  obtain ⟨s, result⟩ := answer
  cases result with
  | error raised => exact raise_unwaiting s raised
  | ok decision =>
    cases decision with
    | paused => exact stayPaused_unwaiting s
    | cancel => exact cancel_unwaiting s
    | fail => exact fail_unwaiting s
    | «continue» =>
      unfold resumeError
      dsimp only
      split
      · exact fail_unwaiting s
      · exact (persist_unwaiting _ _).bind fun _ => unwaiting_pure _

theorem reviseOutcome_unwaiting (output : StepOutput) (target : String) :
    Unwaiting (reviseOutcome workflow step output s target) := by
  unfold reviseOutcome
  split
  · exact unwaiting_pure _
  · exact (persist_unwaiting _ _).bind fun _ => unwaiting_pure _

theorem followOutcomeGate_unwaiting (output : StepOutput)
    (decision : WorkflowState × Except Raised Action) :
    Unwaiting (followOutcomeGate workflow step output decision) := by
  obtain ⟨s, result⟩ := decision
  cases result with
  | error => exact unwaiting_pure _
  | ok action =>
    cases action with
    | «continue» => exact (persist_unwaiting _ _).bind fun _ => unwaiting_pure _
    | cancel | fail | gate | other => exact unwaiting_pure _
    | revise target => exact reviseOutcome_unwaiting output target

theorem handleOutcomeGate_awaits (output : StepOutput)
    {G : WorkflowState × Except Raised Routed → Prog β} (hG : ∀ r, Unwaiting (G r))
    (hR : ∀ gateName v k, GateWait host workflow (outcomeGateName step.name) s
      (fun decision => followOutcomeGate workflow step output decision >>= G) gateName v k →
        R gateName v k) :
    Awaits R (handleOutcomeGate host workflow step output s >>= G) w := by
  unfold handleOutcomeGate
  split
  · exact (hG _).awaits
  · rw [Program.seq_assoc]
    exact handleGateStep_awaits
      (fun decision v => ((followOutcomeGate_unwaiting output decision).bind hG).awaits) hR

theorem pauseForDeterministicError_awaits (error : String)
    {G : WorkflowState × Except Raised ErrorGate → Prog β} (hG : ∀ r, Unwaiting (G r))
    (hR : ∀ gateName v k, GateWait host workflow (errorGateName step.name) s
      (fun decision => G (followErrorGate decision)) gateName v k → R gateName v k) :
    Awaits R (pauseForDeterministicError host workflow step s error >>= G) w := by
  unfold pauseForDeterministicError
  split
  · exact (hG _).awaits
  · rw [Program.seq_assoc]
    exact handleGateStep_awaits (fun decision v => (hG _).awaits) hR

theorem exhaustedOutcome_settled : (match x with
      | (s, .error raised) => pure (s, Except.error raised)
      | (s, .ok none) => pure (s, .ok Routed.failed)
      | (s, .ok (some how)) => pure (s, .ok (Routed.exhausted how)) :
        Prog (WorkflowState × Except Raised Routed)) >>= settleOutcome = resumeExhausted x := by
  obtain ⟨s, result⟩ := x
  cases result with
  | error => rfl
  | ok how => cases how <;> rfl

section

variable (hstep : workflow.steps[s.currentStepIndex]? = some step) (hderived : step.isGate = false)

include hstep hderived

variable (output : StepOutput)

theorem handleOutcomeRevise_stands (route : OutcomeRoute) (target : String) :
    Awaits (Stands host workflow step)
      (handleOutcomeRevise host workflow step output s route target >>= settleOutcome) w := by
  unfold handleOutcomeRevise
  split
  · exact ((reviseOutcome_unwaiting output target).bind settleOutcome_unwaiting).awaits
  · dsimp only
    split
    · rw [Program.seq_assoc]
      have hsettled : (fun x : WorkflowState × Except Raised (Option Exhausted) =>
          (match x with
            | (s, .error raised) => pure (s, Except.error raised)
            | (s, .ok none) => pure (s, .ok Routed.failed)
            | (s, .ok (some how)) => pure (s, .ok (Routed.exhausted how)) :
              Prog (WorkflowState × Except Raised Routed)) >>= settleOutcome) =
          fun x => conclude x.1 (x.2.map Handled.ofExhausted) := by
        funext x
        rw [exhaustedOutcome_settled, conclude_ofExhausted]
      have hstands : Awaits (Stands host workflow step)
          (handleExhausted host workflow step s route.onExhausted
            (output.outcome.bind StepOutcome.reason) >>= fun x =>
              conclude x.1 (x.2.map Handled.ofExhausted)) w :=
        exhausted_stands hstep hderived _ _
      rw [← hsettled] at hstands
      exact hstands
    · exact ((reviseOutcome_unwaiting output target).bind settleOutcome_unwaiting).awaits

theorem handleStepOutcome_stands
    (hsaved : s.stepOutputs.get? step.name = some output) :
    Awaits (Stands host workflow step)
      (handleStepOutcome host workflow step output s >>= settleOutcome) w := by
  have hsettle (r : WorkflowState × Except Raised Routed) :
      Awaits (Stands host workflow step) (pure r >>= settleOutcome) w :=
    (settleOutcome_unwaiting r).awaits
  cases hroute : step.resolveOutcomeRoute
      ((output.outcome.map StepOutcome.status).getD .success) with
  | none =>
    unfold handleStepOutcome
    dsimp only
    rw [hroute]
    exact hsettle _
  | some route =>
    cases haction : route.action with
    | gate =>
      have hgate : (step.resolveOutcomeRoute
          ((output.outcome.map StepOutcome.status).getD .success)).map OutcomeRoute.action =
            some .gate := by
        rw [hroute, Option.map_some, haction]
      rw [handleStepOutcome_gate hgate]
      refine handleOutcomeGate_awaits output settleOutcome_unwaiting ?_
      intro gateName v k hwait
      exact ⟨.outcome output, s, hstep, hderived, hwait, hsaved, hgate⟩
    | revise target =>
      unfold handleStepOutcome
      dsimp only
      rw [hroute]
      dsimp only
      rw [haction]
      exact handleOutcomeRevise_stands hstep hderived output route target
    | _ =>
      unfold handleStepOutcome
      dsimp only
      rw [hroute]
      dsimp only
      rw [haction]
      exact hsettle _

theorem approveStep_stands :
    Awaits (Stands host workflow step) (approveStep host workflow step output s) w := by
  have hsaved : ({ s with stepOutputs := s.stepOutputs.set step.name output } :
      WorkflowState).stepOutputs.get? step.name = some output := by
    rw [OrderedMap.get?_set, if_pos rfl]
  refine handleStepOutcome_stands ?_ hderived output hsaved
  exact hstep

theorem judgeStep_stands (id : Nat) :
    Awaits (Stands host workflow step) (judgeStep host workflow step output s id) w := by
  refine Unwaiting.awaits_bind (unwaiting_perform _ rfl) ?_
  intro evaluation v
  refine (commit_unwaiting _).awaits_bind ?_
  intro _ u
  split
  · exact approveStep_stands hstep hderived output
  · exact rejectStep_stands hstep hderived evaluation
  · split
    · exact (fail_unwaiting s).awaits
    · exact exhausted_stands hstep hderived _ _

theorem visitRun_stands : Awaits (Stands host workflow step) (visitRun host workflow step s) w := by
  have hpopped : workflow.steps[({ s.popIterations (recoveryKey step.name) with
      resumeFailedStep := false } : WorkflowState).currentStepIndex]? = some step := hstep
  unfold visitRun
  split
  · exact ((persist_unwaiting _ _).bind fun _ => unwaiting_pure _).awaits
  · refine executeRunStep_unwaiting.awaits_bind ?_
    intro result v
    cases result with
    | error raised =>
      cases raised with
      | transient => exact (deferTransient_unwaiting s).awaits
      | interrupted | exception => exact (raise_unwaiting s _).awaits
    | ok result =>
      obtain ⟨output, id⟩ := result
      cases output with
      | none => exact handleStepRetry_stands hstep hderived none none
      | some output =>
        dsimp only
        split
        · exact handleStepRetry_stands hstep hderived none (some output)
        · split
          · exact judgeStep_stands hpopped hderived output id
          · exact approveStep_stands hpopped hderived output

theorem followDeterministic_stands (result : DeterministicResult) :
    Awaits (Stands host workflow step) (followDeterministic host workflow step s result) w := by
  have hsaved : workflow.steps[({ s with
      stepOutputs := s.stepOutputs.set step.name result.output } :
        WorkflowState).currentStepIndex]? = some step := hstep
  unfold followDeterministic
  split
  · exact ((persist_unwaiting _ _).bind fun _ => unwaiting_pure _).awaits
  · split
    · exact ((persist_unwaiting _ _).bind fun _ => unwaiting_pure _).awaits
    · split
      · split
        · exact ((persist_unwaiting _ _).bind fun _ => fail_unwaiting _).awaits
        · refine pauseForDeterministicError_awaits _ (settleError_unwaiting result) ?_
          intro gateName v k hwait
          exact ⟨.error result, _, hsaved, hderived, hwait, trivial⟩
        · exact (routeDeterministic_unwaiting result).awaits
        · exact (routeDeterministic_unwaiting result).awaits
      · exact (routeDeterministic_unwaiting result).awaits

theorem visitDeterministic_stands :
    Awaits (Stands host workflow step) (visitDeterministic host workflow step s) w := by
  refine executeDeterministicStep_unwaiting.awaits_bind ?_
  intro result v
  cases result with
  | ok result => exact followDeterministic_stands hstep hderived result
  | error raised =>
    cases raised with
    | transient => exact (deferTransient_unwaiting s).awaits
    | interrupted | exception => exact (raise_unwaiting s _).awaits

theorem resumeDerivedGate_stands (payload : PausePayload) :
    Awaits (Stands host workflow step) (resumeDerivedGate host workflow step payload s) w := by
  unfold resumeDerivedGate
  split
  · exact (stayPaused_unwaiting s).awaits
  split
  · split
    · exact (stayPaused_unwaiting s).awaits
    · rename_i output hsaved
      dsimp only
      split
      · rename_i hgate
        rw [handleStepOutcome_gate hgate]
        refine handleOutcomeGate_awaits output resumeOutcome_unwaiting ?_
        intro gateName v k hwait
        exact ⟨.resumedOutcome output, s, hstep, hderived, hwait, hsaved, hgate⟩
      · exact (stayPaused_unwaiting s).awaits
  split
  · refine handleExhausted_awaits (fun x v _ => (resumeExhausted_unwaiting x).awaits) ?_
    intro hinteraction gateName v k hwait
    exact ⟨.exhausted, s, hstep, hderived, hwait, hinteraction⟩
  split
  · refine pauseForDeterministicError_awaits _ (resumeError_unwaiting payload) ?_
    intro gateName v k hwait
    exact ⟨.resumedError payload, s, hstep, hderived, hwait, trivial⟩
  · exact (stayPaused_unwaiting s).awaits

end

theorem visitGate_awaits (config : Option GateConfig) :
    Awaits (fun _ v _ => v.state.currentStepIndex = s.currentStepIndex)
      (visitGate host workflow step config s) w := by
  refine handleGateStep_awaits ?_ ?_
  · rintro ⟨u, result⟩ v
    have hnext : Unwaiting (do
        persist { u with currentStepIndex := u.currentStepIndex + 1 } .running
        return VisitEnd.advanced) :=
      (persist_unwaiting _ _).bind fun _ => unwaiting_pure _
    cases result with
    | error raised => exact (raise_unwaiting u raised).awaits
    | ok decision =>
      cases decision with
      | cancel => exact (cancel_unwaiting _).awaits
      | fail => exact (fail_unwaiting _).awaits
      | revise =>
        dsimp only
        split
        · exact (fail_unwaiting _).awaits
        · exact ((persist_unwaiting _ _).bind fun _ => unwaiting_pure _).awaits
      | «continue» | gate | other => exact hnext.awaits
  · rintro gateName v k ⟨-, gate, hpaused, -⟩
    rw [hpaused]
    rfl

theorem Waits.index {waiting : Waiting} {gateName : String} {v : World}
    {k : GateReply → Prog VisitEnd} (h : Waits host workflow step waiting s gateName v k) :
    v.state.currentStepIndex = s.currentStepIndex := by
  obtain ⟨-, gate, hpaused, -⟩ := h.wait
  rw [hpaused]
  rfl

/-- Wherever an iteration waits outside a gate step, a worker stands at the step of
the position with something in hand. -/
theorem visit_stands (host : Host) (workflow : Workflow) (s : WorkflowState) (w : World) :
    Awaits (fun gateName v k => ∀ step,
      workflow.steps[v.state.currentStepIndex]? = some step → step.isGate = false →
        Stands host workflow step gateName v k) (visit host workflow s) w := by
  unfold visit
  cases hstep : workflow.steps[s.currentStepIndex]? with
  | none => exact (finishWorkflow_unwaiting _ _).awaits
  | some step =>
    have hmono (p : Prog VisitEnd) (h : Awaits (Stands host workflow step) p w) :
        Awaits (fun gateName v k => ∀ step,
          workflow.steps[v.state.currentStepIndex]? = some step → step.isGate = false →
            Stands host workflow step gateName v k) p w := by
      refine h.mono ?_
      rintro gateName v k ⟨waiting, t, hwaits⟩ other hother -
      rw [hwaits.index, hwaits.position] at hother
      cases hother
      exact ⟨waiting, t, hwaits⟩
    have hderived (h : ∀ config, step.kind ≠ .gate config) : step.isGate = false := by
      unfold StepDefinition.isGate
      cases hkind : step.kind with
      | gate config => exact absurd hkind (h config)
      | _ => rfl
    dsimp only
    split
    · rename_i hgate
      exact hmono _ (resumeDerivedGate_stands hstep hgate _)
    · split
      · rename_i config hkind
        refine hmono _ (visitRun_stands ?_ (hderived ?_))
        · exact hstep
        · intro other hother
          rw [hkind] at hother
          cases hother
      · rename_i config hkind
        refine (visitGate_awaits config).mono ?_
        intro gateName v k hindex other hother hnot
        rw [hindex] at hother
        have hsame : some step = some other := hstep.symm.trans hother
        cases hsame
        rw [StepDefinition.isGate, hkind] at hnot
        cases hnot
      · rename_i hrun hgate
        refine hmono _ (visitDeterministic_stands ?_ (hderived hgate))
        exact hstep

end Cognis.WorkflowEngine
