import Cognis.WorkflowEngine.DeterministicVisits
import Cognis.WorkflowEngine.Waiting

namespace Cognis.WorkflowEngine

open Option

variable {α : Type} {host : Host} {workflow : Workflow} {step : StepDefinition}
  {s u : WorkflowState} {w v : World} {action : Action}

/-- What of the state a restart has to preserve. -/
structure Progress where
  currentStepIndex : Nat
  status : WorkflowStatus
  routingSkips : OrderedMap String String
  stepOutputs : OrderedMap String StepOutput
  loopIterations : OrderedMap String Nat
  skippedSteps : List String
  deriving DecidableEq

def WorkflowState.progress (s : WorkflowState) : Progress where
  currentStepIndex := s.currentStepIndex
  status := s.status
  routingSkips := s.routingSkips
  stepOutputs := s.stepOutputs
  loopIterations := s.loopIterations
  skippedSteps := s.skippedSteps

/-- Every execution of the program ends with the progress `x`. -/
def EndsWith (p : Prog α) (x : Progress) (w : World) : Prop :=
  Ensures (fun _ _ => True) p (fun _ v => v.state.progress = x) w

theorem endsWith_persist (s : WorkflowState) (task : TaskStatus) (a : α) :
    EndsWith (do persist s task; return a) s.progress w := by
  unfold EndsWith
  rw [ensures_bind, ensures_persist]
  exact ⟨trivial, rfl⟩

theorem fail_ends : EndsWith (fail s) { s.progress with status := .failed } w := by
  unfold fail finishWorkflow
  dsimp only
  exact endsWith_persist _ _ _

theorem cancel_ends : EndsWith (cancel s) { s.progress with status := .cancelled } w := by
  unfold cancel finishWorkflow
  exact endsWith_persist _ _ _

def exhaustedProgress (workflow : Workflow) (p : Progress) : Action → Progress
  | .«continue» => { p with currentStepIndex := p.currentStepIndex + 1 }
  | .cancel => { p with status := .cancelled, currentStepIndex := workflow.steps.length }
  | .revise target =>
    match workflow.findStepIndex target with
    | none => { p with status := .failed }
    | some index =>
      { p with
        currentStepIndex := index
        loopIterations := p.loopIterations.erase (attemptsKey target) }
  | _ => { p with status := .failed }

def outcomeProgress (workflow : Workflow) (p : Progress) : Action → Progress
  | .cancel => { p with status := .cancelled }
  | action => exhaustedProgress workflow p action

theorem followExhausted_ends : EndsWith
    (followExhausted workflow (s, .ok action) >>= resumeExhausted)
    (exhaustedProgress workflow s.progress action) w := by
  cases action with
  | «continue» | cancel => exact endsWith_persist _ _ _
  | revise target =>
    unfold followExhausted exhaustedProgress
    dsimp only
    cases workflow.findStepIndex target with
    | none => exact fail_ends
    | some => exact endsWith_persist _ _ _
  | fail | gate | other => exact fail_ends

theorem followOutcomeGate_ends (output : StepOutput)
    {settle : WorkflowState × Except Raised Routed → Prog VisitEnd}
    (hfailed : ∀ u, settle (u, .ok .failed) = fail u)
    (hcancelled : ∀ u, settle (u, .ok .cancelled) = cancel u)
    (hrouted : ∀ u, settle (u, .ok .routed) = pure .approved) :
    EndsWith (followOutcomeGate workflow step output (s, .ok action) >>= settle)
      (outcomeProgress workflow s.progress action) w := by
  have hfail : EndsWith (settle (s, .ok .failed)) { s.progress with status := .failed } w := by
    rw [hfailed]
    exact fail_ends
  cases action with
  | «continue» =>
    unfold followOutcomeGate EndsWith
    rw [ensures_bind, ensures_bind, ensures_persist]
    refine ⟨trivial, ?_⟩
    rw [ensures_pure, hrouted]
    rfl
  | cancel =>
    change EndsWith (settle (s, .ok .cancelled)) { s.progress with status := .cancelled } w
    rw [hcancelled]
    exact cancel_ends
  | revise target =>
    unfold followOutcomeGate reviseOutcome outcomeProgress exhaustedProgress
    dsimp only
    cases workflow.findStepIndex target with
    | none => exact hfail
    | some =>
      unfold EndsWith
      rw [ensures_bind, ensures_bind, ensures_persist]
      refine ⟨trivial, ?_⟩
      rw [ensures_pure, hrouted]
      rfl
  | fail | gate | other => exact hfail

def Delivers (outside : Outside) (action : Action) (instruction : String) : Prop :=
  (∀ n gate, outside n (.resolvedDecision gate) = some (action, instruction)) ∨
    ∀ n gate, outside n (.resolvedDecision gate) = (none : Option (Action × String)) ∧
      outside n (.awaitDecision gate) = GateReply.decided action instruction

/-- The worker that waits in `v` and one that resumes from `v` come to the same
progress with the same decision. -/
def SameAfterRestart (host : Host) (workflow : Workflow) (v : World)
    (k : GateReply → Prog VisitEnd) (action : Action) (instruction : String) : Prop :=
  ∀ live restarted : Outside, Delivers restarted action instruction →
    ((k (.decided action instruction)).exec (World.reply live) World.after 0 v).2.state.progress =
      ((visit host workflow v.state).exec (World.reply restarted) World.after 0 v).2.state.progress

/-- What a decision at the pause `v` leaves in memory and in the records. -/
structure Decided (v : World) (u : WorkflowState) (t : World) : Prop where
  progress : u.progress = { v.state.progress with status := .running }
  gate : u.pendingGate = none
  committed : t.state.progress = v.state.progress

theorem persistGateEvaluation_state (gateName : String) (action : Action) :
    Ensures (fun _ _ => True) (persistGateEvaluation gateName action)
      (fun _ t => t.state = w.state) w := by
  unfold persistGateEvaluation
  rw [ensures_bind, ensures_latest]
  refine ⟨trivial, ?_⟩
  split
  · rw [ensures_bind, ensures_newStepRunId]
    refine ⟨trivial, ?_⟩
    rw [ensures_commit]
    exact ⟨trivial, rfl⟩
  · rw [ensures_commit]
    exact ⟨trivial, rfl⟩

variable {name : String} {Q : World → Prop} {payload : PausePayload} {t : World}
  {result : DeterministicResult}

variable {F : WorkflowState × Except Raised Action → Prog α}

variable {replies : World → (o : Op) → Reply o → Prop} {instruction : String}

/-- What is true of every decided state and its records is true after the reply,
whatever replies the worker gets besides. -/
theorem followReply_decided {gate : GateConfig} {context : List (String × StepOutput)}
    (hreplies : ∀ w o r, replies w o r → w.answers o r)
    (hs : { s.progress with status := .running } = { v.state.progress with status := .running })
    (hw : w.state.progress = v.state.progress)
    (hF : ∀ u t, Decided v u t → (F (u, .ok action)).Always World.after replies (fun _ _ => True)
      (fun _ => Q) t) :
    (followReply host name gate context s (.decided action instruction) >>= F).Always
      World.after replies (fun _ _ => True) (fun _ => Q) w := by
  unfold followReply
  rw [Program.always_bind, Program.always_bind]
  refine ((persistGateEvaluation_state name action).mono ?_).mono_answers hreplies
  intro _ t ht
  refine hF _ t ⟨?_, rfl, by rw [ht, hw]⟩
  rw [← hs]
  split
  · split <;> rfl
  · rfl

variable {gateName : String}

theorem GateWait.live {k : GateReply → Prog α} (h : GateWait host workflow name s F gateName v k)
    (hreplies : ∀ w o r, replies w o r → w.answers o r)
    (hF : ∀ u t, Decided v u t → (F (u, .ok action)).Always World.after replies (fun _ _ => True)
      (fun _ => Q) t) :
    (k (.decided action instruction)).Always World.after replies (fun _ _ => True)
      (fun _ => Q) v := by
  obtain ⟨-, gate, hpaused, hk⟩ := h
  rw [hk]
  refine followReply_decided hreplies ?_ rfl hF
  rw [hpaused]

theorem handleGateStep_restarted {gate : Option GateConfig} {restarted : Outside}
    (hpending : v.state.pendingGate = some payload) (hname : payload.stepName = name)
    (hstatus : v.state.status = .paused) (hdelivers : Delivers restarted action instruction)
    (hF : ∀ u t, Decided v u t → Ensures (fun _ _ => True) (F (u, .ok action)) (fun _ => Q) t) :
    Q ((handleGateStep host workflow name gate v.state >>= F).exec
      (World.reply restarted) World.after 0 v).2 := by
  have hexec (p : Prog α) (n : Nat) (t : World)
      (h : Ensures (fun _ _ => True) p (fun _ => Q) t) :
      Q (p.exec (World.reply restarted) World.after n t).2 :=
    Program.Always.exec (World.answers_reply restarted) h n
  have hgate : handleGateStep host workflow name gate v.state =
      (resolvedDecision name >>= resumePause host workflow name payload v.state) := by
    unfold handleGateStep
    rw [hpending]
    dsimp only
    rw [if_neg (by simp [hname])]
  have hfirst : (handleGateStep host workflow name gate v.state >>= F).exec
      (World.reply restarted) World.after 0 v =
      (resumePause host workflow name payload v.state
        (restarted 0 (.resolvedDecision name)) >>= F).exec
          (World.reply restarted) World.after 1 v := by
    rw [hgate]
    rfl
  rw [hfirst]
  rcases hdelivers with hresolved | hwaits
  · rw [hresolved]
    apply hexec
    unfold resumePause
    rw [ensures_bind, ensures_bind]
    refine (persistGateEvaluation_state name action).mono ?_
    intro _ t ht
    exact hF _ t ⟨rfl, rfl, by rw [ht]⟩
  · rw [(hwaits 0 name).1]
    change Q (((followReply host name payload.gateDefinition
      (gateContext payload.gateDefinition v.state)
      (pausedState workflow name payload.gateDefinition v.state)
      (restarted 2 (.awaitDecision name)) >>= F).exec (World.reply restarted) World.after 3
        (v.persist (pausedState workflow name payload.gateDefinition v.state) .paused)).2)
    rw [(hwaits 2 name).2]
    apply hexec
    refine followReply_decided (fun _ _ _ hr => hr) rfl ?_ hF
    simp only [World.persist_state, WorkflowState.progress, pausedState, hstatus]

namespace Waiting

/-- How a worker that finds the pause `payload` goes on with the decision. -/
def resume (workflow : Workflow) (step : StepDefinition) (payload : PausePayload) :
    Waiting → WorkflowState × Except Raised Action → Prog VisitEnd
  | .exhausted, decision | .reviewLoop _, decision => do
    let exhausted ← followExhausted workflow decision
    resumeExhausted exhausted
  | .outcome output, decision | .resumedOutcome output, decision => do
    let routed ← followOutcomeGate workflow step output decision
    resumeOutcome routed
  | .error _, decision | .resumedError _, decision =>
    resumeError workflow step payload (followErrorGate decision)

end Waiting

theorem gateName_injective {a b : String} (h : name ++ a = name ++ b) : a = b := by
  have hlist := congrArg String.toList h
  rw [String.toList_append, String.toList_append] at hlist
  exact String.toList_injective (List.append_cancel_left hlist)

theorem exhaustedGateName_ne (name : String) : exhaustedGateName name ≠ outcomeGateName name := by
  intro h
  exact absurd (gateName_injective h) (by decide)

theorem errorGateName_ne (name : String) : errorGateName name ≠ outcomeGateName name ∧
    errorGateName name ≠ exhaustedGateName name := by
  constructor
  · intro h
    exact absurd (gateName_injective h) (by decide)
  · intro h
    exact absurd (gateName_injective h) (by decide)

variable {k : GateReply → Prog VisitEnd} {waiting : Waiting}

theorem Waits.restart (h : Waits host workflow step waiting s gateName v k) : ∃ gate payload,
    v.state.pendingGate = some payload ∧ payload.stepName = waiting.gateName step ∧
      payload.nextStepIndex = none ∧ v.state.status = .paused ∧
      visit host workflow v.state =
        (handleGateStep host workflow (waiting.gateName step) gate v.state >>=
          waiting.resume workflow step payload) := by
  obtain ⟨-, definition, hpaused, -⟩ := h.wait
  have hat : workflow.steps[v.state.currentStepIndex]? = some step := by
    rw [h.index]
    exact h.position
  have hgate := h.derived
  have hhand := h.hand
  obtain ⟨payload, hpayload, hname, hnext, horigin, hindex⟩ : ∃ payload : PausePayload,
      v.state.pendingGate = some payload ∧ payload.stepName = waiting.gateName step ∧
        payload.nextStepIndex = none ∧ payload.originStep = step.name ∧
        payload.originStepIndex = v.state.currentStepIndex := by
    rw [hpaused]
    refine ⟨_, rfl, rfl, rfl, ?_, rfl⟩
    rw [h.position]
    rfl
  have hvisit : visit host workflow v.state =
      resumeDerivedGate host workflow step payload v.state := by
    unfold visit
    rw [hat]
    dsimp only
    rw [hpayload, hgate]
  have hsame : ¬ (payload.originStep ≠ step.name ∨
      payload.originStepIndex ≠ v.state.currentStepIndex) := by
    rw [horigin, hindex]
    simp
  have houtputs : v.state.stepOutputs = s.stepOutputs := by rw [hpaused]; rfl
  have hpending : ¬ (v.state.pendingGate = none ∧ workflow.interaction = .none) := by
    rw [hpayload]
    simp
  have hexhausted (hwaiting : payload.stepName = exhaustedGateName step.name)
      (hinteraction : workflow.interaction ≠ .none) :
      resumeDerivedGate host workflow step payload v.state =
        (handleGateStep host workflow (exhaustedGateName step.name)
          (some (buildExhaustionGate step v.state.lastEvaluationFeedback)) v.state >>=
            fun decision =>
            followExhausted workflow decision >>= resumeExhausted) := by
    unfold resumeDerivedGate handleExhausted
    rw [if_neg hsame, hwaiting, if_neg (exhaustedGateName_ne step.name), if_pos rfl]
    rw [if_neg hinteraction, Program.seq_assoc]
  have houtcome (output : StepOutput) (hwaiting : payload.stepName = outcomeGateName step.name)
      (hsaved : s.stepOutputs.get? step.name = some output)
      (hroute : (step.resolveOutcomeRoute
        ((output.outcome.map StepOutcome.status).getD .success)).map OutcomeRoute.action =
          some .gate) :
      resumeDerivedGate host workflow step payload v.state =
        (handleGateStep host workflow (outcomeGateName step.name)
          (some (buildOutcomeGate step (output.outcome.bind StepOutcome.reason))) v.state >>=
            fun decision => followOutcomeGate workflow step output decision >>= resumeOutcome) := by
    unfold resumeDerivedGate
    rw [if_neg hsame, hwaiting, if_pos rfl, houtputs, hsaved]
    dsimp only
    rw [if_pos hroute, handleStepOutcome_gate hroute]
    unfold handleOutcomeGate
    rw [if_neg hpending, Program.seq_assoc]
  have herror (hwaiting : payload.stepName = errorGateName step.name) : ∃ gate,
      resumeDerivedGate host workflow step payload v.state =
        (handleGateStep host workflow (errorGateName step.name) gate v.state >>= fun decision =>
            resumeError workflow step payload (followErrorGate decision)) := by
    refine ⟨some (buildErrorGate step
      (((v.state.stepOutputs.get? step.name).bind StepOutput.error).getD "")), ?_⟩
    unfold resumeDerivedGate pauseForDeterministicError
    rw [if_neg hsame, hwaiting, if_neg (errorGateName_ne step.name).1,
      if_neg (errorGateName_ne step.name).2, if_pos rfl]
    dsimp only
    rw [if_neg hpending, Program.seq_assoc]
    rfl
  have hstatus : v.state.status = .paused := by rw [hpaused]; rfl
  cases waiting with
  | exhausted | reviewLoop =>
    exact ⟨_, payload, hpayload, hname, hnext, hstatus, hvisit.trans (hexhausted hname hhand)⟩
  | outcome output | resumedOutcome output =>
    exact ⟨_, payload, hpayload, hname, hnext, hstatus,
      hvisit.trans (houtcome output hname hhand.1 hhand.2)⟩
  | error | resumedError =>
    obtain ⟨gate, heq⟩ := herror hname
    exact ⟨gate, payload, hpayload, hname, hnext, hstatus, hvisit.trans heq⟩

def Outside.resolved (action : Action) (instruction : String) : Outside
  | _, .resolvedDecision _ => some (action, instruction)
  | n, o => Outside.ready "" .approved action n o

def Outside.interrupting : Outside
  | _, .awaitDecision _ => GateReply.interrupted
  | n, o => Outside.ready "" .approved .«continue» n o

def interrupts (w : World) (o : Op) (r : Reply o) : Prop :=
  w.answers o r ∧
    match o, r with
    | .awaitDecision _, r => r = GateReply.interrupted
    | _, _ => True

theorem interrupts_reply (n : Nat) (w : World) (o : Op) :
    interrupts w o (World.reply Outside.interrupting n w o) := by
  refine ⟨World.answers_reply _ n w o, ?_⟩
  cases o with
  | awaitDecision => rfl
  | _ => trivial

section

variable {waiting : Waiting} {gateName : String} {k : GateReply → Prog VisitEnd}
  {instruction : String} {x : Progress}

theorem Waits.restarted (h : Waits host workflow step waiting s gateName v k) {restarted : Outside}
    (hdelivers : Delivers restarted action instruction)
    (hresume : ∀ payload : PausePayload, payload.nextStepIndex = none → ∀ u t, Decided v u t →
      EndsWith (waiting.resume workflow step payload (u, .ok action)) x t) :
    ((visit host workflow v.state).exec (World.reply restarted) World.after 0 v).2.state.progress =
      x := by
  obtain ⟨gate, payload, hpending, hname, hnext, hstatus, hvisit⟩ := h.restart
  rw [hvisit]
  exact handleGateStep_restarted (Q := fun t => t.state.progress = x) hpending hname hstatus
    hdelivers (hresume payload hnext)

theorem Waits.same (h : Waits host workflow step waiting s gateName v k)
    (hfollow : ∀ u t, Decided v u t →
      EndsWith (waiting.follow host workflow step (u, .ok action)) x t)
    (hresume : ∀ payload : PausePayload, payload.nextStepIndex = none → ∀ u t, Decided v u t →
      EndsWith (waiting.resume workflow step payload (u, .ok action)) x t) :
    SameAfterRestart host workflow v k action instruction := by
  intro live restarted hdelivers
  have hlive : (k (.decided action instruction)).Always World.after World.answers
      (fun _ _ => True) (fun _ t => t.state.progress = x) v :=
    h.wait.live (fun _ _ _ hr => hr) hfollow
  rw [h.restarted hdelivers hresume]
  exact Program.Always.exec (World.answers_reply live) hlive 0

theorem Waits.differs (h : Waits host workflow step waiting s gateName v k)
    (hfollow : ∀ u t, Decided v u t → (waiting.follow host workflow step (u, .ok action)).Always
      World.after interrupts (fun _ _ => True) (fun _ t => t.state.progress ≠ x) t)
    (hresume : ∀ payload : PausePayload, payload.nextStepIndex = none → ∀ u t, Decided v u t →
      EndsWith (waiting.resume workflow step payload (u, .ok action)) x t) :
    ¬ SameAfterRestart host workflow v k action instruction := by
  intro hsame
  have hend := hsame Outside.interrupting (Outside.resolved action instruction)
    (.inl fun _ _ => rfl)
  rw [h.restarted (.inl fun _ _ => rfl) hresume] at hend
  have hlive : (k (.decided action instruction)).Always World.after interrupts
      (fun _ _ => True) (fun _ t => t.state.progress ≠ x) v :=
    h.wait.live (fun _ _ _ hr => hr.1) hfollow
  exact Program.Always.exec interrupts_reply hlive 0 hend

theorem Waits.same_iff {y : Progress} (h : Waits host workflow step waiting s gateName v k)
    (hfollow : ∀ u t, Decided v u t →
      EndsWith (waiting.follow host workflow step (u, .ok action)) x t)
    (hresume : ∀ payload : PausePayload, payload.nextStepIndex = none → ∀ u t, Decided v u t →
      EndsWith (waiting.resume workflow step payload (u, .ok action)) y t) :
    SameAfterRestart host workflow v k action instruction ↔ x = y := by
  constructor
  · intro hsame
    by_contra hne
    refine h.differs ?_ hresume hsame
    intro u t hd
    refine Program.Always.mono_answers ((hfollow u t hd).mono ?_) fun _ _ _ hr => hr.1
    exact fun _ _ hend heq => hne (hend.symm.trans heq)
  · rintro rfl
    exact h.same hfollow hresume

end

/-- The decisions an exhaustion gate handles. -/
def settles (workflow : Workflow) : Action → Bool
  | .«continue» | .cancel => true
  | .revise target => (workflow.findStepIndex target).isSome
  | _ => false

def usedUp (workflow : Workflow) (step : StepDefinition) (s : WorkflowState) : Prop :=
  ((workflow.resolveCompletion step).map CompletionConfig.maxAttempts).getD 3 ≤
    s.iterations (attemptsKey step.name) 1

theorem exhaustedProgress_unsettled {p : Progress} (h : settles workflow action = false) :
    exhaustedProgress workflow p action = { p with status := .failed } := by
  cases action with
  | «continue» | cancel => cases h
  | revise =>
    unfold settles at h
    unfold exhaustedProgress
    rw [isSome_eq_false_iff, isNone_iff_eq_none] at h
    dsimp only
    rw [h]
  | fail | gate | other => rfl

variable (evaluation : StepEvaluation)

theorem reviewLoop_settled (h : settles workflow action) :
    EndsWith ((Waiting.reviewLoop evaluation).follow host workflow step (u, .ok action))
      (exhaustedProgress workflow u.progress action) w := by
  cases action with
  | «continue» | cancel => exact endsWith_persist _ _ _
  | revise target =>
    unfold Waiting.follow followExhausted exhaustedProgress
    unfold settles at h
    dsimp only at h ⊢
    cases hfind : workflow.findStepIndex target with
    | none =>
      rw [hfind] at h
      cases h
    | some => exact endsWith_persist _ _ _
  | fail | gate | other => cases h

theorem reviewLoop_unsettled (h : settles workflow action = false) :
    (Waiting.reviewLoop evaluation).follow host workflow step (u, .ok action) =
      retryRejected host workflow step evaluation u := by
  cases action with
  | «continue» | cancel => cases h
  | revise =>
    unfold Waiting.follow followExhausted
    unfold settles at h
    rw [isSome_eq_false_iff, isNone_iff_eq_none] at h
    dsimp only
    rw [h]
    rfl
  | fail | gate | other => rfl

theorem retryRejected_fails (hused : usedUp workflow step u)
    (hfail : workflow.getOnExhausted step = .fail) :
    EndsWith (retryRejected host workflow step evaluation u)
      { u.progress with status := .failed } w := by
  have hretry : retryRejected host workflow step evaluation u = fail u := by
    unfold retryRejected handleStepRetry retryStep
    rw [if_pos (show _ ≤ _ from hused), hfail]
    rfl
  rw [hretry]
  exact fail_ends

theorem retryRejected_goesOn (hinteraction : workflow.interaction ≠ .none)
    (hgate : u.pendingGate = none) (hrunning : u.status = .running)
    (h : ¬ (usedUp workflow step u ∧ workflow.getOnExhausted step = .fail)) :
    (retryRejected host workflow step evaluation u).Always World.after interrupts
      (fun _ _ => True) (fun _ t => t.state.status ≠ .failed) w := by
  have hrun : ∀ t : WorkflowState, t.status = .running → t.status ≠ .failed := by
    intro t ht
    rw [ht]
    decide
  by_cases hused : usedUp workflow step u
  · have hretry : retryRejected host workflow step evaluation u =
        (handleExhausted host workflow step u (workflow.getOnExhausted step)
          (some evaluation.feedbackText) >>= fun x =>
            conclude x.1 (x.2.map Handled.ofExhausted)) := by
      unfold retryRejected handleStepRetry retryStep
      rw [if_pos (show _ ≤ _ from hused), Program.seq_assoc]
      rfl
    rw [hretry]
    cases hexhausted : workflow.getOnExhausted step with
    | fail => exact absurd ⟨hused, hexhausted⟩ h
    | «continue» =>
      have hskip : Ensures (fun _ _ => True) (skipExhausted step u)
          (fun _ t => t.state.status ≠ .failed) w := by
        unfold skipExhausted
        rw [ensures_bind, ensures_latest]
        refine ⟨trivial, ?_⟩
        split
        · exact ⟨trivial, fun _ _ => hrun _ hrunning⟩
        · rw [ensures_bind, ensures_rejectedDeliverable]
          refine ⟨trivial, ?_⟩
          intro deliverable
          cases deliverable with
          | none | some deliverable => exact ⟨trivial, fun _ _ => hrun _ hrunning⟩
      unfold handleExhausted
      rw [Program.always_bind, Program.always_bind]
      exact hskip.mono_answers fun _ _ _ hr => hr.1
    | gate =>
      -- the second gate is asked at once, and its worker is interrupted
      have hwait : handleExhausted host workflow step u .gate (some evaluation.feedbackText) =
          (waitAtGate host workflow (exhaustedGateName step.name)
            (buildExhaustionGate step (some evaluation.feedbackText)) u >>=
              followExhausted workflow) := by
        unfold handleExhausted handleGateStep
        rw [if_neg hinteraction, hgate]
        dsimp only
        rw [if_neg hinteraction, if_neg (by simp [buildExhaustionGate])]
      rw [hwait]
      refine ⟨trivial, fun _ _ => ⟨trivial, ?_⟩⟩
      rintro reply ⟨-, hreply⟩
      subst hreply
      exact ⟨trivial, fun _ _ => WorkflowStatus.noConfusion⟩
  · have hrecord : Ensures (fun _ _ => True) (recordEvaluationFeedback step u evaluation)
        (fun t _ => t.status = .running) w := by
      unfold recordEvaluationFeedback
      rw [ensures_bind, ensures_recordFeedback]
      refine ⟨trivial, ?_⟩
      intro recorded
      split
      · exact hrunning
      · exact hrunning
    have hretry : Ensures (fun _ _ => True) (retryRejected host workflow step evaluation u)
        (fun _ t => t.state.status ≠ .failed) w := by
      unfold retryRejected handleStepRetry retryStep
      rw [if_neg (show ¬ _ ≤ _ from hused), Program.seq_assoc, ensures_bind]
      refine hrecord.mono ?_
      intro t _ ht
      exact ⟨trivial, fun _ _ => hrun _ ht⟩
    exact hretry.mono_answers fun _ _ _ hr => hr.1

theorem generationKey_ne_jumpsKey (name : String) : generationKey name ≠ jumpsKey := by
  intro h
  have htake := congrArg (fun text => text.toList.take 15) h
  unfold generationKey jumpsKey at htake
  rw [String.toList_append, List.take_append_of_le_length (by decide)] at htake
  exact absurd htake (by decide)

theorem attemptsKey_ne_jumpsKey (name : String) : attemptsKey name ≠ jumpsKey := by
  have h := append_ne_of_head (c := 'a') (d := 'd') (a := "attempts:") (b := jumpsKey) (by decide)
    (by decide) (by decide) name ""
  exact h

theorem routeLoop_ne_jumpsKey (loop : RouteLoop) : loop.key ≠ jumpsKey := by
  rw [RouteLoop.key, conditionLoopKey, String.append_assoc, String.append_assoc]
  have h := append_ne_of_head (c := 'c') (d := 'd') (a := "condition:") (b := jumpsKey) (by decide)
    (by decide) (by decide) (loop.step ++ ("->" ++ loop.target)) ""
  exact h

def notedLoops (loops : OrderedMap String Nat) (result : DeterministicResult) :
    OrderedMap String Nat :=
  match result.routeLoop with
  | some loop => loops.set loop.key loop.iterations
  | none => loops

theorem noteRoute_progress (result : DeterministicResult) : (noteRoute s result).progress =
    { s.progress with loopIterations := notedLoops s.loopIterations result } := by
  unfold noteRoute notedLoops
  cases result.routeLoop with
  | none | some => cases result.revisionContext <;> rfl

theorem noteRoute_jumps (result : DeterministicResult) :
    (noteRoute s result).iterations jumpsKey 0 = s.iterations jumpsKey 0 := by
  have hloops : (noteRoute s result).loopIterations = notedLoops s.loopIterations result :=
    congrArg Progress.loopIterations (noteRoute_progress result)
  unfold WorkflowState.iterations
  rw [hloops, notedLoops]
  split
  · rw [OrderedMap.get?_set, if_neg (routeLoop_ne_jumpsKey _).symm]
  · rfl

theorem applyDeterministicRoute_jumps {source target : Nat} {reason : String} {t : WorkflowState}
    (h : target ≠ source + 1)
    (ht : applyDeterministicRoute workflow s source target reason = .error t ∨
      applyDeterministicRoute workflow s source target reason = .ok t) :
    t.iterations jumpsKey 0 = s.iterations jumpsKey 0 + 1 := by
  have hset : (s.setIterations jumpsKey (s.iterations jumpsKey 0 + 1)).iterations jumpsKey 0 =
      s.iterations jumpsKey 0 + 1 := by
    rw [WorkflowState.iterations_setIterations, if_pos rfl]
  have hover (steps : List StepDefinition) (t : WorkflowState) :
      (steps.foldl (routeOver reason) t).iterations jumpsKey 0 = t.iterations jumpsKey 0 := by
    unfold WorkflowState.iterations
    rw [(foldl_routeOver reason steps t).2.2.2]
  have hagain (steps : List StepDefinition) (t : WorkflowState) :
      (steps.foldl routeAgain t).iterations jumpsKey 0 = t.iterations jumpsKey 0 := by
    induction steps generalizing t with
    | nil => rfl
    | cons step steps ih =>
      rw [List.foldl_cons, ih]
      change (t.setIterations (generationKey step.name) (t.generation step.name + 1)).iterations
        jumpsKey 0 = _
      rw [WorkflowState.iterations_setIterations, if_neg (generationKey_ne_jumpsKey step.name).symm]
  have hannounce (t : WorkflowState) :
      (announceRevision workflow t target).iterations jumpsKey 0 = t.iterations jumpsKey 0 := by
    unfold announceRevision
    split
    · rfl
    · rw [WorkflowState.iterations_setIterations, if_neg (attemptsKey_ne_jumpsKey _).symm]
      rfl
  unfold applyDeterministicRoute at ht
  rw [if_neg h] at ht
  by_cases hlimit : maxDeterministicJumps < s.iterations jumpsKey 0 + 1
  · rw [if_pos hlimit] at ht
    rcases ht with ht | ht
    · cases ht
      exact hset
    · cases ht
  · rw [if_neg hlimit] at ht
    by_cases hforward : source < target
    · rw [if_pos hforward] at ht
      rcases ht with ht | ht
      · cases ht
      · cases ht
        rw [hover, hset]
    · rw [if_neg hforward] at ht
      rcases ht with ht | ht
      · cases ht
      · cases ht
        rw [hagain, hannounce, hset]

def quiet (s : WorkflowState) (result : DeterministicResult) : Prop :=
  result.nextStepIndex.getD (s.currentStepIndex + 1) = s.currentStepIndex + 1 ∧
    ∀ loop, result.routeLoop = some loop → s.loopIterations.get? loop.key = some loop.iterations

theorem routeDeterministic_quiet (h : quiet u result) :
    EndsWith (routeDeterministic workflow step u result)
      { u.progress with currentStepIndex := u.currentStepIndex + 1 } w := by
  have hloops : notedLoops u.loopIterations result = u.loopIterations := by
    unfold notedLoops
    split
    · rename_i loop hloop
      exact OrderedMap.set_of_get?_eq (h.2 loop hloop)
    · rfl
  have hnoted := noteRoute_progress (s := u) result
  rw [hloops] at hnoted
  unfold routeDeterministic
  dsimp only
  rw [h.1]
  have hroute : applyDeterministicRoute workflow (noteRoute u result) u.currentStepIndex
      (u.currentStepIndex + 1) (deterministicRouteReason step result.output) =
        .ok (noteRoute u result) := by
    unfold applyDeterministicRoute
    rw [if_pos rfl]
  rw [hroute]
  have hend : ({ noteRoute u result with
      currentStepStatus := none
      pendingGate := none
      currentStepIndex := u.currentStepIndex + 1 } : WorkflowState).progress =
      { u.progress with currentStepIndex := u.currentStepIndex + 1 } := by
    change { (noteRoute u result).progress with currentStepIndex := u.currentStepIndex + 1 } = _
    rw [hnoted]
    rfl
  rw [← hend]
  exact endsWith_persist _ _ _

theorem routeDeterministic_counts (h : ¬ quiet u result) :
    Ensures (fun _ _ => True) (routeDeterministic workflow step u result)
      (fun _ t => t.state.loopIterations ≠ u.loopIterations) w := by
  have hnoted : (noteRoute u result).loopIterations = notedLoops u.loopIterations result :=
    congrArg Progress.loopIterations (noteRoute_progress result)
  have hcounts (t : WorkflowState)
      (ht : applyDeterministicRoute workflow (noteRoute u result) u.currentStepIndex
          (result.nextStepIndex.getD (u.currentStepIndex + 1))
          (deterministicRouteReason step result.output) = .error t ∨
        applyDeterministicRoute workflow (noteRoute u result) u.currentStepIndex
          (result.nextStepIndex.getD (u.currentStepIndex + 1))
          (deterministicRouteReason step result.output) = .ok t) :
      t.loopIterations ≠ u.loopIterations := by
    by_cases hnext : result.nextStepIndex.getD (u.currentStepIndex + 1) = u.currentStepIndex + 1
    · -- a loop is counted anew
      obtain ⟨loop, hloop, hne⟩ : ∃ loop, result.routeLoop = some loop ∧
          u.loopIterations.get? loop.key ≠ some loop.iterations := by
        by_contra hall
        apply h
        refine ⟨hnext, ?_⟩
        intro loop hloop
        by_contra hne
        exact hall ⟨loop, hloop, hne⟩
      unfold applyDeterministicRoute at ht
      rw [if_pos hnext] at ht
      have hsame : t = noteRoute u result := by
        rcases ht with ht | ht
        · cases ht
        · exact (Except.ok.inj ht).symm
      intro heq
      apply hne
      rw [← heq, hsame, hnoted, notedLoops, hloop]
      exact OrderedMap.get?_set_self _ _ _
    · have hjumps := applyDeterministicRoute_jumps hnext ht
      rw [noteRoute_jumps] at hjumps
      intro heq
      unfold WorkflowState.iterations at hjumps
      rw [heq] at hjumps
      omega
  unfold routeDeterministic
  dsimp only
  split
  · rename_i t ht
    unfold raise
    rw [ensures_bind, ensures_commit, ensures_bind, ensures_persist]
    exact ⟨trivial, trivial, hcounts t (.inl ht)⟩
  · rename_i t ht
    rw [ensures_bind, ensures_persist]
    exact ⟨trivial, hcounts t (.inr ht)⟩

def resumedProgress (p : Progress) : Option Nat → Progress
  | none => { p with status := .failed }
  | some target => { p with currentStepIndex := target }

theorem resumeError_continue (payload : PausePayload) :
    EndsWith (resumeError workflow step payload (followErrorGate (u, .ok .«continue»)))
      (resumedProgress u.progress (resumedErrorTarget workflow step payload u)) w := by
  unfold followErrorGate resumeError
  dsimp only
  cases resumedErrorTarget workflow step payload u with
  | none => exact fail_ends
  | some => exact endsWith_persist _ _ _

theorem resumedProgress_injective {p : Progress} {a b : Option Nat} (hrunning : p.status = .running)
    (h : resumedProgress p a = resumedProgress p b) : a = b := by
  have hstatus := congrArg Progress.status h
  have hindex := congrArg Progress.currentStepIndex h
  cases a with
  | none =>
    cases b with
    | none => rfl
    | some =>
      rw [resumedProgress, resumedProgress] at hstatus
      rw [hrunning] at hstatus
      cases hstatus
  | some =>
    cases b with
    | none =>
      rw [resumedProgress, resumedProgress] at hstatus
      rw [hrunning] at hstatus
      cases hstatus
    | some => exact congrArg some hindex

def errorProgress (p : Progress) : Action → Progress
  | .cancel => { p with status := .cancelled }
  | .fail => { p with status := .failed }
  | _ => p

section

variable (hd : Decided v u w)

include hd

theorem Decided.cancel_ends :
    EndsWith (cancel u) { v.state.progress with status := .cancelled } w := by
  have hend := WorkflowEngine.cancel_ends (s := u) (w := w)
  rwa [hd.progress] at hend

theorem Decided.fail_ends : EndsWith (fail u) { v.state.progress with status := .failed } w := by
  have hend := WorkflowEngine.fail_ends (s := u) (w := w)
  rwa [hd.progress] at hend

variable (haction : action ≠ .«continue»)

include haction

theorem settleError_ends (result : DeterministicResult) :
    EndsWith (settleError workflow step result (followErrorGate (u, .ok action)))
      (errorProgress v.state.progress action) w := by
  have hstays : EndsWith (pure VisitEnd.paused : Prog VisitEnd) v.state.progress w := hd.committed
  cases action with
  | «continue» => exact absurd rfl haction
  | cancel => exact hd.cancel_ends
  | fail => exact hd.fail_ends
  | gate | revise | other => exact hstays

theorem resumeError_ends (hpaused : v.state.status = .paused) (payload : PausePayload) :
    EndsWith (resumeError workflow step payload (followErrorGate (u, .ok action)))
      (errorProgress v.state.progress action) w := by
  have hstays : EndsWith (stayPaused u) v.state.progress w := by
    have hend := endsWith_persist { u with status := .paused } .paused VisitEnd.paused (w := w)
    have hsame : ({ u with status := .paused } : WorkflowState).progress = v.state.progress := by
      change { u.progress with status := .paused } = _
      rw [hd.progress, ← hpaused]
      rfl
    rw [hsame] at hend
    exact hend
  cases action with
  | «continue» => exact absurd rfl haction
  | cancel => exact hd.cancel_ends
  | fail => exact hd.fail_ends
  | gate | revise | other => exact hstays

end

/-- When a restart at the pause `s` comes to the same as waiting. -/
def Waiting.keeps (workflow : Workflow) (step : StepDefinition) (s : WorkflowState)
    (action : Action) : Waiting → Prop
  | .exhausted | .outcome _ | .resumedOutcome _ => True
  | .reviewLoop _ =>
    settles workflow action = true ∨ usedUp workflow step s ∧ workflow.getOnExhausted step = .fail
  | .error result =>
    action = .«continue» → quiet s result ∧
      ∀ name, step.next = some name → workflow.findStepIndex name = some (s.currentStepIndex + 1)
  | .resumedError payload =>
    action = .«continue» → resumedErrorTarget workflow step payload s =
      resumedErrorTarget workflow step { payload with nextStepIndex := none } s

section

variable {gateName : String} {k : GateReply → Prog VisitEnd} {instruction : String}

theorem Decided.running (h : Decided v u t) : u.status = .running :=
  congrArg Progress.status h.progress

theorem Decided.index (h : Decided v u t) : u.currentStepIndex = v.state.currentStepIndex :=
  congrArg Progress.currentStepIndex h.progress

theorem Decided.loops (h : Decided v u t) : u.loopIterations = v.state.loopIterations :=
  congrArg Progress.loopIterations h.progress

theorem Waits.exhausted_same (h : Waits host workflow step .exhausted s gateName v k) :
    SameAfterRestart host workflow v k action instruction := by
  apply h.same (x := exhaustedProgress workflow { v.state.progress with status := .running } action)
  · intro u t hd
    rw [← hd.progress]
    exact followExhausted_ends
  · intro payload _ u t hd
    rw [← hd.progress]
    exact followExhausted_ends

theorem Waits.outcome_same {output : StepOutput}
    (hwaiting : waiting = .outcome output ∨ waiting = .resumedOutcome output)
    (h : Waits host workflow step waiting s gateName v k) :
    SameAfterRestart host workflow v k action instruction := by
  have hsettle (u : WorkflowState) (t : World) (hd : Decided v u t) :
      EndsWith (followOutcomeGate workflow step output (u, .ok action) >>= settleOutcome)
        (outcomeProgress workflow { v.state.progress with status := .running } action) t := by
    rw [← hd.progress]
    exact followOutcomeGate_ends output (fun _ => rfl) (fun _ => rfl) (fun _ => rfl)
  have hresume (u : WorkflowState) (t : World) (hd : Decided v u t) :
      EndsWith (followOutcomeGate workflow step output (u, .ok action) >>= resumeOutcome)
        (outcomeProgress workflow { v.state.progress with status := .running } action) t := by
    rw [← hd.progress]
    exact followOutcomeGate_ends output (fun _ => rfl) (fun _ => rfl) (fun _ => rfl)
  rcases hwaiting with rfl | rfl
  · exact h.same hsettle fun _ _ => hresume
  · exact h.same hresume fun _ _ => hresume

theorem Waits.reviewLoop_iff {evaluation : StepEvaluation}
    (h : Waits host workflow step (.reviewLoop evaluation) s gateName v k) :
    SameAfterRestart host workflow v k action instruction ↔
      (Waiting.reviewLoop evaluation).keeps workflow step v.state action := by
  have hresume : ∀ payload : PausePayload, payload.nextStepIndex = none → ∀ u t, Decided v u t →
      EndsWith ((Waiting.reviewLoop evaluation).resume workflow step payload (u, .ok action))
        (exhaustedProgress workflow { v.state.progress with status := .running } action) t := by
    intro payload _ u t hd
    rw [← hd.progress]
    exact followExhausted_ends
  have hused (u : WorkflowState) (t : World) (hd : Decided v u t) :
      usedUp workflow step u ↔ usedUp workflow step v.state := by
    unfold usedUp WorkflowState.iterations
    rw [hd.loops]
  cases hsettles : settles workflow action with
  | true =>
    refine ⟨fun _ => .inl hsettles, fun _ => h.same ?_ hresume⟩
    intro u t hd
    rw [← hd.progress]
    exact reviewLoop_settled evaluation hsettles
  | false =>
    rw [exhaustedProgress_unsettled hsettles] at hresume
    constructor
    · intro hsame
      by_contra hkeeps
      refine h.differs ?_ hresume hsame
      intro u t hd
      rw [reviewLoop_unsettled evaluation hsettles]
      have hgoes : (retryRejected host workflow step evaluation u).Always World.after interrupts
          (fun _ _ => True) (fun _ t => t.state.status ≠ .failed) t := by
        refine retryRejected_goesOn evaluation h.hand hd.gate hd.running ?_
        rintro ⟨hu, hfail⟩
        exact hkeeps (.inr ⟨(hused u t hd).mp hu, hfail⟩)
      refine hgoes.mono ?_
      intro _ t hne heq
      exact hne (congrArg Progress.status heq)
    · rintro (hfalse | ⟨hu, hfail⟩)
      · rw [hsettles] at hfalse
        cases hfalse
      · refine h.same ?_ hresume
        intro u t hd
        rw [reviewLoop_unsettled evaluation hsettles]
        have hend : EndsWith (retryRejected host workflow step evaluation u)
            { u.progress with status := .failed } t :=
          retryRejected_fails evaluation ((hused u t hd).mpr hu) hfail
        rw [hd.progress] at hend
        exact hend

theorem resumedErrorTarget_congr (h : u.currentStepIndex = s.currentStepIndex) :
    resumedErrorTarget workflow step payload u = resumedErrorTarget workflow step payload s := by
  unfold resumedErrorTarget
  rw [h]

theorem resumedErrorTarget_eq_next (h : payload.nextStepIndex = none) :
    resumedErrorTarget workflow step payload s = some (s.currentStepIndex + 1) ↔
      ∀ name, step.next = some name → workflow.findStepIndex name = some
        (s.currentStepIndex + 1) := by
  unfold resumedErrorTarget
  rw [h]
  cases hnext : step.next with
  | none | some => simp

theorem Waits.paused (h : Waits host workflow step waiting s gateName v k) :
    v.state.status = .paused := by
  obtain ⟨-, gate, hpaused, -⟩ := h.wait
  rw [hpaused]
  rfl

theorem resumeError_resumed (hnext : payload.nextStepIndex = none) (hd : Decided v u t)
    (other : PausePayload) :
    EndsWith (resumeError workflow step payload (followErrorGate (u, .ok .«continue»)))
      (resumedProgress { v.state.progress with status := .running }
        (resumedErrorTarget workflow step { other with nextStepIndex := none } v.state)) t := by
  have htarget : resumedErrorTarget workflow step payload u =
      resumedErrorTarget workflow step { other with nextStepIndex := none } v.state := by
    unfold resumedErrorTarget
    rw [hnext, hd.index]
  rw [← htarget, ← hd.progress]
  exact resumeError_continue payload

theorem Waits.error_iff (h : Waits host workflow step (.error result) s gateName v k) :
    SameAfterRestart host workflow v k action instruction ↔
      (Waiting.error result).keeps workflow step v.state action := by
  by_cases haction : action = .«continue»
  · subst haction
    obtain ⟨-, payload, -, -, _, -, -⟩ := h.restart
    have hresume : ∀ other : PausePayload, other.nextStepIndex = none → ∀ u t, Decided v u t →
        EndsWith ((Waiting.error result).resume workflow step other (u, .ok .«continue»))
          (resumedProgress { v.state.progress with status := .running }
            (resumedErrorTarget workflow step { payload with nextStepIndex := none } v.state)) t :=
      fun other hnext u t hd => resumeError_resumed hnext hd payload
    have hquiet (u : WorkflowState) (t : World) (hd : Decided v u t) :
        quiet u result ↔ quiet v.state result := by
      unfold quiet
      rw [hd.index, hd.loops]
    have hends (hq : quiet v.state result) (u : WorkflowState) (t : World) (hd : Decided v u t) :
        EndsWith ((Waiting.error result).follow host workflow step (u, .ok .«continue»))
          (resumedProgress { v.state.progress with status := .running }
            (some (v.state.currentStepIndex + 1))) t := by
      have hend : EndsWith (routeDeterministic workflow step u result)
          { u.progress with currentStepIndex := u.currentStepIndex + 1 } t :=
        routeDeterministic_quiet ((hquiet u t hd).mpr hq)
      rw [hd.progress, hd.index] at hend
      exact hend
    constructor
    · intro hsame _
      by_contra hkeeps
      by_cases hq : quiet v.state result
      · have htarget := resumedProgress_injective rfl ((h.same_iff (hends hq) hresume).mp hsame)
        exact hkeeps ⟨hq, (resumedErrorTarget_eq_next rfl).mp htarget.symm⟩
      · refine h.differs ?_ hresume hsame
        intro u t hd
        have hcounts : Ensures (fun _ _ => True) (routeDeterministic workflow step u result)
            (fun _ t => t.state.loopIterations ≠ u.loopIterations) t :=
          routeDeterministic_counts (mt (hquiet u t hd).mp hq)
        refine Program.Always.mono_answers (hcounts.mono ?_) fun _ _ _ hr => hr.1
        intro _ t' hne heq
        apply hne
        have hloops := congrArg Progress.loopIterations heq
        rw [hd.loops]
        refine hloops.trans ?_
        unfold resumedProgress
        split <;> rfl
    · intro hkeeps
      obtain ⟨hq, hnext⟩ := hkeeps rfl
      have htarget : resumedErrorTarget workflow step { payload with nextStepIndex := none }
          v.state = some (v.state.currentStepIndex + 1) :=
        (resumedErrorTarget_eq_next rfl).mpr hnext
      rw [htarget] at hresume
      exact h.same (hends hq) hresume
  · refine ⟨fun _ hcontinue => absurd hcontinue haction, fun _ => ?_⟩
    exact h.same (fun u t hd => settleError_ends hd haction result)
      fun payload _ u t hd => resumeError_ends hd haction h.paused payload

theorem Waits.resumedError_iff
    (h : Waits host workflow step (.resumedError payload) s gateName v k) :
    SameAfterRestart host workflow v k action instruction ↔
      (Waiting.resumedError payload).keeps workflow step v.state action := by
  by_cases haction : action = .«continue»
  · subst haction
    have hresume : ∀ other : PausePayload, other.nextStepIndex = none → ∀ u t, Decided v u t →
        EndsWith ((Waiting.resumedError payload).resume workflow step other (u, .ok .«continue»))
          (resumedProgress { v.state.progress with status := .running }
            (resumedErrorTarget workflow step { payload with nextStepIndex := none } v.state)) t :=
      fun other hnext u t hd => resumeError_resumed hnext hd payload
    have hends (u : WorkflowState) (t : World) (hd : Decided v u t) :
        EndsWith ((Waiting.resumedError payload).follow host workflow step (u, .ok .«continue»))
          (resumedProgress { v.state.progress with status := .running }
            (resumedErrorTarget workflow step payload v.state)) t := by
      rw [← resumedErrorTarget_congr hd.index, ← hd.progress]
      exact resumeError_continue payload
    rw [h.same_iff hends hresume]
    constructor
    · intro heq _
      exact resumedProgress_injective rfl heq
    · intro hkeeps
      have htarget : resumedErrorTarget workflow step payload v.state = _ := hkeeps rfl
      rw [htarget]
  · refine ⟨fun _ hcontinue => absurd hcontinue haction, fun _ => ?_⟩
    exact h.same (fun u t hd => resumeError_ends hd haction h.paused payload)
      fun other _ u t hd => resumeError_ends hd haction h.paused other

end

/-- Wherever an iteration waits at a derived gate, its worker holds something in hand,
and a restart at that pause changes nothing exactly in the cases of `Waiting.keeps`. -/
theorem restart_same_iff {n : Nat} {outside : Outside}
    (hrest : (visit host workflow w.state).rest (World.reply outside) World.after n 0 w =
      (.call (.awaitDecision gateName) k, v))
    (hstep : workflow.steps[v.state.currentStepIndex]? = some step)
    (hderived : step.isGate = false) :
    ∃ waiting s, Waits host workflow step waiting s gateName v k ∧
      ∀ action instruction, SameAfterRestart host workflow v k action instruction ↔
        waiting.keeps workflow step v.state action := by
  have hstands := Program.Tracked.rest (World.answers_reply outside)
    (visit_stands host workflow w.state w) hrest
  obtain ⟨waiting, s, h⟩ := hstands step hstep hderived
  refine ⟨waiting, s, h, ?_⟩
  intro action instruction
  cases waiting with
  | exhausted => exact ⟨fun _ => trivial, fun _ => h.exhausted_same⟩
  | reviewLoop => exact h.reviewLoop_iff
  | outcome output => exact ⟨fun _ => trivial, fun _ => h.outcome_same (.inl rfl)⟩
  | error => exact h.error_iff
  | resumedOutcome output => exact ⟨fun _ => trivial, fun _ => h.outcome_same (.inr rfl)⟩
  | resumedError => exact h.resumedError_iff

def fetchStep : StepDefinition where
  name := "fetch"
  kind := .toolCall { onError := some .gate } { tool := "fetch" } (some "report")

def fetching : Workflow where
  steps := [fetchStep, { name := "retry", kind := .toolCall {} { tool := "fetch" } none },
    { name := "report", kind := .complete {} { summary := "done" } }]

/-- The call returns an error, and the operator decides `action`. -/
def refusing (action : Action) : Outside
  | _, .dispatch _ => ToolReply.result { output := "refused", isError := true }
  | n, o => Outside.ready "" .approved action n o

def standsAtGate : Prog VisitEnd → Bool
  | .call (.awaitDecision _) _ => true
  | _ => false

/-- The worker that waits, after the ten operations of the call. -/
def fetchingPause (action : Action) : Prog VisitEnd × World :=
  (visit Host.literal fetching {}).rest (World.reply (refusing action)) World.after 10 0 {}

/-- A cancellation is the same before and after a restart. -/
theorem restart_same_cancel : ∃ gateName k v,
    fetchingPause .cancel = (.call (.awaitDecision gateName) k, v) ∧
      SameAfterRestart Host.literal fetching v k .cancel "" := by
  have hstands : standsAtGate (fetchingPause .cancel).1 := by decide +kernel
  have hat : fetching.steps[(fetchingPause .cancel).2.state.currentStepIndex]? =
      some fetchStep := by decide +kernel
  cases hpause : fetchingPause .cancel with
  | mk p v =>
    rw [hpause] at hstands hat
    cases p with
    | done how => cases hstands
    | call o k =>
      cases o with
      | awaitDecision gateName =>
        have hrest : (visit Host.literal fetching ({} : World).state).rest
            (World.reply (refusing .cancel)) World.after 10 0 {} =
              (.call (.awaitDecision gateName) k, v) := hpause
        obtain ⟨waiting, s, -, hsame⟩ := restart_same_iff hrest hat (by decide)
        refine ⟨gateName, k, v, rfl, (hsame .cancel "").mpr ?_⟩
        cases waiting with
        | reviewLoop => exact .inl rfl
        | error | resumedError => exact Action.noConfusion
        | exhausted | outcome | resumedOutcome => trivial
      | _ => cases hstands

/-- Told to continue, the worker that waits takes the call's route over the next step;
one that resumes the pause goes to the same step without it. -/
theorem restart_skips_route :
    let waits := Run.step Host.literal fetching {} (.visit (refusing .«continue»))
    let killed := Run.step Host.literal fetching {} (.crash (refusing .«continue») 10)
    let resumed := Run.step Host.literal fetching killed (.visit (refusing .«continue»))
    validateWorkflow fetching = .ok () ∧ killed.world.state.pendingGate.isSome ∧
      waits.world.state.currentStepIndex = 2 ∧ resumed.world.state.currentStepIndex = 2 ∧
      waits.world.state.routingSkips.get? "retry" = some "next:fetch" ∧
      resumed.world.state.routingSkips.get? "retry" = none ∧
      waits.world.state.iterations jumpsKey 0 = 1 ∧
      resumed.world.state.iterations jumpsKey 0 = 0 := by
  decide +kernel

end Cognis.WorkflowEngine
