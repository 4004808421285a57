import Cognis.WorkflowEngine.Moves

namespace Cognis.WorkflowEngine

open Option

variable {host : Host} {workflow : Workflow} {fresh : StepRun → Prop} {base w : World}
  {s : WorkflowState} {step : StepDefinition} {route : Nat → World → Prop}

/-- The records an iteration at `step` leaves; `route` is what a move to an index
leaves besides. -/
def VisitPost (workflow : Workflow) (fresh : StepRun → Prop) (base : World)
    (step : StepDefinition) (route : Nat → World → Prop) (how : VisitEnd) (v : World) : Prop :=
  match how with
  | .retried | .deferred | .paused | .interrupted => Held fresh base v
  | .skipped | .passedOver => Placed fresh base [step.name] (base.state.currentStepIndex + 1) v
  | .approved | .looped | .revised | .continued | .advanced =>
    ∃ index, Placed fresh base [] index v ∧ route index v
  | .completed => Closed workflow fresh base .completed v
  | .failed => v.taskStatus = .failed ∨ Closed workflow fresh base .failed v
  | .cancelled => v.taskStatus = .cancelled ∨ Closed workflow fresh base .cancelled v
  | .raised | .stopped => v.taskStatus.terminal = true
  | .finished => False

/-- The records while an iteration lasts; a failure may already be committed. -/
structure Underway (fresh : StepRun → Prop) (base w : World) : Prop where
  state : Shifted base.state [] base.state.currentStepIndex w.state
  arrivals : w.arrivals = base.arrivals
  rows : RowsKept fresh base.rows w.rows
  active : w.taskStatus.terminal = false

theorem Held.underway (h : Held fresh base w) : Underway fresh base w :=
  ⟨h.state.toShifted, by rw [h.arrivals, if_pos rfl], h.rows, h.active⟩

theorem fail_post (h : Held fresh base w) :
    Ensures (Holding fresh base) (fail s) (VisitPost workflow fresh base step route) w := by
  unfold fail finishWorkflow
  dsimp only
  rw [if_neg (by decide), if_pos (.inl rfl), ensures_bind, ensures_persist]
  exact ⟨h, .inl rfl⟩

theorem cancel_post (h : Held fresh base w) :
    Ensures (Holding fresh base) (cancel s) (VisitPost workflow fresh base step route) w := by
  unfold cancel finishWorkflow
  rw [if_pos rfl, ensures_bind, ensures_persist]
  exact ⟨h, .inl rfl⟩

theorem raise_post (hf : Freshness fresh) (raised : Raised) (h : Held fresh base w)
    (hs : Kept base.state s) :
    Ensures (Holding fresh base) (raise s raised) (VisitPost workflow fresh base step route) w := by
  have hexception : Ensures (Holding fresh base) (raise s .exception)
      (VisitPost workflow fresh base step route) w := by
    unfold raise
    rw [ensures_bind, ensures_commit, ensures_bind, ensures_persist]
    exact ⟨h, h.withRows (h.rows.failRunning hf.stamped w.arrivals .failed), rfl⟩
  cases raised with
  | transient | exception => exact hexception
  | interrupted cancelled =>
    cases cancelled with
    | true =>
      unfold raise
      rw [ensures_bind, ensures_persist]
      exact ⟨h, rfl⟩
    | false =>
      unfold raise
      rw [ensures_bind, ensures_persist]
      exact ⟨h, h.persist (hs.congr rfl rfl rfl fun _ => WorkflowState.live_of_paused rfl) rfl⟩

theorem deferTransient_post (h : Held fresh base w) (hs : Kept base.state s) :
    Ensures (Holding fresh base) (deferTransient step s)
      (VisitPost workflow fresh base step route) w := by
  have hset := hs.setIterations_of_ne (n := s.iterations (transientKey step.name) 0 + 1)
    fun name => generationKey_ne_transientKey name step.name
  unfold deferTransient
  rw [ensures_bind, ensures_persist]
  exact ⟨h, h.persist (hset.congr rfl rfl rfl fun _ => WorkflowState.live_of_running rfl) rfl⟩

theorem ExhaustedEnd.visit {how : Exhausted} {v : World}
    (h : ExhaustedEnd workflow fresh base step how v) :
    VisitPost workflow fresh base step (fun _ _ => True) how.visitEnd v := by
  cases how with
  | skipped => exact h
  | continued => exact ⟨_, h, trivial⟩
  | cancelled => exact .inr h
  | revised =>
    obtain ⟨index, hplaced⟩ := h
    exact ⟨index, hplaced, trivial⟩

theorem conclude_post (hf : Freshness fresh) {r : WorkflowState × Except Raised Handled}
    (h : HandledPost workflow fresh base step r w) :
    Ensures (Holding fresh base) (conclude r.1 r.2)
      (VisitPost workflow fresh base step (fun _ _ => True)) w := by
  obtain ⟨u, result⟩ := r
  cases result with
  | error raised => exact raise_post hf raised h.1 h.2
  | ok handled =>
    cases handled with
    | unhandled => exact fail_post h.1
    | looped =>
      obtain ⟨index, hplaced⟩ := h
      exact ⟨index, hplaced, trivial⟩
    | retried | deferred => exact h
    | exhausted how => exact ExhaustedEnd.visit h

variable {row : StepRun} {u : StepRunUpdate} {info : RuntimeInfo} {id : Nat}

theorem Held.createUpdate (h : Held fresh base w) (hf : Freshness fresh)
    (hid : row.stepRunId = w.rows.length)
    (hfresh : fresh { row with startedAt := w.arrivals })
    (hu : ∀ info, u.runtimeInfo = some info → info.deterministicGeneration = row.generation) :
    Held fresh base (w.commit [.create row, .update w.rows.length u]) := by
  have hcreated := h.rows.create w.arrivals hid hfresh
  apply h.withRows
  apply hcreated.update hf.stamped w.arrivals
  intro info hinfo other hother
  rw [Write.applyTo, List.getElem?_concat_length] at hother
  rw [← some.inj hother]
  exact hu info hinfo

theorem owns_createUpdate (hinfo : info.deterministicGeneration = row.generation)
    (hu : ∀ other, u.runtimeInfo = some other →
      other.deterministicGeneration = info.deterministicGeneration) :
    Owns (w.commit [.create row, .update w.rows.length u]) w.rows.length info := by
  have hcreated : Owns (w.commit [.create row]) w.rows.length info := by
    intro other hother
    have hother' : (w.rows ++ [{ row with startedAt := w.arrivals }])[w.rows.length]? =
      some other := hother
    rw [List.getElem?_concat_length] at hother'
    rw [hinfo, ← some.inj hother']
    rfl
  exact hcreated.commit_update hu

theorem owns_latest (h : Held fresh base w) {name : String}
    (hrow : latestStepRun w.rows name = some row) : Owns w row.stepRunId row.runtimeInfo := by
  intro other hother
  rw [h.rows.latest hrow] at hother
  rw [← some.inj hother]
  rfl

theorem startRunStep_held (hf : Freshness fresh) (h : Held fresh base w) :
    Ensures (Holding fresh base) (startRunStep step s)
      (fun r v => Held fresh base v ∧ Owns v r.1 r.2) w := by
  unfold startRunStep
  rw [ensures_bind, ensures_latest]
  refine ⟨h, ?_⟩
  cases hrow : latestStepRun w.rows step.name with
  | none =>
    rw [ensures_bind, ensures_newStepRunId]
    refine ⟨h, ?_⟩
    rw [ensures_bind, ensures_commit]
    refine ⟨h, h.createUpdate hf rfl (hf.bare _ rfl) ?_, owns_createUpdate rfl ?_⟩
    · intro info hinfo
      rw [← some.inj hinfo]
      rfl
    · intro info hinfo
      rw [← some.inj hinfo]
  | some row =>
    have howns := owns_latest h hrow
    rw [ensures_bind, ensures_commit]
    refine ⟨h, h.update hf.stamped ?_, howns.commit_update ?_⟩
    · intro info hinfo
      rw [← some.inj hinfo]
      exact howns
    · intro info hinfo
      rw [← some.inj hinfo]

theorem Held.updateOwned (h : Held fresh base w) (hf : Freshness fresh) (howns : Owns w id info)
    (hu : u.runtimeInfo = none ∨ u.runtimeInfo = some info) :
    Held fresh base (w.commit [.update id u]) ∧ Owns (w.commit [.update id u]) id info := by
  have hinfo (other : RuntimeInfo) (ho : u.runtimeInfo = some other) : other = info := by
    rcases hu with hn | hs
    · rw [hn] at ho
      cases ho
    · exact some.inj (ho.symm.trans hs)
  refine ⟨h.update hf.stamped ?_, howns.commit_update ?_⟩
  · intro other ho
    rw [hinfo other ho]
    exact howns
  · intro other ho
    rw [hinfo other ho]

theorem Held.checkpoint (h : Held fresh base w) (hf : Freshness fresh) (howns : Owns w id info) :
    Held fresh base (w.commit [.update id { runtimeInfo := some info }]) ∧
      Owns (w.commit [.update id { runtimeInfo := some info }]) id info :=
  h.updateOwned hf howns (.inr rfl)

section

variable (hf : Freshness fresh)

include hf

theorem finishRunStep_held (h : Held fresh base w) (howns : Owns w id info) :
    Ensures (Holding fresh base) (finishRunStep workflow step id info)
      (fun _ v => Held fresh base v) w := by
  unfold finishRunStep
  rw [ensures_bind, ensures_runStep]
  refine ⟨h, ?_⟩
  intro reply
  cases reply with
  | interrupted | raised =>
    rw [ensures_bind, ensures_commit]
    exact ⟨h, (h.updateOwned hf howns (.inl rfl)).1⟩
  | finished =>
    rw [ensures_bind, ensures_commit]
    exact ⟨h, (h.updateOwned hf howns (.inr rfl)).1⟩

theorem executeRunStep_held (h : Held fresh base w) :
    Ensures (Holding fresh base) (executeRunStep workflow step s)
      (fun _ v => Held fresh base v) w := by
  unfold executeRunStep
  rw [ensures_bind, ensures_resolveAgents]
  refine ⟨h, ?_⟩
  intro resolved
  split
  · rw [ensures_bind]
    refine (startRunStep_held hf h).mono ?_
    rintro ⟨id, info⟩ v ⟨hv, howns⟩
    rw [ensures_bind, ensures_resolveRuntime]
    refine ⟨hv, ?_⟩
    intro runtime
    cases runtime with
    | transient | failed =>
      rw [ensures_bind, ensures_commit]
      exact ⟨hv, (hv.updateOwned hf howns (.inr rfl)).1⟩
    | ready =>
      rw [ensures_bind, ensures_commit]
      obtain ⟨hu, hou⟩ := hv.checkpoint hf howns
      refine ⟨hv, ?_⟩
      rw [ensures_bind]
      exact (finishRunStep_held hf hu hou).mono fun _ u hresult => hresult
  · exact h

theorem settleOutcome_post {r : WorkflowState × Except Raised Routed}
    (h : RoutedPost workflow fresh base step r w) : Ensures (Holding fresh base) (settleOutcome r)
      (VisitPost workflow fresh base step (fun _ _ => True)) w := by
  obtain ⟨u, result⟩ := r
  cases result with
  | error raised => exact raise_post hf raised h.1 h.2
  | ok outcome =>
    cases outcome with
    | failed => exact fail_post h.1
    | cancelled => exact cancel_post h.1
    | routed =>
      obtain ⟨index, hplaced⟩ := h
      exact ⟨index, hplaced, trivial⟩
    | exhausted how => exact ExhaustedEnd.visit h
    | «continue» =>
      unfold settleOutcome
      rw [ensures_bind, ensures_persist]
      have hnext := Moved.congr (h.2.clearNotes.goto (u.currentStepIndex + 1))
        (u := { clearNotes u with
          currentStepStatus := none
          pendingGate := none
          lastOperatorInstruction := none
          currentStepIndex := u.currentStepIndex + 1 }) rfl rfl rfl id
      exact ⟨h.1, _, h.1.persist hnext rfl, trivial⟩

theorem approveStep_post (output : StepOutput) (h : Held fresh base w) (hs : Kept base.state s) :
    Ensures (Holding fresh base) (approveStep host workflow step output s)
      (VisitPost workflow fresh base step (fun _ _ => True)) w := by
  have hout : Kept base.state { s with stepOutputs := s.stepOutputs.set step.name output } :=
    hs.congr rfl rfl rfl id
  unfold approveStep
  rw [ensures_bind]
  exact (handleStepOutcome_post hf output h hout).mono fun r v hv => settleOutcome_post hf hv

theorem retryRejected_post (evaluation : StepEvaluation) (h : Held fresh base w)
    (hs : Kept base.state s) :
    Ensures (Holding fresh base) (retryRejected host workflow step evaluation s)
      (VisitPost workflow fresh base step (fun _ _ => True)) w := by
  unfold retryRejected
  rw [ensures_bind]
  exact (handleStepRetry_post hf (some evaluation) none h hs).mono fun r _ hr => conclude_post hf hr

theorem rejectStep_post (evaluation : StepEvaluation) (h : Held fresh base w)
    (hs : Kept base.state s) :
    Ensures (Holding fresh base) (rejectStep host workflow step s evaluation)
      (VisitPost workflow fresh base step (fun _ _ => True)) w := by
  have hnote : Kept base.state
      { s with lastEvaluationFeedback := some evaluation.feedbackText } := hs.congr rfl rfl rfl id
  unfold rejectStep
  split
  · exact retryRejected_post hf evaluation h hnote
  · rw [ensures_bind]
    refine (handleReviewLoop_post hf _ h hnote).mono ?_
    rintro ⟨u, result⟩ v hv
    unfold settleReview
    split
    · rename_i heq
      cases heq
      exact retryRejected_post hf evaluation hv.1 hv.2
    · rename_i heq
      cases heq
      exact conclude_post hf hv

theorem judgeStep_post (output : StepOutput) (id : Nat) (h : Held fresh base w)
    (hs : Kept base.state s) :
    Ensures (Holding fresh base) (judgeStep host workflow step output s id)
      (VisitPost workflow fresh base step (fun _ _ => True)) w := by
  unfold judgeStep
  rw [ensures_bind, ensures_evaluateStep]
  refine ⟨h, ?_⟩
  intro evaluation
  rw [ensures_bind, ensures_commit]
  refine ⟨h, ?_⟩
  have hv (status : StepRunStatus) : Held fresh base (w.commit
      [.update id { status := some status, evaluation := some (some evaluation) }]) := by
    apply h.update hf.stamped
    intro info hinfo
    cases hinfo
  split
  · exact approveStep_post hf output (hv _) hs
  · exact rejectStep_post hf evaluation (hv _) hs
  · split
    · exact fail_post (hv _)
    · rw [ensures_bind]
      exact (handleExhausted_post hf _ _ (hv _) hs).mono fun r v hr => conclude_post hf hr.handled

theorem visitRun_post (h : Held fresh base w) (hs : Kept base.state s) :
    Ensures (Holding fresh base) (visitRun host workflow step s)
      (VisitPost workflow fresh base step (fun _ _ => True)) w := by
  unfold visitRun
  split
  · rw [ensures_bind, ensures_persist]
    refine ⟨h, h.persist ⟨⟨?_, ?_, hs.generation⟩, hs.live⟩ rfl⟩
    · rw [hs.index]
    · rw [hs.skipped, List.append_nil]
  · rw [ensures_bind]
    refine (executeRunStep_held hf h).mono ?_
    intro result v hv
    have hretry (failure : Option StepOutput) : Ensures (Holding fresh base)
          (handleStepRetry host workflow step s none failure >>= fun r => conclude r.1 r.2)
          (VisitPost workflow fresh base step (fun _ _ => True)) v := by
      rw [ensures_bind]
      exact (handleStepRetry_post hf none failure hv hs).mono fun r _ hr => conclude_post hf hr
    have hpopped : Kept base.state
        { s.popIterations (recoveryKey step.name) with resumeFailedStep := false } :=
      Moved.congr (hs.popIterations fun name => generationKey_ne_recoveryKey name step.name)
        rfl rfl rfl id
    cases result with
    | error raised =>
      cases raised with
      | transient => exact deferTransient_post hv hs
      | interrupted | exception => exact raise_post hf _ hv hs
    | ok result =>
      obtain ⟨output, id⟩ := result
      cases output with
      | none => exact hretry none
      | some output =>
        dsimp only
        split
        · exact hretry (some output)
        · split
          · exact judgeStep_post hf output id hv hpopped
          · exact approveStep_post hf output hv hpopped

theorem visitGate_post (config : Option GateConfig) (h : Held fresh base w)
    (hs : Kept base.state s) : Ensures (Holding fresh base) (visitGate host workflow step config s)
      (VisitPost workflow fresh base step (fun _ _ => True)) w := by
  unfold visitGate
  rw [ensures_bind]
  refine (handleGateStep_held hf _ _ h hs).mono ?_
  rintro ⟨u, result⟩ v ⟨hv, hu⟩
  have hnext : Ensures (Holding fresh base) (do
        persist { u with currentStepIndex := u.currentStepIndex + 1 } .running
        return VisitEnd.advanced)
      (VisitPost workflow fresh base step (fun _ _ => True)) v := by
    rw [ensures_bind, ensures_persist]
    exact ⟨hv, _, hv.persist (hu.goto _) rfl, trivial⟩
  cases result with
  | error raised => exact raise_post hf raised hv hu
  | ok decision =>
    cases decision with
    | cancel => exact cancel_post hv
    | fail => exact fail_post hv
    | revise target =>
      dsimp only
      split
      · exact fail_post hv
      · rename_i index _
        rw [ensures_bind, ensures_persist]
        refine ⟨hv, index, hv.persist ?_ rfl, trivial⟩
        split
        · refine Kept.reviseTo ?_ target index
          exact Moved.congr hu rfl rfl rfl id
        · exact hu.reviseTo target index
    | «continue» | gate | other => exact hnext

end

end Cognis.WorkflowEngine
