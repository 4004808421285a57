import Cognis.WorkflowEngine.Visits

namespace Cognis.WorkflowEngine

variable {host : Host} {workflow : Workflow} {base w : World} {s : WorkflowState}
  {step : StepDefinition} {info : RuntimeInfo} {id : Nat}

def ofArrival (base : World) (step : StepDefinition) (row : StepRun) : Prop :=
  row.generation = none ∨
    (row.stepName = step.name ∧ row.generation = some (base.state.generation step.name) ∧
      row.startedAt = base.arrivals)

theorem freshness_ofArrival (base : World) (step : StepDefinition) :
    Freshness (ofArrival base step) where
  stamped row other hname hgen hstart h := by
    rcases h with hnone | ⟨hn, hg, ha⟩
    · exact .inl (hgen.trans hnone)
    · exact .inr ⟨hname.trans hn, hgen.trans hg, hstart.trans ha⟩
  bare _ h := .inl h

theorem skipEnding_generation (context : RenderContext) :
    (skipEnding host workflow step s info context).info.deterministicGeneration =
      info.deterministicGeneration := by
  unfold skipEnding
  dsimp only
  split
  · rfl
  · split <;> rfl

theorem conditionLoop_generation (step : StepDefinition) (config : ConditionStepConfig)
    (s : WorkflowState) (info : RuntimeInfo) (target : Option String) (next : Nat) :
    match conditionLoop step config s info target next with
    | .inl ending => ending.info.deterministicGeneration = info.deterministicGeneration
    | .inr other => other.deterministicGeneration = info.deterministicGeneration := by
  unfold conditionLoop
  cases target with
  | none => rfl
  | some target =>
    cases config.maxLoopIterations with
    | none => rfl
    | some maximum =>
      dsimp only
      by_cases hback : next ≤ s.currentStepIndex
      · rw [if_pos hback]
        by_cases hmax : maximum ≤ s.iterations (conditionLoopKey step.name target) 0
        · rw [if_pos hmax]
          rfl
        · rw [if_neg hmax]
      · rw [if_neg hback]

theorem conditionRevision_generation {config : ConditionStepConfig} {target : Option String}
    {next : Nat} {other : RuntimeInfo}
    (h : conditionRevision workflow config s info target next = .ok other) :
    other.deterministicGeneration = info.deterministicGeneration := by
  unfold conditionRevision at h
  split at h
  · split at h
    · split at h
      · split at h <;> cases h <;> rfl
      · cases h
    · cases h
      rfl
  · cases h
    rfl

theorem conditionEnding_generation (config : ConditionStepConfig) (context : RenderContext) :
    (conditionEnding host workflow step config s info context).info.deterministicGeneration =
      info.deterministicGeneration := by
  unfold conditionEnding
  split
  · rfl
  · dsimp only
    split
    · rfl
    · rename_i next _
      have hnoted := conditionLoop_generation step config s info
        (if ‹Bool› = true then config.then_ else config.else_) next
      split
      · rename_i ending hloop
        rw [hloop] at hnoted
        exact hnoted
      · rename_i noted hloop
        rw [hloop] at hnoted
        split
        · exact hnoted
        · rename_i revised hrevision
          have hrevised := (conditionRevision_generation hrevision).trans hnoted
          split
          · exact hrevised
          · exact hrevised

theorem completeEnding_generation (config : CompleteStepConfig) (context : RenderContext) :
    (completeEnding host step config info context).info.deterministicGeneration =
      info.deterministicGeneration := by
  unfold completeEnding
  dsimp only
  split <;> rfl

theorem toolEnding_generation (config : ToolCallStepConfig) (next : Option String)
    (context : RenderContext) (identity : String) (result : ToolResult) :
    (toolEnding host workflow step config next s info context identity
      result).info.deterministicGeneration = info.deterministicGeneration := by
  unfold toolEnding
  dsimp only
  split
  · rfl
  · split
    · rfl
    · split <;> rfl

variable {fresh : StepRun → Prop}

section

variable (hf : Freshness fresh)
include hf

theorem finalizeDeterministicStep_held (output : StepOutput)
    (status : StepRunStatus) (next : Option Nat) (workflowStatus : Option CompletionStatus)
    (errorAction : Option ErrorAction) (h : Held fresh base w) (howns : Owns w id info) :
    Ensures (Holding fresh base)
      (finalizeDeterministicStep id info output status next workflowStatus errorAction)
      (fun _ v => Held fresh base v) w := by
  have hfirst (other : RuntimeInfo)
      (ho : other.deterministicGeneration = info.deterministicGeneration) :
      Owns w id other := fun row hrow => ho.trans (howns row hrow)
  unfold finalizeDeterministicStep
  rw [ensures_bind, ensures_commit, ensures_bind, ensures_commit]
  obtain ⟨hv, hov⟩ := h.updateOwned hf (hfirst { info with
      deterministicSubstate := some .persisted
      terminalStatus := some status
      nextStepIndex := next.or info.nextStepIndex
      workflowStatus
      errorAction } rfl)
    (u := { output := some (some output)
            runtimeInfo := some { info with
                deterministicSubstate := some .persisted
                terminalStatus := some status
                nextStepIndex := next.or info.nextStepIndex
                workflowStatus
                errorAction } }) (.inr rfl)
  exact ⟨h, hv, (hv.updateOwned hf hov (u := { status := some status }) (.inl rfl)).1⟩

theorem settle_held (ending : Ending) (h : Held fresh base w)
    (howns : Owns w id info)
    (hinfo : ending.info.deterministicGeneration = info.deterministicGeneration) :
    Ensures (Holding fresh base) (settle step id ending) (fun _ v => Held fresh base v) w := by
  have howned (other : RuntimeInfo)
      (ho : other.deterministicGeneration = info.deterministicGeneration) :
      Owns w id other := fun row hrow => ho.trans (howns row hrow)
  cases ending with
  | finalize other output status next workflowStatus =>
    exact finalizeDeterministicStep_held hf output status next workflowStatus none h
      (howned other hinfo)
  | fail =>
    exact finalizeDeterministicStep_held hf _ _ none none _ h (howned _ hinfo)

theorem executeToolCallStep_held (config : ToolCallStepConfig)
    (next : Option String) (context : RenderContext) (h : Held fresh base w)
    (howns : Owns w id info) :
    Ensures (Holding fresh base)
      (executeToolCallStep host workflow step config next s id info context)
      (fun _ v => Held fresh base v) w := by
  have hsettle (v : World) (hv : Held fresh base v) (other : RuntimeInfo) (ending : Ending)
      (hov : Owns v id other)
      (hinfo : ending.info.deterministicGeneration = other.deterministicGeneration) :
      Ensures (Holding fresh base)
        (Except.ok (ε := Raised) <$> settle step id ending) (fun _ v => Held fresh base v) v := by
    rw [ensures_map]
    exact settle_held hf ending hv hov hinfo
  unfold executeToolCallStep
  split
  · exact hsettle w h info _ howns rfl
  · split
    · rw [ensures_bind, ensures_commit]
      obtain ⟨hv, hov⟩ := h.checkpoint hf howns
      refine ⟨h, ?_⟩
      rw [ensures_bind, ensures_toolDefinition]
      refine ⟨hv, ?_⟩
      intro lookup
      cases lookup with
      | transient => exact hv
      | raised => exact hsettle _ hv info _ hov rfl
      | found readOnly =>
        dsimp only
        split
        · exact hsettle _ hv info _ hov rfl
        · have hexecuting : Owns (w.commit [.update id { runtimeInfo := some info }]) id { info with
                toolReadOnly := some readOnly
                deterministicSubstate := some .executing } :=
            fun row hrow => hov row hrow
          rw [ensures_bind, ensures_commit]
          obtain ⟨hu, hou⟩ := hv.checkpoint hf hexecuting
          refine ⟨hv, ?_⟩
          rw [ensures_bind, ensures_dispatch]
          refine ⟨hu, ?_⟩
          intro reply
          have hd (call : ToolCall) := hu.dispatched call
          cases reply with
          | transient => exact hd _
          | timeout | raised error => exact hsettle _ (hd _) _ _ (fun row hrow => hou row hrow) rfl
          | result result =>
            exact hsettle _ (hd _) _ _ (fun row hrow => hou row hrow)
              (toolEnding_generation config next context _ result)
    · exact hsettle w h info _ howns rfl

theorem runDeterministicStep_held (h : Held fresh base w)
    (howns : Owns w id info) :
    Ensures (Holding fresh base) (runDeterministicStep host workflow step s id info)
      (fun _ v => Held fresh base v) w := by
  unfold runDeterministicStep
  extract_lets context body
  have hbody (v : World) (hv : Held fresh base v) (hov : Owns v id info) :
      Ensures (Holding fresh base) body (fun _ v => Held fresh base v) v := by
    unfold body
    split
    · rw [ensures_map]
      exact settle_held hf _ hv hov (conditionEnding_generation _ _)
    · rw [ensures_map]
      exact settle_held hf _ hv hov (completeEnding_generation _ _)
    · exact executeToolCallStep_held hf _ _ _ hv hov
    · exact hv
    · exact hv
  split
  · exact hbody w h howns
  · split
    · rw [ensures_map]
      exact settle_held hf _ h howns rfl
    · rw [ensures_bind, ensures_commit]
      obtain ⟨hv, hov⟩ := h.checkpoint hf howns
      refine ⟨h, ?_⟩
      split
      · exact hbody _ hv hov
      · rw [ensures_map]
        exact settle_held hf _ hv hov (skipEnding_generation _)

theorem recoverDeterministicStep_held {row : StepRun} (h : Held fresh base w)
    (howns : Owns w row.stepRunId row.runtimeInfo) :
    Ensures (Holding fresh base) (recoverDeterministicStep workflow step row)
      (fun result v => Held fresh base v ∧ (result = none → v = w)) w := by
  have hfail (error : String) : Ensures (Holding fresh base)
        (some <$> failDeterministicStep step row.stepRunId row.runtimeInfo error none none)
        (fun result v => Held fresh base v ∧ (result = none → v = w)) w := by
    rw [ensures_map]
    exact (finalizeDeterministicStep_held hf _ _ none none _ h howns).mono
      fun _ v hv => ⟨hv, fun hn => by cases hn⟩
  unfold recoverDeterministicStep
  dsimp only
  split
  · split
    · exact ⟨h, fun hn => by cases hn⟩
    · split
      · rw [ensures_bind, ensures_commit]
        exact ⟨h, (h.updateOwned hf howns (.inl rfl)).1, fun hn => by cases hn⟩
      · split
        · exact hfail _
        · exact ⟨h, fun _ => rfl⟩
  · split
    · exact hfail _
    · exact ⟨h, fun _ => rfl⟩

end

theorem executeDeterministicStep_held (h : Held (ofArrival base step) base w)
    (hgen : s.generation step.name = base.state.generation step.name) :
    Ensures (Holding (ofArrival base step) base) (executeDeterministicStep host workflow step s)
      (fun _ v => Held (ofArrival base step) base v) w := by
  have hf := freshness_ofArrival base step
  unfold executeDeterministicStep
  rw [ensures_bind, ensures_latest]
  refine ⟨h, ?_⟩
  split
  · rename_i row hrow
    have hlatest : latestStepRun w.rows step.name = some row :=
      (Option.filter_eq_some_iff.mp hrow).1
    have howns := owns_latest h hlatest
    rw [ensures_bind]
    refine (recoverDeterministicStep_held hf h howns).mono ?_
    intro result v ⟨hv, hsame⟩
    cases result with
    | some => exact hv
    | none =>
      obtain rfl := hsame rfl
      exact runDeterministicStep_held hf hv howns
  · rw [ensures_bind, ensures_newStepRunId]
    refine ⟨h, ?_⟩
    rw [ensures_bind, ensures_commit]
    refine ⟨h, ?_⟩
    have harr : w.arrivals = base.arrivals := by
      have ha := h.arrivals
      rwa [if_pos rfl] at ha
    have hinfo (u : StepRunUpdate) (info : RuntimeInfo) (hu : u.runtimeInfo = some info)
        (other : RuntimeInfo) (ho : u.runtimeInfo = some other) :
        other.deterministicGeneration = info.deterministicGeneration := by
      rw [hu] at ho
      rw [Option.some.inj ho]
    apply runDeterministicStep_held hf
    · apply h.createUpdate hf rfl
      · refine .inr ⟨rfl, ?_, harr⟩
        change some (s.generation step.name) = _
        rw [hgen]
      · exact hinfo _ _ rfl
    · exact owns_createUpdate rfl (hinfo _ _ rfl)

/-- A route back to `index` has raised the generation of every step from there on. -/
def RouteBack (workflow : Workflow) (base : World) (index : Nat) (v : World) : Prop :=
  ∀ (j : Nat) (other : StepDefinition), index ≤ j → j ≤ base.state.currentStepIndex →
    workflow.steps[j]? = some other →
    base.state.generation other.name < v.state.generation other.name

theorem generation_routeAgain (s : WorkflowState) (step : StepDefinition) (name : String) :
    s.generation name ≤ (routeAgain s step).generation name ∧
      (name = step.name → s.generation name < (routeAgain s step).generation name) := by
  have hset : (routeAgain s step).generation name =
      (s.setIterations (generationKey step.name) (s.generation step.name + 1)).generation name :=
    rfl
  rw [hset]
  constructor
  · exact WorkflowState.generation_le_setIterations (Nat.le_succ _) name
  · rintro rfl
    rw [WorkflowState.generation, WorkflowState.generation,
      WorkflowState.iterations_setIterations, if_pos rfl]
    exact Nat.lt_succ_self _

theorem foldl_routeAgain (steps : List StepDefinition) (s : WorkflowState) :
    (steps.foldl routeAgain s).currentStepIndex = s.currentStepIndex ∧
    (steps.foldl routeAgain s).skippedSteps = s.skippedSteps ∧
    (steps.foldl routeAgain s).status = s.status ∧
    (∀ name, s.generation name ≤ (steps.foldl routeAgain s).generation name) ∧
    ∀ step ∈ steps, s.generation step.name < (steps.foldl routeAgain s).generation step.name := by
  induction steps generalizing s with
  | nil => exact ⟨rfl, rfl, rfl, fun _ => Nat.le_refl _, fun _ h => by cases h⟩
  | cons first rest ih =>
    obtain ⟨hi, hk, hst, hle, hlt⟩ := ih (routeAgain s first)
    refine ⟨hi, hk, hst, ?_, ?_⟩
    · intro name
      exact (generation_routeAgain s first name).1.trans (hle name)
    · intro step hstep
      rcases List.mem_cons.mp hstep with rfl | hrest
      · exact Nat.lt_of_lt_of_le ((generation_routeAgain s step step.name).2 rfl) (hle _)
      · exact Nat.lt_of_le_of_lt (generation_routeAgain s first step.name).1 (hlt step hrest)

theorem foldl_routeOver (reason : String) (steps : List StepDefinition) (s : WorkflowState) :
    (steps.foldl (routeOver reason) s).currentStepIndex = s.currentStepIndex ∧
    (steps.foldl (routeOver reason) s).skippedSteps = s.skippedSteps ∧
    (steps.foldl (routeOver reason) s).status = s.status ∧
    (steps.foldl (routeOver reason) s).loopIterations = s.loopIterations := by
  induction steps generalizing s with
  | nil => exact ⟨rfl, rfl, rfl, rfl⟩
  | cons first _ ih => exact ih (routeOver reason s first)

variable {t : WorkflowState}

theorem announceRevision_kept (workflow : Workflow) (target : Nat)
    (h : Kept s t) : Kept s (announceRevision workflow t target) := by
  have hnote : Kept s { t with lastRetryReason := some .routedRevision } :=
    h.congr rfl rfl rfl id
  unfold announceRevision
  split
  · exact hnote
  · exact hnote.setIterations_of_ne fun name => generationKey_ne_attemptsKey name _

theorem applyDeterministicRoute_kept {source target : Nat} {reason : String}
    (h : applyDeterministicRoute workflow s source target reason = .ok t) :
    Kept s t ∧ (target ≤ source → ∀ (j : Nat) (other : StepDefinition), target ≤ j → j ≤ source →
      workflow.steps[j]? = some other → s.generation other.name < t.generation other.name) := by
  unfold applyDeterministicRoute at h
  split at h
  · cases h
    exact ⟨Kept.refl s, fun hback => by omega⟩
  · have hjumps : Kept s (s.setIterations jumpsKey (s.iterations jumpsKey 0 + 1)) :=
      (Kept.refl s).setIterations (Nat.le_succ _)
    dsimp only at h
    split at h
    · cases h
    · split at h
      · cases h
        obtain ⟨hi, hk, hst, hl⟩ := foldl_routeOver reason
          ((workflow.steps.take target).drop (source + 1))
          (s.setIterations jumpsKey (s.iterations jumpsKey 0 + 1))
        refine ⟨hjumps.congr hi hk hl ?_, fun hback => by omega⟩
        intro hlive
        rw [WorkflowState.Live, hst]
        exact hlive
      · cases h
        have hkept := announceRevision_kept workflow target hjumps
        obtain ⟨hi, hk, hst, hle, hlt⟩ := foldl_routeAgain
          ((workflow.steps.take (source + 1)).drop target)
          (announceRevision workflow (s.setIterations jumpsKey (s.iterations jumpsKey 0 + 1))
            target)
        refine ⟨⟨⟨hi.trans hkept.index, hk.trans hkept.skipped, ?_⟩, ?_⟩, ?_⟩
        · intro name
          exact (hkept.generation name).trans (hle name)
        · intro hlive
          rw [WorkflowState.Live, hst]
          exact hkept.live hlive
        · intro _ j other hj hjs hother
          refine Nat.lt_of_le_of_lt (hkept.generation other.name) (hlt other ?_)
          rw [List.mem_iff_getElem?]
          refine ⟨j - target, ?_⟩
          rw [List.getElem?_drop, List.getElem?_take, if_pos (by omega)]
          rw [show target + (j - target) = j by omega]
          exact hother

section

variable {fresh : StepRun → Prop}

theorem noteRoute_kept (h : Kept s t) (result : DeterministicResult) :
    Kept s (noteRoute t result) := by
  unfold noteRoute
  extract_lets counted
  have hloop : Kept s counted := by
    unfold counted
    split
    · exact h.setIterations_of_ne fun name => generationKey_ne_routeLoop name _
    · exact h
  split
  · exact hloop.congr rfl rfl rfl id
  · exact hloop

variable {route : Nat → World → Prop}

variable (hf : Freshness fresh)
include hf

theorem raiseException_post (h : Held fresh base w) :
    Ensures (Holding fresh base) (raise s .exception)
      (VisitPost workflow fresh base step route) w := by
  unfold raise
  rw [ensures_bind, ensures_commit, ensures_bind, ensures_persist]
  exact ⟨h, h.withRows (h.rows.failRunning hf.stamped w.arrivals .failed), rfl⟩

variable (result : DeterministicResult)
include result

theorem routeDeterministic_post
    (h : Held fresh base w) (hs : Kept base.state s) :
    Ensures (Holding fresh base) (routeDeterministic workflow step s result)
      (VisitPost workflow fresh base step (RouteBack workflow base)) w := by
  have hnoted := noteRoute_kept hs result
  unfold routeDeterministic
  dsimp only
  split
  · exact raiseException_post hf h
  · rename_i t hroute
    obtain ⟨hkept, hback⟩ := applyDeterministicRoute_kept hroute
    have hall : Kept base.state t :=
      ⟨⟨hkept.index.trans hnoted.index, hkept.skipped.trans
        ((List.append_nil _).trans hnoted.skipped),
        fun name => (hnoted.generation name).trans (hkept.generation name)⟩,
        fun hl => hkept.live (hnoted.live hl)⟩
    rw [ensures_bind, ensures_persist]
    refine ⟨h, _, h.persist (Moved.congr (hall.goto _) rfl rfl rfl id) rfl, ?_⟩
    intro j other hj hjb hother
    rw [← hs.index] at hjb
    refine Nat.lt_of_le_of_lt (hnoted.generation other.name)
      (hback (hj.trans hjb) j other hj hjb ?_)
    exact hother

theorem settleError_post
    (answer : Except Raised ErrorGate) (h : Held fresh base w) (hs : Kept base.state s) :
    Ensures (Holding fresh base) (settleError workflow step result (s, answer))
      (VisitPost workflow fresh base step (RouteBack workflow base)) w := by
  cases answer with
  | error raised => exact raise_post hf raised h hs
  | ok decision =>
    cases decision with
    | paused => exact h
    | cancel => exact cancel_post h
    | fail => exact fail_post h
    | «continue» => exact routeDeterministic_post hf result h hs

theorem followDeterministic_post
    (h : Held fresh base w) (hs : Kept base.state s) :
    Ensures (fun v _ => Underway fresh base v) (followDeterministic host workflow step s result)
      (VisitPost workflow fresh base step (RouteBack workflow base)) w := by
  have hroute (u : WorkflowState) (v : World) (hv : Held fresh base v) (hu : Kept base.state u) :
      Ensures (fun v _ => Underway fresh base v) (routeDeterministic workflow step u result)
        (VisitPost workflow fresh base step (RouteBack workflow base)) v :=
    (routeDeterministic_post hf result hv hu).mono_pre fun _ _ hh => hh.underway
  have hout : Kept base.state { s with stepOutputs := s.stepOutputs.set step.name result.output } :=
    hs.congr rfl rfl rfl id
  unfold followDeterministic
  split
  · rename_i status _
    rw [ensures_bind, ensures_persist]
    refine ⟨h.underway, ?_⟩
    have hclosed (final : WorkflowStatus) : Closed workflow fresh base final (w.persist { s with
          stepOutputs := s.stepOutputs.set step.name result.output
          status := final
          currentStepIndex := workflow.steps.length } .running) :=
      h.close ⟨rfl, hs.skipped, hs.generation⟩ rfl
    cases status with
    | completed => exact hclosed .completed
    | failed => exact .inr (hclosed .failed)
  · split
    · rw [ensures_bind, ensures_persist]
      exact ⟨h.underway, h.persist (hout.congr rfl rfl rfl
        fun _ => WorkflowState.live_of_paused rfl) rfl⟩
    · split
      · split
        · -- the failure is committed once with the state and once with the task
          rw [ensures_bind, ensures_persist]
          refine ⟨h.underway, ?_⟩
          unfold fail finishWorkflow
          dsimp only
          rw [if_neg (by decide), if_pos (.inl rfl), ensures_bind, ensures_persist]
          refine ⟨⟨⟨hs.index, hs.skipped, hs.generation⟩, ?_, h.rows, rfl⟩, .inl rfl⟩
          have harrivals := h.underway.arrivals
          have hindex : s.currentStepIndex = w.state.currentStepIndex :=
            hs.index.trans h.state.index.symm
          simp only [World.persist, hindex, harrivals, if_true]
        · refine Ensures.mono_pre (P := Holding fresh base) ?_ fun _ _ hh => hh.underway
          rw [ensures_bind]
          refine (pauseForDeterministicError_held hf _ h hout).mono ?_
          rintro ⟨u, answer⟩ v ⟨hv, hu⟩
          exact settleError_post hf result answer hv hu
        · exact hroute _ w h hout
        · exact hroute _ w h hout
      · exact hroute _ w h hout

end

theorem visitDeterministic_post (h : Held (ofArrival base step) base w) (hs : Kept base.state s)
    (hgen : s.generation step.name = base.state.generation step.name) :
    Ensures (fun v _ => Underway (ofArrival base step) base v)
      (visitDeterministic host workflow step s)
      (VisitPost workflow (ofArrival base step) base step (RouteBack workflow base)) w := by
  have hf := freshness_ofArrival base step
  unfold visitDeterministic
  rw [ensures_bind]
  refine ((executeDeterministicStep_held h hgen).mono_pre fun _ _ hh => hh.underway).mono ?_
  intro result v hv
  have hraise (raised : Raised) :
      Ensures (fun v _ => Underway (ofArrival base step) base v) (raise s raised)
        (VisitPost workflow (ofArrival base step) base step (RouteBack workflow base)) v :=
    (raise_post hf raised hv hs).mono_pre fun _ _ hh => hh.underway
  cases result with
  | ok result => exact followDeterministic_post hf result hv hs
  | error raised =>
    cases raised with
    | transient => exact (deferTransient_post hv hs).mono_pre fun _ _ hh => hh.underway
    | interrupted | exception => exact hraise _

section

variable {fresh : StepRun → Prop}

theorem stayPaused_post (h : Held fresh base w) (hs : Kept base.state s) :
    Ensures (Holding fresh base) (stayPaused s) (VisitPost workflow fresh base step route) w := by
  unfold stayPaused
  rw [ensures_bind, ensures_persist]
  exact ⟨h, h.persist (hs.congr rfl rfl rfl fun _ => WorkflowState.live_of_paused rfl) rfl⟩

variable (hf : Freshness fresh)
include hf

theorem resumeOutcome_post {r : WorkflowState × Except Raised Routed}
    (h : RoutedPost workflow fresh base step r w) (hdecides : r.2 ≠ .ok .«continue») :
    Ensures (Holding fresh base) (resumeOutcome r)
      (VisitPost workflow fresh base step (fun _ _ => True)) w := by
  have hsame : resumeOutcome r = settleOutcome r := by
    obtain ⟨u, result⟩ := r
    cases result with
    | error => rfl
    | ok outcome =>
      cases outcome with
      | «continue» => exact absurd rfl hdecides
      | _ => rfl
  exact hsame ▸ settleOutcome_post hf h

theorem resumeExhausted_post
    {r : WorkflowState × Except Raised (Option Exhausted)}
    (h : ExhaustedPost workflow fresh base step r w) :
    Ensures (Holding fresh base) (resumeExhausted r)
      (VisitPost workflow fresh base step (fun _ _ => True)) w := by
  obtain ⟨u, result⟩ := r
  cases result with
  | error raised => exact raise_post hf raised h.1 h.2
  | ok how =>
    cases how with
    | none => exact fail_post h.1
    | some how => exact ExhaustedEnd.visit h

theorem resumeError_post (payload : PausePayload)
    (answer : Except Raised ErrorGate) (h : Held fresh base w) (hs : Kept base.state s) :
    Ensures (Holding fresh base) (resumeError workflow step payload (s, answer))
      (VisitPost workflow fresh base step (fun _ _ => True)) w := by
  cases answer with
  | error raised => exact raise_post hf raised h hs
  | ok decision =>
    cases decision with
    | paused => exact stayPaused_post h hs
    | cancel => exact cancel_post h
    | fail => exact fail_post h
    | «continue» =>
      unfold resumeError
      dsimp only
      split
      · exact fail_post h
      · rw [ensures_bind, ensures_persist]
        exact ⟨h, _, h.persist (hs.goto _) rfl, trivial⟩

theorem resumeDerivedGate_post (payload : PausePayload)
    (h : Held fresh base w) (hs : Kept base.state s) :
    Ensures (Holding fresh base) (resumeDerivedGate host workflow step payload s)
      (VisitPost workflow fresh base step (fun _ _ => True)) w := by
  unfold resumeDerivedGate
  split
  · exact stayPaused_post h hs
  split
  · split
    · exact stayPaused_post h hs
    · dsimp only
      split
      · rename_i hgate
        rw [ensures_bind, handleStepOutcome_gate hgate]
        exact (handleOutcomeGate_post hf _ h hs).mono fun r v hv => resumeOutcome_post hf hv.1 hv.2
      · exact stayPaused_post h hs
  split
  · rw [ensures_bind]
    exact (handleExhausted_post hf _ _ h hs).mono fun r v hv => resumeExhausted_post hf hv
  split
  · rw [ensures_bind]
    refine (pauseForDeterministicError_held hf _ h hs).mono ?_
    rintro ⟨u, answer⟩ v ⟨hv, hu⟩
    exact resumeError_post hf payload answer hv hu
  · exact stayPaused_post h hs

end

end Cognis.WorkflowEngine
