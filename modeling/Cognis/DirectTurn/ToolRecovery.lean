import Cognis.DirectTurn.Quiet
import Cognis.DirectTurn.Runtime

namespace Cognis.DirectTurn

open Coordination JsonValue List Option Runs

variable (row : DirectTurnRequestRow) (f : ExecutionFence) (outcome : Members) (lease : Lease)

variable {o : Members} {k : String} {call : Call} {handled : List (String × Lease)} {stage : Stage}

/-- An exit that returns its request to the queue finds no recorded group on it
and writes none. -/
def Call.ExitsIdle (r : DirectTurnRequestRow) : Call → Prop
  | .markRecoverable _ _ outcome => Quiet r.outcomeDict ∧ Quiet (outcome.getD [])
  | .settleTransientFailure _ _ outcome _ => Quiet r.outcomeDict ∧ Quiet outcome
  | _ => True

/-- The step does not return in-flight work to the queue behind the journal's
back: an execution exits idle, and stale recovery requeues a request whose
outcome is still the one it listed. -/
structure RequeuesIdle (c : Codec) (rt : Runtime) (e : RuntimeEvent) : Prop where
  exits : ∀ call, rt.call e.action = some call → ∀ r ∈ rt.db.requests,
    (call.values c (rt.db.wait e.elapsed) r).isSome = true → call.ExitsIdle r
  listed : ∀ index choice a row lease call, e.action = .advance index choice →
    rt.activities[index]? = some a → a.stage = .acquired row lease →
    rt.call e.action = some call → call.requeues.isSome = true → ∀ r ∈ rt.db.requests,
    (call.values c (rt.db.wait e.elapsed) r).isSome = true → r.outcome = row.outcome

def StageSound (handled : List (String × Lease)) : Stage → Prop
  | .toolsRecovered row lease _ => (row.requestId, lease) ∈ handled
  | .toolsCleared row lease checkpointed =>
    (row.requestId, lease) ∈ handled ∧ Quiet checkpointed
  | _ => True

structure RuntimeSound (rt : Runtime) : Prop where
  tidy : Tidy rt.db
  stages : ∀ a ∈ rt.activities, StageSound rt.handled a.stage

section

theorem quiet_of_keys (h : "tool_dispatch_groups" ∉ o.map Prod.fst)
    (h' : "tool_calls" ∉ o.map Prod.fst) : Quiet o :=
  quiet_of_absent (get?_eq_none_iff.mpr h) (get?_eq_none_iff.mpr h')

theorem textEntry_keys (key : String) (h : k ∈ (textEntry outcome key).map Prod.fst) : k = key := by
  unfold textEntry at h
  split at h
  · simpa using h
  · cases h

theorem appendMetadata_keys (hk : k = "tool_dispatch_groups" ∨ k = "tool_calls") :
    k ∉ (appendMetadata outcome).map Prod.fst := by
  intro h
  obtain ⟨p, hp, rfl⟩ := mem_map.mp h
  have hkey : p.1 = "user_append_phase" ∨ p.1 = "user_append_session_id" ∨ p.1 = "session_id" := by
    simpa using (mem_filter.mp hp).2
  rcases hk with heq | heq <;> exact absurd (heq ▸ hkey) (by decide)

theorem quiet_append_appendMetadata
    (h : "tool_dispatch_groups" ∉ o.map Prod.fst) (h' : "tool_calls" ∉ o.map Prod.fst) :
    Quiet (o ++ appendMetadata outcome) := by
  apply quiet_of_keys
  · rw [map_append, mem_append, not_or]
    exact ⟨h, appendMetadata_keys outcome (.inl rfl)⟩
  · rw [map_append, mem_append, not_or]
    exact ⟨h', appendMetadata_keys outcome (.inr rfl)⟩

theorem quiet_appendOutcome (phase : String) (outcome : Members) :
    Quiet ([("phase", .str phase), ("user_append_phase", .str phase)] ++
      textEntry outcome "session_id") := by
  apply quiet_of_keys
  all_goals
    rw [map_append, mem_append]
    rintro (hk | hk)
    · simp at hk
    · exact absurd (textEntry_keys _ _ hk) (by decide)

theorem recoverAppend_tidy (phase : String) : (recoverAppend row lease phase).Tidy := by
  unfold recoverAppend
  simp only
  split
  · exact quiet_appendOutcome _ _
  · exact quiet_appendOutcome _ _
  · trivial

theorem staleCanonicalAppend_tidy
    (found : Option Bool) : (staleCanonicalAppend row lease found).Tidy := by
  unfold staleCanonicalAppend
  split
  · trivial
  · split
    · split <;> trivial
    · exact recoverAppend_tidy _ _ _

theorem staleIntarisAppend_tidy {row : DirectTurnRequestRow} {lease : Lease}
    {found : Option Bool} (h : staleIntarisAppend row lease found = some call) :
    call.Tidy := by
  unfold staleIntarisAppend at h
  simp only at h
  split at h
  · cases h
    trivial
  · split at h
    · cases h
      trivial
    · split at h
      · split at h
        · cases h
          trivial
        · split at h
          · cases h
            trivial
          · cases h
            exact quiet_of_absent rfl rfl
      · cases h
        trivial
      · cases h

theorem staleBoundary_tidy : (staleBoundary row lease).Tidy := by
  unfold staleBoundary
  split
  · trivial
  · split
    · exact quiet_append_appendMetadata _ (by simp) (by simp)
    · trivial

theorem staleCall_tidy (found : Option Bool) : (staleCall row lease found).Tidy := by
  unfold staleCall
  simp only
  split
  · exact recoverAppend_tidy _ _ _
  · split
    · exact staleCanonicalAppend_tidy _ _ _
    · split
      · exact quiet_append_appendMetadata (o := [_]) _ (by simp) (by simp)
      · split
        · cases h : staleIntarisAppend row lease found with
          | none => exact staleBoundary_tidy _ _
          | some => exact staleIntarisAppend_tidy h
        · split
          · split <;> trivial
          · exact staleBoundary_tidy _ _

theorem quiet_recoveredOutcome (h : Quiet o) : Quiet (recoveredOutcome o) := by
  have hget (key : String) (hkey : key ∉ ["phase", "user_append_phase", "interruption_reason",
      "tool_recovery_result_persisted"]) : get? (recoveredOutcome o) key = get? o key :=
    get?_update_of_notMem _ (by simpa using hkey)
  constructor
  · intro fallbackSession fallbackTurn
    rw [readToolDispatchGroups, hget _ (by decide), hget _ (by decide), hget _ (by decide),
      hget _ (by decide)]
    exact h.read fallbackSession fallbackTurn
  · rw [unreadableToolDispatchGroups, hget _ (by decide)]
    exact h.unreadable

theorem toolDispatchMetadata_keys (h : k ∈ f.toolDispatchMetadata.map Prod.fst) :
    k = "user_append_phase" ∨ k = "user_append_session_id" := by
  simp only [ExecutionFence.toolDispatchMetadata, map_append, mem_append, List.mem_map,
    mem_toList, map_eq_some_iff] at h
  rcases h with ⟨p, ⟨phase, -, rfl⟩, rfl⟩ | ⟨p, ⟨session, -, rfl⟩, rfl⟩
  · exact .inl rfl
  · exact .inr rfl

theorem fenceCall_tidy (op : FenceCall) (h : op.call f = some call) : call.Tidy := by
  have hphase : "phase" ∉ f.toolDispatchMetadata.map Prod.fst := by
    intro hk
    exact absurd (toolDispatchMetadata_keys f hk) (by decide)
  cases op with
  | setUserAppendState => cases h
  | checkpoint | bindToolDispatch =>
    cases h
    trivial
  | recordToolDispatch =>
    cases h
    change "phase" ∉ _
    rw [map_append, mem_append, not_or]
    exact ⟨hphase, by simp⟩
  | completeToolDispatch =>
    cases h
    exact hphase

end

section

variable {c : Codec} {rt : Runtime} {e : RuntimeEvent}

/-- What an activity's call is, as far as the queue is concerned: a tidy call
that requeues nothing, an exit of an execution, a stale recovery of the listed
row past its in-flight branch, or the end of a tool recovery. -/
inductive StageCall (handled : List (String × Lease)) (stage : Stage) : Call → Prop
  | other (call : Call) (htidy : call.Tidy) (hkeeps : call.requeues = none) :
      StageCall handled stage call
  | exit (call : Call) (htidy : ∀ r, call.ExitsIdle r → call.Tidy ∧
      (call.requeues.isSome = true → Quiet r.outcomeDict)) : StageCall handled stage call
  | stale (row : DirectTurnRequestRow) (lease : Lease) (found : Option Bool)
      (hstage : stage = .acquired row lease)
      (hphase : phaseText row.outcomeDict ≠ toolInFlightPhase) :
      StageCall handled stage (staleCall row lease found)
  | finish (row : DirectTurnRequestRow) (lease : Lease) (checkpointed : Members)
      (hstage : stage = .toolsCleared row lease checkpointed) :
      StageCall handled stage
        (.finishToolRecovery row.requestId lease (recoveredOutcome checkpointed))

theorem exit_markRecoverable (requestId : String) (lease : Lease) (outcome : Option Members) :
    StageCall handled stage (.markRecoverable requestId lease outcome) :=
  .exit _ (fun _ h => ⟨h.2, fun _ => h.1⟩)

theorem exit_settleTransientFailure
    (requestId : String) (lease : Lease) (outcome : Members) (retryAfter : Option Int) :
    StageCall handled stage (.settleTransientFailure requestId lease outcome retryAfter) :=
  .exit _ (fun _ h => ⟨h.2, fun _ => h.1⟩)

theorem byCallback_stageCall
    (h : call.byCallback) : StageCall handled stage call := by
  cases call with
  | markRecoverable => exact exit_markRecoverable _ _ _
  | settleTransientFailure =>
    exact exit_settleTransientFailure _ _ _ _
  | markRunning _ _ | markTerminal _ _ _ _ | beginAbsorb _ _ _ _ _ _ | markAbsorbed _ _
  | admitRequest | handoff | checkpoint => exact .other _ trivial rfl
  | _ => cases h

theorem external_stageCall
    (h : call.external) : StageCall handled stage call := by
  cases call with
  | settleTransientFailure =>
    exact exit_settleTransientFailure _ _ _ _
  | admitRequest _ | edit _ _ _ _ | handoff _ _ | cancelConversation _ _ _ | requestCancel _
  | expediteProviderRetry _ _ _ | completeFailureVisibility _ | resolveStaleToolAmbiguous _
  | leaseCall _ => exact .other _ trivial rfl
  | _ => cases h

theorem fenceCall_requeues (op : FenceCall) (h : op.call f = some call) : call.requeues = none := by
  cases op with
  | setUserAppendState => cases h
  | _ =>
    cases h
    rfl

theorem stage_call {controllerId incarnationId : String} {choice : Choice}
    (handled : List (String × Lease))
    (h : stage.call controllerId incarnationId choice = some call) :
    StageCall handled stage call := by
  cases stage with
  | acquired row lease =>
    simp only [Stage.call] at h
    split at h
    · cases h
      exact .other _ trivial rfl
    · split at h
      · cases h
        exact .other _ trivial rfl
      · rename_i hphase
        cases choice with
        | reconciled found =>
          cases h
          exact .stale row lease found rfl hphase
        | _ => cases h
  | toolsCleared row lease checkpointed =>
    cases choice with
    | proceed =>
      cases h
      exact .finish row lease checkpointed rfl
    | _ => cases h
  | executing row fence =>
    cases choice with
    | fence op =>
      exact .other _ (fenceCall_tidy fence op h) (fenceCall_requeues fence op h)
    | store =>
      simp only [Stage.call] at h
      split at h
      · rename_i hcallback
        cases h
        exact byCallback_stageCall hcallback
      · cases h
    | _ => cases h
  | starting =>
    cases choice with
    | proceed => exact .other _ (fenceCall_tidy _ _ h) (fenceCall_requeues _ _ h)
    | _ => cases h
  | busyRead =>
    cases choice with
    | proceed =>
      cases h
      exact exit_markRecoverable _ _ _
    | _ => cases h
  | raisedRead =>
    cases choice with
    | proceed =>
      cases h
      unfold raisedCall
      split
      · exact .other _ trivial rfl
      · exact exit_markRecoverable _ _ _
    | _ => cases h
  | listed row | toolsRecovered row lease recoveryRow | recoveryFailed row lease ambiguous error
  | permanentFailure | cancelled | releasing =>
    cases choice with
    | proceed =>
      cases h
      exact .other _ trivial rfl
    | _ => cases h
  | recoveringTools | busy | raised =>
    cases choice <;> cases h

theorem action_call (h : rt.call e.action = some call) :
    (∃ stage, (∀ row lease, stage ≠ .acquired row lease) ∧
      (∀ row lease o, stage ≠ .toolsCleared row lease o) ∧ StageCall rt.handled stage call) ∨
    ∃ index choice a, e.action = .advance index choice ∧ rt.activities[index]? = some a ∧
      StageCall rt.handled a.stage call := by
  cases haction : e.action with
  | external =>
    rw [haction, Runtime.call] at h
    split at h
    · rename_i hexternal
      cases h
      exact .inl ⟨.releasing ⟨"", "", 0, 0⟩, by simp, by simp, external_stageCall hexternal⟩
    · cases h
  | list | crash =>
    rw [haction] at h
    cases h
  | claim controllerId incarnationId requestId lease =>
    rw [haction] at h
    cases h
    exact .inl ⟨.releasing lease, by simp, by simp, .other _ trivial rfl⟩
  | advance index choice =>
    rw [haction, Runtime.call] at h
    obtain ⟨a, ha, hcall⟩ := bind_eq_some_iff.mp h
    exact .inr ⟨index, choice, a, rfl, ha, stage_call rt.handled hcall⟩

theorem action_tidy (hrt : RuntimeSound rt) (hidle : RequeuesIdle c rt e)
    (h : rt.call e.action = some call) :
    ∀ r ∈ (rt.db.wait e.elapsed).requests,
      (call.values c (rt.db.wait e.elapsed) r).isSome → call.Tidy := by
  intro r hr heffect
  have hexit := hidle.exits call h r hr heffect
  rcases action_call h with ⟨stage, hacq, hclr, hcall⟩ | ⟨index, choice, a, -, ha, hcall⟩
  · cases hcall with
    | other _ htidy => exact htidy
    | exit _ htidy => exact (htidy r hexit).1
    | stale row lease found hstage => exact absurd hstage (hacq row lease)
    | finish row lease o hstage => exact absurd hstage (hclr row lease o)
  · cases hcall with
    | other _ htidy => exact htidy
    | exit _ htidy => exact (htidy r hexit).1
    | stale row lease found => exact staleCall_tidy row lease found
    | finish row lease o hstage =>
      have hsound := hrt.stages a (mem_of_getElem? ha)
      rw [hstage] at hsound
      exact quiet_recoveredOutcome hsound.2

end

section

variable {c : Codec} {rt : Runtime} {e : RuntimeEvent}

theorem Tidy.wait {db : Database} (h : Tidy db) (elapsed : Nat) : Tidy (db.wait elapsed) := h

theorem after_tidy (hrt : RuntimeSound rt) (hidle : RequeuesIdle c rt e) :
    Tidy (Runtime.after c (rt.call e.action) (rt.db.wait e.elapsed)) := by
  cases hcall : rt.call e.action with
  | none => exact hrt.tidy.wait e.elapsed
  | some => exact (hrt.tidy.wait e.elapsed).perform (action_tidy hrt hidle hcall)

theorem StageSound.mono {handled' : List (String × Lease)}
    (h : StageSound handled stage) (hsub : ∀ x ∈ handled, x ∈ handled') :
    StageSound handled' stage := by
  cases stage with
  | toolsRecovered => exact hsub _ h
  | toolsCleared => exact ⟨hsub _ h.1, h.2⟩
  | _ => trivial

theorem stageSound_next {stage' : Stage} {choice : Choice}
    {current updated : Option DirectTurnRequestRow} {leased : Option Lease}
    (h : StageSound handled stage)
    (hclear : ∀ row lease recoveryRow r, stage = .toolsRecovered row lease recoveryRow →
      choice = .proceed → updated = some r → Quiet r.outcomeDict)
    (hnext : stage.next current updated leased choice = some stage') :
    StageSound (stage.handled choice ++ handled) stage' := by
  have hkeep {s : Stage} (hs : StageSound handled s) :
      StageSound (stage.handled choice ++ handled) s :=
    hs.mono (fun x hx => mem_append_right _ hx)
  cases stage with
  | toolsRecovered row lease recoveryRow =>
    cases choice with
    | proceed =>
      cases hnext
      cases hupdated : updated with
      | none => trivial
      | some r =>
        exact ⟨mem_append_right _ h, hclear row lease recoveryRow r rfl rfl hupdated⟩
    | _ =>
      cases hnext
      exact hkeep h
  | recoveringTools =>
    cases choice with
    | proceed =>
      cases hnext
      exact mem_append_left _ mem_cons_self
    | _ =>
      cases hnext
      trivial
  | toolsCleared =>
    cases choice with
    | proceed =>
      cases hnext
      trivial
    | _ =>
      cases hnext
      exact hkeep h
  | acquired =>
    simp only [Stage.next] at hnext
    split at hnext
    · cases hnext
      trivial
    · split at hnext
      · cases hnext
        cases updated <;> trivial
      · split at hnext
        all_goals
          cases hnext
          trivial
  | starting =>
    cases choice with
    | proceed =>
      simp only [Stage.next] at hnext
      split at hnext
      · cases hnext
        trivial
      · split at hnext
        all_goals
          cases hnext
          trivial
    | _ =>
      cases hnext
      trivial
  | listed row =>
    cases choice with
    | proceed =>
      obtain ⟨lease, -, rfl⟩ := map_eq_some_iff.mp hnext
      trivial
    | _ =>
      cases hnext
      trivial
  | releasing =>
    cases choice with
    | proceed => cases hnext
    | _ =>
      cases hnext
      trivial
  | recoveryFailed row lease ambiguous error | executing row fence | busy row lease reason
  | busyRead row lease reason current' | raised row lease | raisedRead row lease current'
  | permanentFailure | cancelled =>
    cases choice <;>
      (cases hnext
       trivial)

theorem updated_cleared_quiet {db : Database} {row recoveryRow r : DirectTurnRequestRow}
    {lease : Lease} {requestId : String}
    (h : Runtime.updated c (some (clearedCheckpoint row lease recoveryRow)) db requestId = some r) :
    Quiet r.outcomeDict := by
  unfold Runtime.updated at h
  split at h
  · rename_i call r' hcall _
    cases hcall
    obtain ⟨v, hv, rfl⟩ := map_eq_some_iff.mp h
    simp only [clearedCheckpoint, Call.values, checkpoint] at hv
    obtain ⟨o, ho, rfl, -⟩ := outcomeUpdate_eq_some hv
    exact checkpointOutcome_clear ho
  · cases h

theorem RuntimeSound.step (hrt : RuntimeSound rt) (hidle : RequeuesIdle c rt e) :
    RuntimeSound (rt.step c e) := by
  have htidy := after_tidy hrt hidle
  have hsame : RuntimeSound { rt with
      db := Runtime.after c (rt.call e.action) (rt.db.wait e.elapsed) } := ⟨htidy, hrt.stages⟩
  have hadd (controllerId incarnationId : String) {stage : Stage}
      (hstage : StageSound rt.handled stage) : RuntimeSound { rt with
        db := Runtime.after c (rt.call e.action) (rt.db.wait e.elapsed)
        activities := rt.activities ++ [⟨controllerId, incarnationId, stage⟩] } := by
    refine ⟨htidy, ?_⟩
    intro a ha
    rcases mem_append.mp ha with hold | hnew
    · exact hrt.stages a hold
    · rw [mem_singleton.mp hnew]
      exact hstage
  unfold Runtime.step
  simp only
  cases haction : e.action with
  | external =>
    rw [haction] at hsame
    exact hsame
  | list =>
    rw [haction] at hsame hadd
    simp only
    split
    · split
      · exact hadd _ _ trivial
      · exact hsame
    · exact hsame
  | claim =>
    rw [haction] at hsame hadd
    simp only
    split
    · exact hadd _ _ trivial
    · exact hsame
  | advance =>
    rw [haction] at hsame htidy
    simp only
    split
    · exact hsame
    · rename_i a ha
      have hsound := hrt.stages a (mem_of_getElem? ha)
      split
      · rename_i stage hnext
        refine ⟨htidy, ?_⟩
        have hstage := stageSound_next hsound ?_ hnext
        · intro b hb
          rcases mem_or_eq_of_mem_set hb with hold | rfl
          · exact (hrt.stages b hold).mono (fun x hx => mem_append_right _ hx)
          · exact hstage
        · intro row lease recoveryRow r hs hproceed hupdated
          subst hproceed
          rw [Runtime.call, ha] at hupdated
          simp only [bind_some, hs, Stage.call] at hupdated
          exact updated_cleared_quiet hupdated
      · refine ⟨htidy, ?_⟩
        intro b hb
        exact hrt.stages b (List.mem_of_mem_eraseIdx hb)
  | crash =>
    rw [haction] at htidy
    refine ⟨htidy, ?_⟩
    intro b hb
    exact hrt.stages b (List.mem_of_mem_eraseIdx hb)

end

end Cognis.DirectTurn
