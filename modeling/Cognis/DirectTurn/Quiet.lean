import Cognis.DirectTurn.DispatchFacts
import Cognis.DirectTurn.Exclusive

namespace Cognis.DirectTurn

open Coordination JsonValue Option

variable {now sessionId requestId : String} {metadata : Members} {turnId : Option String}
  {t : DirectTurnStatus} {lease : Lease}

/-- No dispatch group is recorded, readable or not, whatever a legacy list would
fall back to. -/
abbrev Quiet (o : Members) : Prop := Holds o []

def HasLiveGroup (r : DirectTurnRequestRow) : Prop :=
  readToolDispatchGroups r.outcomeDict r.sessionId (some r.turnId) ≠ [] ∨
    unreadableToolDispatchGroups r.outcomeDict ≠ []

instance (r : DirectTurnRequestRow) : Decidable (HasLiveGroup r) :=
  inferInstanceAs (Decidable (_ ∨ _))

theorem Holds.not_hasLiveGroup {r : DirectTurnRequestRow} (h : Quiet r.outcomeDict) :
    ¬ HasLiveGroup r := by
  rintro (hread | hraw)
  · exact hread (h.read _ _)
  · exact hraw h.unreadable

theorem quiet_of_absent {o : Members} (h : get? o "tool_dispatch_groups" = none)
    (h' : get? o "tool_calls" = none) : Quiet o := by
  constructor
  · intro fallbackSession fallbackTurn
    rw [readToolDispatchGroups, h, h']
  · rw [unreadableToolDispatchGroups, h]

theorem quiet_nil : Quiet [] := quiet_of_absent rfl rfl

section

variable {o o' : Members} {gs : List ToolDispatchGroup} {preserved : List JsonValue}

theorem writeToolDispatchGroups_get? (h : writeToolDispatchGroups o gs preserved = some o')
    {key : String} (h₁ : key ≠ "tool_dispatch_groups") (h₂ : key ≠ "tool_calls") :
    get? o' key = get? o key := by
  have herased : get? (eraseKeys o ["tool_dispatch_groups", "tool_calls"]) key = get? o key := by
    rw [get?_eraseKeys, if_neg (by simp [h₁, h₂])]
  obtain ⟨raws, -, ho⟩ := map_eq_some_iff.mp h
  by_cases hempty : raws ++ preserved = []
  · simp only [if_pos hempty] at ho
    rw [← ho, herased]
  · simp only [if_neg hempty] at ho
    rw [← ho, get?_insert_of_ne _ _ h₁, herased]

theorem quiet_of_write_nil (h : writeToolDispatchGroups o [] [] = some o') : Quiet o' := by
  have hnone : ∀ g ∈ ([] : List ToolDispatchGroup), g.Readable := by simp
  obtain ⟨o'', ho'', hholds, -⟩ := writeToolDispatchGroups_spec o hnone
  obtain rfl : o'' = o' := some.inj (ho''.symm.trans h)
  exact hholds

end

section

variable {r : DirectTurnRequestRow} {o : Members}

theorem checkpointOutcome_clear {phase : String}
    (h : checkpointOutcome r now phase metadata true = some o) : Quiet o := by
  exact quiet_of_write_nil h

theorem checkpointOutcome_quiet {phase : String} {clear : Bool}
    (h : checkpointOutcome r now phase metadata clear = some o) : Quiet o ∨ InFlight o := by
  cases clear with
  | true => exact .inl (checkpointOutcome_clear h)
  | false =>
    unfold checkpointOutcome at h
    simp only [Bool.false_eq_true, if_false] at h
    by_cases hempty : readToolDispatchGroups r.outcomeDict r.sessionId (some r.turnId) = [] ∧
        unreadableToolDispatchGroups r.outcomeDict = []
    · rw [if_pos hempty] at h
      exact .inl (quiet_of_write_nil h)
    · rw [if_neg hempty] at h
      right
      rw [InFlight, writeToolDispatchGroups_get? h (by decide) (by decide)]
      simp [update_cons, get?_insert]

theorem recordOutcome_inFlight {descriptors : List JsonValue}
    (hmeta : "phase" ∉ metadata.map Prod.fst)
    (h : recordOutcome r now sessionId turnId descriptors metadata = some o) : InFlight o := by
  rw [InFlight, writeToolDispatchGroups_get? h (by decide) (by decide)]
  exact phase_of_update hmeta

theorem completeOutcome_quiet {callIds : List String} (hmeta : "phase" ∉ metadata.map Prod.fst)
    (h : completeOutcome r now sessionId turnId callIds metadata = some o) :
    Quiet o ∨ InFlight o := by
  unfold completeOutcome at h
  simp only at h
  by_cases hempty : (readToolDispatchGroups r.outcomeDict r.sessionId (some r.turnId)).filter
      (fun g => g.key ≠ (sessionId, resolveDispatchTurnId turnId r)) = [] ∧
      unreadableToolDispatchGroups r.outcomeDict = []
  · rw [hempty.1, hempty.2] at h
    exact .inl (quiet_of_write_nil h)
  · right
    rw [InFlight, writeToolDispatchGroups_get? h (by decide) (by decide),
      get?_insert_of_ne _ _ (by decide), if_neg hempty]
    exact phase_of_update hmeta

theorem mergeOutcome_inFlight {b : DispatchBinding}
    (hr : Quiet r.outcomeDict ∨ InFlight r.outcomeDict)
    (h : mergeOutcome r sessionId turnId b = some o) : InFlight o := by
  unfold mergeOutcome at h
  simp only at h
  rcases hr with hquiet | hflight
  · rw [hquiet.read] at h
    cases h
  · split at h
    · cases h
    · split at h
      · rw [InFlight, writeToolDispatchGroups_get? h (by decide) (by decide)]
        exact hflight
      · cases h

end

/-- Waiting work records no group; active work records one only in the phase
that says so. -/
structure RowTidy (r : DirectTurnRequestRow) : Prop where
  waiting : r.status.Claimable → Quiet r.outcomeDict
  active : r.status.Active → Quiet r.outcomeDict ∨ InFlight r.outcomeDict

/-- The outcomes that return work to the queue record no group, and the
metadata of the journal's writers names no phase. -/
def Call.Tidy : Call → Prop
  | .recordToolDispatch _ _ _ _ _ metadata | .completeToolDispatch _ _ _ _ _ metadata =>
    "phase" ∉ metadata.map Prod.fst
  | .markRecoverable _ _ outcome | .recoverStaleClaim _ _ outcome => Quiet (outcome.getD [])
  | .settleTransientFailure _ _ outcome _ | .recoverStaleRunning _ _ outcome
  | .finishToolRecovery _ _ outcome => Quiet outcome
  | _ => True

section

variable {c : Codec} {db : Database} {call : Call} {r : DirectTurnRequestRow} {v : RowValues}

theorem rowTidy_of_terminal (h : r.status.Terminal) : RowTidy r := by
  have hnot := (DirectTurnStatus.terminal_iff_not_nonterminal r.status).mp h
  exact ⟨fun hidle => absurd (.inl hidle) hnot, fun hactive => absurd (.inr hactive) hnot⟩

theorem rowTidy_of_settled (ht : t.Terminal) (h : v.status = some t) :
    RowTidy (r.assign v) := by
  apply rowTidy_of_terminal
  rw [assign_status, h]
  exact ht

theorem rowTidy_of_quiet (h : Quiet r.outcomeDict) : RowTidy r := ⟨fun _ => h, fun _ => .inl h⟩

theorem outcomeDict_of_none (h : v.outcome = none) : (r.assign v).outcomeDict = r.outcomeDict := by
  rw [DirectTurnRequestRow.assign, h]
  rfl

theorem outcomeDict_of_obj {o : Members} (h : v.outcome = some (.obj o)) :
    (r.assign v).outcomeDict = o := by
  rw [DirectTurnRequestRow.assign, h]
  rfl

theorem outcomeDict_of_column {outcome : Option Members} (h : v.outcome = some (column outcome)) :
    (r.assign v).outcomeDict = outcome.getD [] := by
  rw [DirectTurnRequestRow.assign, h]
  cases outcome <;> rfl

theorem RowTidy.of_outcome_none (h : RowTidy r) (hmove : Move db call r v) (ho : v.outcome = none)
    (hcall : call.requeues = none) : RowTidy (r.assign v) := by
  have hsame := outcomeDict_of_none (r := r) ho
  cases hmove with
  | keep hstatus =>
    have hs : (r.assign v).status = r.status := by rw [assign_status, hstatus, getD_none]
    exact ⟨fun hi => hsame ▸ h.waiting (hs ▸ hi), fun ha => hsame ▸ h.active (hs ▸ ha)⟩
  | cancel hopen hv =>
    have hs : (r.assign v).status = if r.status.Claimable then .cancelled else r.status := by
      rw [hv]
      exact cancelValues_status
    by_cases hidle : r.status.Claimable
    · rw [if_pos hidle] at hs
      exact rowTidy_of_terminal (by rw [hs]; decide)
    · rw [if_neg hidle] at hs
      exact ⟨fun hi => absurd (hs ▸ hi) hidle, fun ha => hsame ▸ h.active (hs ▸ ha)⟩
  | claim hidle | absorb hidle => exact rowTidy_of_quiet (hsame ▸ h.waiting hidle)
  | start hclaimed hstatus =>
    have hs : (r.assign v).status = .running := by rw [assign_status, hstatus, getD_some]
    refine ⟨fun hi => absurd (hs ▸ hi) (by decide), fun _ => hsame ▸ h.active (.inl hclaimed)⟩
  | settle hactive t hterminal hstatus => exact rowTidy_of_settled hterminal hstatus
  | requeue hactive hstatus hcancel hrequeues =>
    rw [hcall] at hrequeues
    cases hrequeues

theorem RowTidy.of_outcomeUpdate {outcome : DirectTurnRequestRow → Option Members} (h : RowTidy r)
    (hout : (Quiet r.outcomeDict ∨ InFlight r.outcomeDict) → ∀ o, outcome r = some o →
      Quiet o ∨ InFlight o)
    (hv : outcomeUpdate db requestId lease outcome r = some v) : RowTidy (r.assign v) := by
  obtain ⟨o, ho, rfl, -, hactive, -, -⟩ := outcomeUpdate_eq_some hv
  have hnew := outcomeDict_of_obj (r := r)
    (v := { outcome := some (.obj o), updatedAt := db.now }) rfl
  exact ⟨fun hidle => absurd hactive (DirectTurnStatus.not_active_of_claimable hidle),
    fun _ => hnew ▸ hout (h.active hactive) o ho⟩

variable {predicate : DirectTurnRequestRow → Prop} {statuses : DirectTurnStatus → Prop}

theorem rowTidy_of_owned_terminal {values : RowValues}
    [DecidablePred statuses]
    [DecidablePred predicate] (ht : t.Terminal) (hstatus : values.status = some t)
    (hv : ownedFencedUpdate db requestId lease statuses predicate values r = some v) :
    RowTidy (r.assign v) := by
  obtain ⟨rfl, -⟩ := ownedFencedUpdate_eq_some hv
  exact rowTidy_of_settled ht hstatus

theorem rowTidy_of_stale_terminal {values : RowValues}
    [DecidablePred statuses]
    [DecidablePred predicate] (ht : t.Terminal) (hstatus : values.status = some t)
    (hv : staleUpdate db requestId lease statuses predicate values r = some v) :
    RowTidy (r.assign v) := by
  obtain ⟨rfl, -⟩ := staleUpdate_eq_some hv
  exact rowTidy_of_settled ht hstatus

theorem rowTidy_of_handoff {h : Handoff} {successor : DirectTurnRequestRow}
    (hv : handoff db h successor r = some v) : RowTidy (r.assign v) := by
  unfold handoff at hv
  split at hv
  · exact rowTidy_of_owned_terminal (t := .completed) (by decide) rfl hv
  · cases hv

theorem RowTidy.assign (h : RowTidy r) (htidy : call.Tidy) (hv : call.values c db r = some v) :
    RowTidy (r.assign v) := by
  have hmove := values_move hv
  cases call with
  | admitRequest | handoff =>
    simp only [Call.values] at hv
    split at hv
    · exact rowTidy_of_handoff hv
    · cases hv
  | edit =>
    refine h.of_outcome_none hmove ?_ rfl
    simp only [Call.values, edit] at hv
    split at hv
    · obtain ⟨p, -, rfl⟩ := map_eq_some_iff.mp hv
      rfl
    · cases hv
  | cancelConversation =>
    refine h.of_outcome_none hmove ?_ rfl
    simp only [Call.values, cancelConversation] at hv
    split at hv
    · cases hv
    · split at hv
      · rw [← some.inj hv, cancelValues]
        split <;> rfl
      · cases hv
  | requestCancel =>
    refine h.of_outcome_none hmove ?_ rfl
    simp only [Call.values, requestCancel] at hv
    split at hv
    · rw [← some.inj hv, cancelValues]
      split <;> rfl
    · cases hv
  | expediteProviderRetry =>
    refine h.of_outcome_none hmove ?_ rfl
    simp only [Call.values, expediteProviderRetry] at hv
    split at hv
    · cases hv
      rfl
    · cases hv
  | checkpoint =>
    simp only [Call.values, checkpoint] at hv
    exact h.of_outcomeUpdate (fun _ o ho => checkpointOutcome_quiet ho) hv
  | recordToolDispatch =>
    simp only [Call.values, recordToolDispatch] at hv
    exact h.of_outcomeUpdate (fun _ o ho => .inr (recordOutcome_inFlight htidy ho)) hv
  | completeToolDispatch =>
    simp only [Call.values, completeToolDispatch] at hv
    exact h.of_outcomeUpdate (fun _ o ho => completeOutcome_quiet htidy ho) hv
  | mergeToolDispatch =>
    simp only [Call.values, mergeToolDispatch] at hv
    refine h.of_outcomeUpdate ?_ hv
    intro hr o ho
    split at ho
    · exact .inr (mergeOutcome_inFlight hr ho)
    · cases ho
  | beginToolRecovery requestId lease controllerId incarnationId deadline =>
    simp only [Call.values, beginToolRecovery] at hv
    split at hv
    · cases hv
    · obtain ⟨rfl, -, hactive, -, -, hphase⟩ := staleUpdate_eq_some hv
      have hflight : InFlight (JsonValue.update r.outcomeDict
          [("recovery_started_at",
            keptText r.outcomeDict "recovery_started_at" (c.isoformat db.now)),
            ("recovery_deadline_at", keptText r.outcomeDict "recovery_deadline_at"
              (c.isoformat (db.now + max 1000000 deadline)))]) := by
        rw [InFlight, get?_update_of_notMem _ (by simp)]
        exact hphase
      exact ⟨fun hidle => absurd hactive (DirectTurnStatus.not_active_of_claimable hidle),
        fun _ => .inr (by rw [outcomeDict_of_obj rfl]; exact hflight)⟩
  | markToolRecoveryTerminal requestId lease status =>
    simp only [Call.values, markToolRecoveryTerminal] at hv
    split at hv
    · rename_i hstatus
      refine rowTidy_of_owned_terminal (t := status) ?_ rfl hv
      rcases hstatus with rfl | rfl <;> decide
    · cases hv
  | finishToolRecovery =>
    simp only [Call.values, finishToolRecovery] at hv
    obtain ⟨rfl, -⟩ := ownedFencedUpdate_eq_some hv
    by_cases hpending : r.cancelRequestedAt = none
    · rw [if_pos hpending]
      exact rowTidy_of_quiet (by rw [outcomeDict_of_obj rfl]; exact htidy)
    · rw [if_neg hpending]
      exact rowTidy_of_settled (t := .cancelled) (by decide) rfl
  | claim =>
    refine h.of_outcome_none hmove ?_ rfl
    simp only [Call.values, claim] at hv
    split at hv
    · cases hv
    · obtain ⟨rfl, -⟩ := fencedUpdate_eq_some hv
      rfl
  | recoverStaleClaim =>
    simp only [Call.values, recoverStaleClaim] at hv
    obtain ⟨rfl, -⟩ := staleUpdate_eq_some hv
    exact rowTidy_of_quiet (by rw [outcomeDict_of_column rfl]; exact htidy)
  | markStaleAmbiguous =>
    simp only [Call.values, markStaleAmbiguous] at hv
    exact rowTidy_of_stale_terminal (t := .ambiguous) (by decide) rfl hv
  | reconcileStaleAbsorbed =>
    simp only [Call.values, reconcileStaleAbsorbed] at hv
    exact rowTidy_of_stale_terminal (t := .absorbed) (by decide) rfl hv
  | reconcileStaleCompleted =>
    simp only [Call.values, reconcileStaleCompleted] at hv
    exact rowTidy_of_stale_terminal (t := .completed) (by decide) rfl hv
  | cancelStaleActive =>
    simp only [Call.values, cancelStaleActive] at hv
    exact rowTidy_of_stale_terminal (t := .cancelled) (by decide) rfl hv
  | recoverStaleAbsorbing =>
    simp only [Call.values, recoverStaleAbsorbing] at hv
    obtain ⟨rfl, -⟩ := staleUpdate_eq_some hv
    exact rowTidy_of_quiet (by rw [outcomeDict_of_obj rfl]; exact quiet_of_absent rfl rfl)
  | recoverStaleRunning =>
    simp only [Call.values, recoverStaleRunning] at hv
    obtain ⟨rfl, -⟩ := staleUpdate_eq_some hv
    exact rowTidy_of_quiet (by rw [outcomeDict_of_obj rfl]; exact htidy)
  | markRunning =>
    refine h.of_outcome_none hmove ?_ rfl
    simp only [Call.values, markRunning] at hv
    obtain ⟨rfl, -⟩ := ownedFencedUpdate_eq_some hv
    rfl
  | beginAbsorb =>
    simp only [Call.values, beginAbsorb] at hv
    split at hv
    · cases hv
    · obtain ⟨rfl, -⟩ := fencedUpdate_eq_some hv
      exact rowTidy_of_quiet (by rw [outcomeDict_of_obj rfl]; exact quiet_of_absent rfl rfl)
  | markAbsorbed =>
    simp only [Call.values, markAbsorbed, markTerminalFrom] at hv
    exact rowTidy_of_owned_terminal (t := .absorbed) (by decide) rfl hv
  | markRecoverable =>
    simp only [Call.values, markRecoverable] at hv
    obtain ⟨rfl, -⟩ := ownedFencedUpdate_eq_some hv
    exact rowTidy_of_quiet (by rw [outcomeDict_of_column rfl]; exact htidy)
  | settleTransientFailure =>
    obtain ⟨rfl, -⟩ := ownedFencedUpdate_eq_some hv
    exact rowTidy_of_quiet (by rw [outcomeDict_of_obj rfl]; exact htidy)
  | markTerminal requestId lease status =>
    simp only [Call.values, markTerminal, markTerminalFrom] at hv
    split at hv
    · rename_i hstatus
      refine rowTidy_of_owned_terminal (t := status) ?_ rfl hv
      rcases hstatus with rfl | rfl | rfl | rfl <;> decide
    · cases hv
  | completeFailureVisibility =>
    simp only [Call.values, completeFailureVisibility] at hv
    split at hv
    · cases hv
      exact rowTidy_of_quiet (by rw [outcomeDict_of_obj rfl]; exact quiet_of_absent rfl rfl)
    · cases hv
  | resolveStaleToolAmbiguous o =>
    simp only [Call.values, OperatorRecovery.resolveStaleToolAmbiguous] at hv
    split at hv
    · obtain ⟨lease, -, rfl⟩ := map_eq_some_iff.mp hv
      exact rowTidy_of_settled (t := .ambiguous) (by decide) rfl
    · cases hv
  | leaseCall => cases hv

end

def Tidy (db : Database) : Prop := ∀ r ∈ db.requests, RowTidy r

theorem Tidy.perform {c : Codec} {db : Database} {call : Call} (h : Tidy db)
    (htidy : ∀ r ∈ db.requests, (call.values c db r).isSome = true → call.Tidy) :
    Tidy (perform c db call) := by
  intro r' hr'
  rcases mem_perform_requests.mp hr' with ⟨r, hr, rfl⟩ | hnew
  · unfold Call.after
    cases hv : call.values c db r with
    | none => exact h r hr
    | some v => exact (h r hr).assign (htidy r hr (by rw [hv]; rfl)) hv
  · refine rowTidy_of_quiet ?_
    rw [DirectTurnRequestRow.outcomeDict, (inserted_spec hnew).2.2.2.1]
    exact quiet_nil

end Cognis.DirectTurn
