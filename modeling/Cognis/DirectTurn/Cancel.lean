import Cognis.DirectTurn.Exclusive

namespace Cognis.DirectTurn

open Coordination JsonValue Option Runs

def NoneLeftPending (db : Database) : Prop :=
  ∀ r ∈ db.requests, r.status.Claimable → r.cancelRequestedAt = none

/-- A `mark_recoverable` that acts finds no pending cancellation. -/
def RequeuesUncancelled (db : Database) (e : Event) : Prop :=
  ∀ requestId lease outcome, e.call = .markRecoverable requestId lease outcome →
    ∀ r ∈ db.requests, r.requestId = requestId → r.status.Active →
      LeaseCurrent (db.wait e.elapsed) lease r → OwnedBy lease r → r.cancelRequestedAt = none

section

variable {c : Codec} {db : Database} {call : Call} {r : DirectTurnRequestRow} {v : RowValues}

theorem Move.cancel_isSome (h : Move db call r v) (hc : r.cancelRequestedAt.isSome) :
    (r.assign v).cancelRequestedAt.isSome := by
  cases h with
  | cancel hopen hv =>
    subst hv
    rw [cancelValues_cancelRequestedAt]
    rfl
  | keep _ hcancel | claim _ _ _ hcancel | absorb _ _ hcancel | start _ _ hcancel
  | settle _ _ _ _ hcancel | requeue _ _ hcancel =>
    rw [assign_cancelRequestedAt, hcancel]
    exact hc

/-- A request that waits after a move waited before it, or the move returned it
to the queue. -/
theorem Move.claimable (h : Move db call r v) (hafter : (r.assign v).status.Claimable) :
    (r.status.Claimable ∧ v.cancelRequestedAt = none) ∨
    (r.status.Active ∧ v.cancelRequestedAt = none ∧ (r.cancelRequestedAt = none ∨
      ∃ lease outcome, call = .markRecoverable r.requestId lease outcome ∧
        LeaseCurrent db lease r ∧ OwnedBy lease r)) := by
  cases h with
  | keep hstatus hcancel =>
    rw [assign_status, hstatus] at hafter
    exact .inl ⟨hafter, hcancel⟩
  | cancel hopen hv =>
    subst hv
    rw [cancelValues_status] at hafter
    by_cases hidle : r.status.Claimable
    · rw [if_pos hidle] at hafter
      exact absurd hafter (by decide)
    · rw [if_neg hidle] at hafter
      exact absurd hafter hidle
  | claim hidle hfifo hstatus | absorb hidle hstatus | start hclaimed hstatus =>
    rw [assign_status, hstatus, getD_some] at hafter
    exact absurd hafter (by decide)
  | settle hactive t hterminal hstatus =>
    rw [assign_status, hstatus, getD_some] at hafter
    rcases hafter with rfl | rfl <;> exact absurd hterminal (by decide)
  | requeue hactive hstatus hcancel hcall hpending => exact .inr ⟨hactive, hcancel, hpending⟩

theorem after_cancel_isSome (h : r.cancelRequestedAt.isSome) :
    (call.after c db r).cancelRequestedAt.isSome := by
  obtain heq | ⟨v, hmove, heq⟩ := after_cases c db call r
  · rw [heq]
    exact h
  · rw [heq]
    exact hmove.cancel_isSome h

/-- A call takes a request into `claimed` or `absorbing` from the queue only. -/
theorem Move.taken (h : Move db call r v) {s : DirectTurnStatus}
    (hs : s = .claimed ∨ s = .absorbing) (hafter : (r.assign v).status = s) :
    r.status = s ∨ r.status.Claimable := by
  cases h with
  | keep hstatus =>
    rw [assign_status, hstatus, getD_none] at hafter
    exact .inl hafter
  | cancel hopen hv =>
    subst hv
    rw [cancelValues_status] at hafter
    by_cases hidle : r.status.Claimable
    · exact .inr hidle
    · rw [if_neg hidle] at hafter
      exact .inl hafter
  | claim hidle | absorb hidle => exact .inr hidle
  | start _ hstatus | requeue _ hstatus =>
    rw [assign_status, hstatus, getD_some] at hafter
    rcases hs with rfl | rfl <;> cases hafter
  | settle _ t hterminal hstatus =>
    rw [assign_status, hstatus, getD_some] at hafter
    rcases hs with rfl | rfl <;> exact absurd (hafter ▸ hterminal) (by decide)

theorem after_taken {s : DirectTurnStatus} (hs : s = .claimed ∨ s = .absorbing)
    (hafter : (call.after c db r).status = s) : r.status = s ∨ r.status.Claimable := by
  obtain heq | ⟨v, hmove, heq⟩ := after_cases c db call r
  · rw [heq] at hafter
    exact .inl hafter
  · rw [heq] at hafter
    exact hmove.taken hs hafter

theorem noneLeftPending_step_iff (e : Event) (hdb : NoneLeftPending db) :
    NoneLeftPending (step c db e) ↔ RequeuesUncancelled db e := by
  constructor
  · intro hafter requestId lease outcome hcall r hr hid hactive hcurrent howned
    have hvalues : e.call.after c (db.wait e.elapsed) r = r.assign
        { status := some .recoverable, ownerControllerId := some none,
          ownerIncarnationId := some none, outcome := some (column outcome),
          updatedAt := (db.wait e.elapsed).now } := by
      have hguard : r.requestId = requestId ∧ r.status.Active ∧
          LeaseCurrent (db.wait e.elapsed) lease r ∧ OwnedBy lease r ∧ True :=
        ⟨hid, hactive, hcurrent, howned, trivial⟩
      rw [Call.after, hcall, Call.values, markRecoverable, ownedFencedUpdate, if_pos hguard]
      rfl
    have hmem : e.call.after c (db.wait e.elapsed) r ∈ (step c db e).requests :=
      mem_perform_requests.mpr (.inl ⟨r, hr, rfl⟩)
    have hnone := hafter _ hmem (by rw [hvalues]; exact .inr rfl)
    rw [hvalues] at hnone
    exact hnone
  · intro hmeets r' hr' hidle
    rcases mem_perform_requests.mp hr' with ⟨r, hr, rfl⟩ | hnew
    · obtain heq | ⟨v, hmove, heq⟩ := after_cases c (db.wait e.elapsed) e.call r
      · rw [heq] at hidle ⊢
        exact hdb r hr hidle
      · rw [heq] at hidle ⊢
        rcases hmove.claimable hidle with ⟨hwas, hcancel⟩ | ⟨hactive, hcancel, hpending⟩
        · rw [assign_cancelRequestedAt, hcancel]
          exact hdb r hr hwas
        · rw [assign_cancelRequestedAt, hcancel]
          rcases hpending with hnone | ⟨lease, outcome, hcall, hcurrent, howned⟩
          · exact hnone
          · exact hmeets _ lease outcome hcall r hr rfl hactive hcurrent howned
    · exact (inserted_spec hnew).2.2.1

end

theorem cancel_pending_run {c : Codec} {db : Database} (hdb : Ordered db)
    {r : DirectTurnRequestRow} (hr : r ∈ db.requests) (hc : r.cancelRequestedAt.isSome)
    (es : List Event) :
    ∀ r' ∈ (run (step c) db es).requests, r'.requestId = r.requestId →
      r'.cancelRequestedAt.isSome := by
  have hkept : ∃ r' ∈ (run (step c) db es).requests,
      r'.requestId = r.requestId ∧ r'.cancelRequestedAt.isSome := by
    apply run_invariant (fun db' : Database => ∃ r' ∈ db'.requests,
      r'.requestId = r.requestId ∧ r'.cancelRequestedAt.isSome) _ ⟨r, hr, rfl, hc⟩
    intro db' e ⟨r', hr', hid, hset⟩
    exact ⟨e.call.after c (db'.wait e.elapsed) r', mem_perform_requests.mpr (.inl ⟨r', hr', rfl⟩),
      by rw [after_requestId, hid], after_cancel_isSome hset⟩
  obtain ⟨x, hx, hxid, hxset⟩ := hkept
  intro r' hr' hid
  have heq : r' = x :=
    List.inj_on_of_nodup_map (hdb.run es).distinct hr' hx (hid.trans hxid.symm)
  rw [heq]
  exact hxset

/-- The states of a run never hold a pending cancellation on waiting work exactly
when each `mark_recoverable` of the run that acts finds no cancellation pending;
in such a run a request is neither claimed nor absorbed once its cancellation
was requested. -/
theorem no_pending_cancel_claimable (c : Codec) (leases : LeaseStore) (nextAdmissionOrder : Nat)
    (audits : List String) (es : List Event) :
    let start := Database.initial leases nextAdmissionOrder audits
    ((∀ pre, pre <+: es → ∀ r ∈ (run (step c) start pre).requests,
        r.status = .queued ∨ r.status = .recoverable → r.cancelRequestedAt = none) ↔
      Meets (step c) RequeuesUncancelled start es) ∧
    (∀ (pre post : List Event) (e : Event), pre ++ post ++ [e] <+: es →
      Meets (step c) RequeuesUncancelled start es →
      ∀ r ∈ (run (step c) start pre).requests, r.cancelRequestedAt.isSome →
      ∀ r' ∈ (run (step c) start (pre ++ post)).requests, r'.requestId = r.requestId →
        let r'' := e.call.after c ((run (step c) start (pre ++ post)).wait e.elapsed) r'
        (r''.status = .claimed → r'.status = .claimed) ∧
        (r''.status = .absorbing → r'.status = .absorbing)) := by
  intro start
  have hstart : NoneLeftPending start := by
    intro r hr
    cases hr
  have hiff := forall_prefix_iff_meets NoneLeftPending
    (fun db e hdb => noneLeftPending_step_iff (c := c) e hdb) hstart es
  refine ⟨hiff, ?_⟩
  intro pre post e hprefix hmeets r hr hcancelled r' hr' hid
  have hordered : Ordered (run (step c) start pre) :=
    (ordered_initial leases nextAdmissionOrder audits).run pre
  have hpending : r'.cancelRequestedAt.isSome := by
    rw [run_append] at hr'
    exact cancel_pending_run hordered hr hcancelled post r' hr' hid
  have hnot : ¬ r'.status.Claimable := by
    intro hidle
    have hnone := hiff.mpr hmeets _ ((List.prefix_append _ _).trans hprefix) r' hr' hidle
    rw [hnone] at hpending
    cases hpending
  exact ⟨fun h => (after_taken (.inl rfl) h).resolve_right hnot,
    fun h => (after_taken (.inr rfl) h).resolve_right hnot⟩

def cancelledWhileClaimed : List Event :=
  claimedFirst ++ [⟨1, .requestCancel "r1"⟩]

/-- Its owner settles it, and the next claim of it fails. -/
theorem no_pending_cancel_claimable_settled :
    let es := cancelledWhileClaimed ++
      [⟨1, .markTerminal "r1" (sampleLease "a:1" 1) .cancelled none⟩]
    Meets (step plainCodec) RequeuesUncancelled Database.empty es ∧
    ∀ pre, pre <+: es → ∀ r ∈ (run (step plainCodec) Database.empty pre).requests,
      r.status = .queued ∨ r.status = .recoverable → r.cancelRequestedAt = none := by
  intro es
  have hmeets : Meets (step plainCodec) RequeuesUncancelled Database.empty es := by
    refine ⟨?_, ?_, ?_, ?_, ?_, ?_, trivial⟩ <;> intro requestId lease outcome hcall <;> cases hcall
  exact ⟨hmeets, (no_pending_cancel_claimable plainCodec LeaseStore.empty 1 [] es).1.mpr hmeets⟩

/-- A cancellation requested while the message was claimed survives
`mark_recoverable`, and the message is claimed again. -/
theorem mark_recoverable_requeues_cancelled :
    let es := cancelledWhileClaimed ++ [⟨1, .markRecoverable "r1" (sampleLease "a:1" 1) none⟩]
    let db := run (step plainCodec) Database.empty es
    let db' := run (step plainCodec) db [⟨1, .claim "r1" (sampleLease "a:1" 1) "a" "1" none⟩]
    ¬ (∀ r ∈ db.requests, r.status = .queued ∨ r.status = .recoverable →
      r.cancelRequestedAt = none) ∧
    (db'.requests.map fun r => (r.requestId, r.status, r.cancelRequestedAt)) =
      [("r1", .claimed, some 5), ("r2", .queued, none)] := by
  decide

end Cognis.DirectTurn
