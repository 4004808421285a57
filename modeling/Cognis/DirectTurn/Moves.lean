import Cognis.DirectTurn.Calls

namespace Cognis.DirectTurn

open Coordination JsonValue Option

variable {statuses : DirectTurnStatus → Prop} {predicate : DirectTurnRequestRow → Prop}
  {t : DirectTurnStatus}

inductive Call where
  | admitRequest (a : Admission)
  | edit (requestId : String) (payload : Members) (payloadVersion : Int)
      (expectedPayloadHash : Option String)
  | handoff (h : Handoff) (successorId : String)
  | cancelConversation (conversationId : String) (clearQueue : Bool)
      (activeRequestId : Option String)
  | requestCancel (requestId : String)
  | expediteProviderRetry (conversationId sessionId : String) (previousRuntimeRevision : Int)
  | checkpoint (requestId : String) (lease : Lease) (phase : String) (metadata : Members)
      (clearToolDispatch : Bool)
  | recordToolDispatch (requestId : String) (lease : Lease) (sessionId : String)
      (turnId : Option String) (descriptors : List JsonValue) (metadata : Members)
  | completeToolDispatch (requestId : String) (lease : Lease) (sessionId : String)
      (turnId : Option String) (callIds : List String) (metadata : Members)
  | mergeToolDispatch (requestId : String) (lease : Lease) (sessionId : String)
      (turnId : Option String) (binding : DispatchBinding)
  | beginToolRecovery (requestId : String) (lease : Lease) (controllerId incarnationId : String)
      (deadline : Int)
  | markToolRecoveryTerminal (requestId : String) (lease : Lease) (status : DirectTurnStatus)
      (outcome : Members)
  | finishToolRecovery (requestId : String) (lease : Lease) (outcome : Members)
  | claim (requestId : String) (lease : Lease) (controllerId incarnationId : String)
      (sessionId : Option String)
  | recoverStaleClaim (requestId : String) (lease : Lease) (outcome : Option Members)
  | markStaleAmbiguous (requestId : String) (lease : Lease) (outcome : Members)
  | reconcileStaleAbsorbed (requestId : String) (lease : Lease)
  | reconcileStaleCompleted (requestId : String) (lease : Lease) (outcome : Members)
  | cancelStaleActive (requestId : String) (lease : Lease)
  | recoverStaleAbsorbing (requestId : String) (lease : Lease)
  | recoverStaleRunning (requestId : String) (lease : Lease) (outcome : Members)
  | markRunning (requestId : String) (lease : Lease)
  | beginAbsorb (requestId : String) (lease : Lease)
      (controllerId incarnationId absorbedByTurnId : String) (sessionId : Option String)
  | markAbsorbed (requestId : String) (lease : Lease)
  | markRecoverable (requestId : String) (lease : Lease) (outcome : Option Members)
  | settleTransientFailure (requestId : String) (lease : Lease) (outcome : Members)
      (retryAfter : Option Int)
  | markTerminal (requestId : String) (lease : Lease) (status : DirectTurnStatus)
      (outcome : Option Members)
  | completeFailureVisibility (requestId : String)
  | resolveStaleToolAmbiguous (o : OperatorRecovery)
  | leaseCall (c : LeaseCall)

namespace Call

variable (c : Codec) (db : Database)

def values : Call → DirectTurnRequestRow → Option RowValues
  | .admitRequest a => fun r =>
    match DirectTurn.admitRequest c db a, a.predecessor with
    | some (successor, _), some h => DirectTurn.handoff db h successor r
    | _, _ => none
  | .edit requestId payload version hash => DirectTurn.edit c db requestId payload version hash
  | .handoff h successorId => fun r =>
    match db.find successorId with
    | some successor => DirectTurn.handoff db h successor r
    | none => none
  | .cancelConversation conversationId clearQueue activeRequestId =>
    DirectTurn.cancelConversation db conversationId clearQueue activeRequestId
  | .requestCancel requestId => DirectTurn.requestCancel db requestId
  | .expediteProviderRetry conversationId sessionId revision =>
    DirectTurn.expediteProviderRetry db conversationId sessionId revision
  | .checkpoint requestId lease phase metadata clear =>
    DirectTurn.checkpoint c db requestId lease phase metadata clear
  | .recordToolDispatch requestId lease sessionId turnId descriptors metadata =>
    DirectTurn.recordToolDispatch c db requestId lease sessionId turnId descriptors metadata
  | .completeToolDispatch requestId lease sessionId turnId callIds metadata =>
    DirectTurn.completeToolDispatch c db requestId lease sessionId turnId callIds metadata
  | .mergeToolDispatch requestId lease sessionId turnId binding =>
    DirectTurn.mergeToolDispatch db requestId lease sessionId turnId binding
  | .beginToolRecovery requestId lease controllerId incarnationId deadline =>
    DirectTurn.beginToolRecovery c db requestId lease controllerId incarnationId deadline
  | .markToolRecoveryTerminal requestId lease status outcome =>
    DirectTurn.markToolRecoveryTerminal db requestId lease status outcome
  | .finishToolRecovery requestId lease outcome =>
    DirectTurn.finishToolRecovery db requestId lease outcome
  | .claim requestId lease controllerId incarnationId sessionId =>
    DirectTurn.claim db requestId lease controllerId incarnationId sessionId
  | .recoverStaleClaim requestId lease outcome =>
    DirectTurn.recoverStaleClaim db requestId lease outcome
  | .markStaleAmbiguous requestId lease outcome =>
    DirectTurn.markStaleAmbiguous db requestId lease outcome
  | .reconcileStaleAbsorbed requestId lease => DirectTurn.reconcileStaleAbsorbed db requestId lease
  | .reconcileStaleCompleted requestId lease outcome =>
    DirectTurn.reconcileStaleCompleted db requestId lease outcome
  | .cancelStaleActive requestId lease => DirectTurn.cancelStaleActive db requestId lease
  | .recoverStaleAbsorbing requestId lease => DirectTurn.recoverStaleAbsorbing db requestId lease
  | .recoverStaleRunning requestId lease outcome =>
    DirectTurn.recoverStaleRunning db requestId lease outcome
  | .markRunning requestId lease => DirectTurn.markRunning db requestId lease
  | .beginAbsorb requestId lease controllerId incarnationId absorbedByTurnId sessionId =>
    DirectTurn.beginAbsorb c db requestId lease controllerId incarnationId absorbedByTurnId
      sessionId
  | .markAbsorbed requestId lease => DirectTurn.markAbsorbed db requestId lease
  | .markRecoverable requestId lease outcome =>
    DirectTurn.markRecoverable db requestId lease outcome
  | .settleTransientFailure requestId lease outcome retryAfter =>
    DirectTurn.settleTransientFailure db requestId lease outcome retryAfter
  | .markTerminal requestId lease status outcome =>
    DirectTurn.markTerminal db requestId lease status outcome
  | .completeFailureVisibility requestId => DirectTurn.completeFailureVisibility db requestId
  | .resolveStaleToolAmbiguous o => o.resolveStaleToolAmbiguous c db
  | .leaseCall _ => fun _ => none

def inserted : Call → Option DirectTurnRequestRow
  | .admitRequest a =>
    match DirectTurn.admitRequest c db a with
    | some (row, true) => some row
    | _ => none
  | _ => none

def leasesAfter : Call → LeaseStore
  | .resolveStaleToolAmbiguous o => o.leasesAfter c db
  | .leaseCall call => (db.leases.perform call).1
  | _ => db.leases

def auditsAfter : Call → List String
  | .resolveStaleToolAmbiguous o =>
    if ∃ r ∈ db.requests, (o.resolveStaleToolAmbiguous c db r).isSome then o.auditId c :: db.audits
    else db.audits
  | _ => db.audits

def lease : Call → Option Lease
  | .admitRequest a => a.predecessor.map (·.lease)
  | .handoff h _ => some h.lease
  | .checkpoint _ l .. | .recordToolDispatch _ l .. | .completeToolDispatch _ l ..
  | .mergeToolDispatch _ l .. | .beginToolRecovery _ l .. | .markToolRecoveryTerminal _ l ..
  | .finishToolRecovery _ l _ | .claim _ l .. | .recoverStaleClaim _ l _
  | .markStaleAmbiguous _ l _ | .reconcileStaleAbsorbed _ l | .reconcileStaleCompleted _ l _
  | .cancelStaleActive _ l | .recoverStaleAbsorbing _ l | .recoverStaleRunning _ l _
  | .markRunning _ l | .beginAbsorb _ l .. | .markAbsorbed _ l | .markRecoverable _ l _
  | .settleTransientFailure _ l .. | .markTerminal _ l .. => some l
  | .edit .. | .cancelConversation .. | .requestCancel _ | .expediteProviderRetry ..
  | .completeFailureVisibility _ | .resolveStaleToolAmbiguous _ | .leaseCall _ => none

end Call

/-- One atomic call, `elapsed` microseconds after the one before it. -/
structure Event where
  elapsed : Nat
  call : Call

def perform (c : Codec) (db : Database) (call : Call) : Database where
  leases := call.leasesAfter c db
  requests := db.requests.map (fun r => r.update (call.values c db r)) ++
    (call.inserted c db).toList
  nextAdmissionOrder := db.nextAdmissionOrder + (call.inserted c db).toList.length
  audits := call.auditsAfter c db

def step (c : Codec) (db : Database) (e : Event) : Database :=
  perform c (db.wait e.elapsed) e.call

def Call.requeues : Call → Option String
  | .markRecoverable requestId _ _ | .settleTransientFailure requestId _ _ _
  | .recoverStaleClaim requestId _ _ | .recoverStaleAbsorbing requestId _
  | .recoverStaleRunning requestId _ _ | .finishToolRecovery requestId _ _ => some requestId
  | _ => none

/-- Everything a call can do to a request it picks: each case lists what the
call found there. -/
inductive Move (db : Database) (call : Call) (r : DirectTurnRequestRow) (v : RowValues) : Prop
  | keep (hstatus : v.status = none) (hcancel : v.cancelRequestedAt = none)
      (hlease : ∀ l, call.lease = some l → LeaseCurrent db l r)
  | cancel (hopen : r.status.Nonterminal) (hv : v = cancelValues db r) (hlease : call.lease = none)
  | claim (hidle : r.status.Claimable) (hfifo : ¬ db.HasOpenPredecessor r)
      (hstatus : v.status = some .claimed) (hcancel : v.cancelRequestedAt = none)
      (hlease : ∀ l, call.lease = some l → LeaseCurrent db l r)
  | absorb (hidle : r.status.Claimable) (hstatus : v.status = some .absorbing)
      (hcancel : v.cancelRequestedAt = none)
      (hlease : ∀ l, call.lease = some l → LeaseCurrent db l r)
  | start (hclaimed : r.status = .claimed) (hstatus : v.status = some .running)
      (hcancel : v.cancelRequestedAt = none)
      (hlease : ∀ l, call.lease = some l → LeaseCurrent db l r)
  | settle (hactive : r.status.Active) (t : DirectTurnStatus) (hterminal : t.Terminal)
      (hstatus : v.status = some t) (hcancel : v.cancelRequestedAt = none)
      (hlease : ∀ l, call.lease = some l → LeaseCurrent db l r)
  | requeue (hactive : r.status.Active) (hstatus : v.status = some .recoverable)
      (hcancel : v.cancelRequestedAt = none) (hcall : call.requeues = some r.requestId)
      (hpending : r.cancelRequestedAt = none ∨
        ∃ lease outcome, call = .markRecoverable r.requestId lease outcome ∧
          LeaseCurrent db lease r ∧ OwnedBy lease r)
      (hlease : ∀ l, call.lease = some l → LeaseCurrent db l r)

section

variable {db : Database} {requestId : String} {lease : Lease} {r : DirectTurnRequestRow}
  {values v : RowValues}

theorem fencedUpdate_eq_some [DecidablePred statuses] {fifo : Bool}
    (h : fencedUpdate db requestId lease statuses values fifo r = some v) :
    v = values ∧ statuses r.status ∧ LeaseCurrent db lease r ∧
      (fifo = true → ¬ db.HasOpenPredecessor r) := by
  unfold fencedUpdate at h
  split at h
  · rename_i hguard
    exact ⟨(some.inj h).symm, hguard.2⟩
  · cases h

theorem ownedFencedUpdate_eq_some [DecidablePred statuses] [DecidablePred predicate]
    (h : ownedFencedUpdate db requestId lease statuses predicate values r = some v) :
    v = values ∧ r.requestId = requestId ∧ statuses r.status ∧ LeaseCurrent db lease r ∧
      OwnedBy lease r ∧ predicate r := by
  unfold ownedFencedUpdate at h
  split at h
  · rename_i hguard
    exact ⟨(some.inj h).symm, hguard⟩
  · cases h

theorem staleUpdate_eq_some [DecidablePred statuses] [DecidablePred predicate]
    (h : staleUpdate db requestId lease statuses predicate values r = some v) :
    v = values ∧ r.requestId = requestId ∧ statuses r.status ∧ LeaseCurrent db lease r ∧
      Outdated lease r ∧ predicate r := by
  unfold staleUpdate at h
  split at h
  · rename_i hguard
    exact ⟨(some.inj h).symm, hguard⟩
  · cases h

variable {outcome : DirectTurnRequestRow → Option Members}

theorem outcomeUpdate_eq_some (h : outcomeUpdate db requestId lease outcome r = some v) :
    ∃ o, outcome r = some o ∧ v = { outcome := some (.obj o), updatedAt := db.now } ∧
      r.requestId = requestId ∧ r.status.Active ∧ LeaseCurrent db lease r ∧ OwnedBy lease r := by
  unfold outcomeUpdate at h
  split at h
  · rename_i hguard
    obtain ⟨o, ho, hv⟩ := map_eq_some_iff.mp h
    exact ⟨o, ho, hv.symm, hguard⟩
  · cases h

end

section

variable {c : Codec} {db : Database} {call : Call} {requestId : String} {lease : Lease}
  {r : DirectTurnRequestRow} {v : RowValues}

private theorem current_of_lease (hcall : call.lease = some lease) (h : LeaseCurrent db lease r) :
    ∀ l, call.lease = some l → LeaseCurrent db l r := by
  intro l hl
  have : lease = l := some.inj (hcall.symm.trans hl)
  exact this ▸ h

private theorem current_of_none (hcall : call.lease = none) :
    ∀ l, call.lease = some l → LeaseCurrent db l r := by
  intro l hl
  rw [hcall] at hl
  cases hl

theorem move_of_outcomeUpdate (hcall : call.lease = some lease)
    (h : outcomeUpdate db requestId lease outcome r = some v) : Move db call r v := by
  obtain ⟨o, -, rfl, -, -, hcurrent, -⟩ := outcomeUpdate_eq_some h
  exact .keep rfl rfl (current_of_lease hcall hcurrent)

variable {values : RowValues}

theorem move_of_owned_terminal [DecidablePred statuses]
    [DecidablePred predicate] (hcall : call.lease = some lease)
    (hactive : ∀ s, statuses s → s.Active) (ht : t.Terminal) (hstatus : values.status = some t)
    (hcancel : values.cancelRequestedAt = none)
    (h : ownedFencedUpdate db requestId lease statuses predicate values r = some v) :
    Move db call r v := by
  obtain ⟨rfl, -, hs, hcurrent, -, -⟩ := ownedFencedUpdate_eq_some h
  exact .settle (hactive _ hs) t ht hstatus hcancel (current_of_lease hcall hcurrent)

theorem move_of_stale_terminal [DecidablePred statuses]
    [DecidablePred predicate] (hcall : call.lease = some lease)
    (hactive : ∀ s, statuses s → s.Active) (ht : t.Terminal) (hstatus : values.status = some t)
    (hcancel : values.cancelRequestedAt = none)
    (h : staleUpdate db requestId lease statuses predicate values r = some v) :
    Move db call r v := by
  obtain ⟨rfl, -, hs, hcurrent, -, -⟩ := staleUpdate_eq_some h
  exact .settle (hactive _ hs) t ht hstatus hcancel (current_of_lease hcall hcurrent)

/-- A stale claim that nobody cancelled goes back into the queue. -/
theorem move_of_stale_requeue [DecidablePred statuses] (hcall : call.lease = some lease)
    (hrequeues : call.requeues = some requestId) (hactive : ∀ s, statuses s → s.Active)
    (hstatus : values.status = some .recoverable) (hcancel : values.cancelRequestedAt = none)
    (h : staleUpdate db requestId lease statuses NotCancelled values r = some v) :
    Move db call r v := by
  obtain ⟨rfl, hid, hs, hcurrent, -, hpending⟩ := staleUpdate_eq_some h
  exact .requeue (hactive _ hs) hstatus hcancel (hid ▸ hrequeues) (.inl hpending)
    (current_of_lease hcall hcurrent)

theorem move_of_handoff {h : Handoff} {successor : DirectTurnRequestRow}
    (hcall : call.lease = some h.lease) (hv : handoff db h successor r = some v) :
    Move db call r v := by
  unfold handoff at hv
  split at hv
  · exact move_of_owned_terminal hcall (fun _ hs => hs) (by decide) rfl rfl hv
  · cases hv

theorem move_of_finishToolRecovery {outcome : Members} (hcall : call.lease = some lease)
    (hrequeues : call.requeues = some requestId)
    (h : finishToolRecovery db requestId lease outcome r = some v) : Move db call r v := by
  obtain ⟨rfl, hid, hs, hcurrent, -, -⟩ := ownedFencedUpdate_eq_some h
  by_cases hpending : r.cancelRequestedAt = none
  · rw [if_pos hpending]
    exact .requeue hs rfl rfl (hid ▸ hrequeues) (.inl hpending) (current_of_lease hcall hcurrent)
  · rw [if_neg hpending]
    exact .settle hs .cancelled (by decide) rfl rfl (current_of_lease hcall hcurrent)

private theorem active_of_eq (ht : t.Active) : ∀ s, s = t → s.Active := by
  intro s hs
  exact hs ▸ ht

end

theorem values_move {c : Codec} {db : Database} {call : Call} {r : DirectTurnRequestRow}
    {v : RowValues} (h : call.values c db r = some v) : Move db call r v := by
  cases call with
  | admitRequest a =>
    simp only [Call.values] at h
    split at h
    · rename_i hpred
      exact move_of_handoff (by simp [Call.lease, hpred]) h
    · cases h
  | handoff =>
    simp only [Call.values] at h
    split at h
    · exact move_of_handoff rfl h
    · cases h
  | edit =>
    simp only [Call.values, edit] at h
    split at h
    · obtain ⟨p, -, rfl⟩ := map_eq_some_iff.mp h
      exact .keep rfl rfl (current_of_none rfl)
    · cases h
  | cancelConversation =>
    simp only [Call.values, cancelConversation] at h
    split at h
    · cases h
    · split at h
      · rename_i hguard
        exact .cancel hguard.2 (some.inj h).symm rfl
      · cases h
  | requestCancel =>
    simp only [Call.values, requestCancel] at h
    split at h
    · rename_i hguard
      exact .cancel hguard.2 (some.inj h).symm rfl
    · cases h
  | expediteProviderRetry =>
    simp only [Call.values, expediteProviderRetry] at h
    split at h
    · cases h
      exact .keep rfl rfl (current_of_none rfl)
    · cases h
  | checkpoint =>
    simp only [Call.values, checkpoint] at h
    exact move_of_outcomeUpdate rfl h
  | recordToolDispatch =>
    simp only [Call.values, recordToolDispatch] at h
    exact move_of_outcomeUpdate rfl h
  | completeToolDispatch =>
    simp only [Call.values, completeToolDispatch] at h
    exact move_of_outcomeUpdate rfl h
  | mergeToolDispatch =>
    simp only [Call.values, mergeToolDispatch] at h
    exact move_of_outcomeUpdate rfl h
  | beginToolRecovery =>
    simp only [Call.values, beginToolRecovery] at h
    split at h
    · cases h
    · obtain ⟨rfl, -, -, hcurrent, -, -⟩ := staleUpdate_eq_some h
      exact .keep rfl rfl (current_of_lease rfl hcurrent)
  | markToolRecoveryTerminal requestId lease status =>
    simp only [Call.values, markToolRecoveryTerminal] at h
    split at h
    · rename_i hstatus
      have ht : status.Terminal := by
        rcases hstatus with rfl | rfl <;> decide
      exact move_of_owned_terminal rfl (fun _ hs => hs) ht rfl rfl h
    · cases h
  | finishToolRecovery => exact move_of_finishToolRecovery rfl rfl h
  | claim =>
    simp only [Call.values, claim] at h
    split at h
    · cases h
    · obtain ⟨rfl, hidle, hcurrent, hfifo⟩ := fencedUpdate_eq_some h
      exact .claim hidle (hfifo rfl) rfl rfl (current_of_lease rfl hcurrent)
  | recoverStaleClaim requestId lease outcome | recoverStaleAbsorbing requestId lease
  | recoverStaleRunning =>
    exact move_of_stale_requeue rfl rfl (active_of_eq (by decide)) rfl rfl h
  | markStaleAmbiguous =>
    have hactive (s : DirectTurnStatus) (hs : s = .running ∨ s = .absorbing) : s.Active := .inr hs
    exact move_of_stale_terminal rfl hactive (by decide) rfl rfl h
  | reconcileStaleAbsorbed | reconcileStaleCompleted =>
    exact move_of_stale_terminal rfl (active_of_eq (by decide)) (by decide) rfl rfl h
  | cancelStaleActive =>
    simp only [Call.values, cancelStaleActive] at h
    exact move_of_stale_terminal rfl (fun _ hs => hs) (by decide) rfl rfl h
  | markRunning =>
    simp only [Call.values, markRunning] at h
    obtain ⟨rfl, -, hclaimed, hcurrent, -, -⟩ := ownedFencedUpdate_eq_some h
    exact .start hclaimed rfl rfl (current_of_lease rfl hcurrent)
  | beginAbsorb =>
    simp only [Call.values, beginAbsorb] at h
    split at h
    · cases h
    · obtain ⟨rfl, hidle, hcurrent, -⟩ := fencedUpdate_eq_some h
      exact .absorb hidle rfl rfl (current_of_lease rfl hcurrent)
  | markAbsorbed =>
    simp only [Call.values, markAbsorbed, markTerminalFrom] at h
    exact move_of_owned_terminal rfl (active_of_eq (by decide)) (by decide) rfl rfl h
  | markRecoverable requestId lease outcome =>
    simp only [Call.values, markRecoverable] at h
    obtain ⟨rfl, hid, hs, hcurrent, howned, -⟩ := ownedFencedUpdate_eq_some h
    subst hid
    exact .requeue hs rfl rfl rfl (.inr ⟨lease, outcome, rfl, hcurrent, howned⟩)
      (current_of_lease rfl hcurrent)
  | settleTransientFailure =>
    obtain ⟨rfl, hid, hs, hcurrent, -, hpending⟩ := ownedFencedUpdate_eq_some h
    exact .requeue hs rfl rfl (by rw [hid]; rfl) (.inl hpending) (current_of_lease rfl hcurrent)
  | markTerminal requestId lease status =>
    simp only [Call.values, markTerminal, markTerminalFrom] at h
    split at h
    · rename_i hstatus
      have ht : status.Terminal := by
        rcases hstatus with rfl | rfl | rfl | rfl <;> decide
      exact move_of_owned_terminal rfl (fun _ hs => hs) ht rfl rfl h
    · cases h
  | completeFailureVisibility =>
    simp only [Call.values, completeFailureVisibility] at h
    split at h
    · cases h
      exact .keep rfl rfl (current_of_none rfl)
    · cases h
  | resolveStaleToolAmbiguous o =>
    simp only [Call.values, OperatorRecovery.resolveStaleToolAmbiguous] at h
    split at h
    · rename_i hmatch
      obtain ⟨lease, -, rfl⟩ := map_eq_some_iff.mp h
      exact .settle hmatch.2.2.2.2.2.2.2.2.2.2.2.1 .ambiguous (by decide) rfl rfl
        (current_of_none rfl)
    · cases h
  | leaseCall => cases h

end Cognis.DirectTurn
