import Mathlib.Data.List.Nodup
import Cognis.DirectTurn.Moves

namespace Cognis.DirectTurn

open Coordination JsonValue List Runs

def DirectTurnStatus.Executing (s : DirectTurnStatus) : Prop := s = .claimed ∨ s = .running

instance (s : DirectTurnStatus) : Decidable s.Executing := inferInstanceAs (Decidable (_ ∨ _))

section

variable {db : Database} {call : Call} {r : DirectTurnRequestRow} {v : RowValues}

@[simp] theorem assign_status : (r.assign v).status = v.status.getD r.status := rfl

@[simp] theorem assign_cancelRequestedAt :
    (r.assign v).cancelRequestedAt = v.cancelRequestedAt.getD r.cancelRequestedAt := rfl

theorem cancelValues_status : (r.assign (cancelValues db r)).status =
      if r.status.Claimable then .cancelled else r.status := by
  rw [assign_status, cancelValues]
  split <;> rfl

theorem cancelValues_cancelRequestedAt :
    (r.assign (cancelValues db r)).cancelRequestedAt = some db.now := by
  rw [assign_cancelRequestedAt, cancelValues]
  split <;> rfl

variable (h : Move db call r v)
include h

theorem Move.terminal (ht : r.status.Terminal) :
    (r.assign v).status = r.status := by
  have hnot := (DirectTurnStatus.terminal_iff_not_nonterminal r.status).mp ht
  cases h with
  | keep hstatus => rw [assign_status, hstatus, Option.getD_none]
  | cancel hopen => exact absurd hopen hnot
  | claim hidle | absorb hidle => exact absurd (.inl hidle) hnot
  | start hclaimed => exact absurd (.inr (.inl hclaimed)) hnot
  | settle hactive | requeue hactive => exact absurd (.inr hactive) hnot

/-- A request that is executing after a move was so before, or the move is a
claim that found no open predecessor. -/
theorem Move.executing (he : (r.assign v).status.Executing) :
    r.status.Executing ∨ (r.status.Claimable ∧ ¬ db.HasOpenPredecessor r) := by
  cases h with
  | keep hstatus =>
    rw [assign_status, hstatus] at he
    exact .inl he
  | cancel hopen hv =>
    subst hv
    rw [cancelValues_status] at he
    by_cases hidle : r.status.Claimable
    · rw [if_pos hidle] at he
      exact absurd he (by decide)
    · rw [if_neg hidle] at he
      exact .inl he
  | claim hidle hfifo => exact .inr ⟨hidle, hfifo⟩
  | absorb hidle hstatus | requeue hactive hstatus =>
    rw [assign_status, hstatus, Option.getD_some] at he
    exact absurd he (by decide)
  | start hclaimed => exact .inl (.inl hclaimed)
  | settle hactive t hterminal hstatus =>
    rw [assign_status, hstatus, Option.getD_some] at he
    rcases he with rfl | rfl <;> exact absurd hterminal (by decide)

theorem Move.lease_current {l : Lease} (hl : call.lease = some l) :
    LeaseCurrent db l r := by
  cases h with
  | cancel hopen hv hlease =>
    rw [hlease] at hl
    cases hl
  | keep _ _ hlease | claim _ _ _ _ hlease | absorb _ _ _ hlease | start _ _ _ hlease
  | settle _ _ _ _ _ hlease | requeue _ _ _ _ _ hlease => exact hlease l hl

end

def Call.after (c : Codec) (db : Database) (call : Call) (r : DirectTurnRequestRow) :
    DirectTurnRequestRow :=
  r.update (call.values c db r)

section

variable {c : Codec} {db : Database} {call : Call} {r : DirectTurnRequestRow}

@[simp] theorem after_requestId : (call.after c db r).requestId = r.requestId :=
  DirectTurnRequestRow.update_requestId ..

@[simp] theorem after_conversationId : (call.after c db r).conversationId = r.conversationId :=
  DirectTurnRequestRow.update_conversationId ..

@[simp] theorem after_admissionOrder : (call.after c db r).admissionOrder = r.admissionOrder :=
  DirectTurnRequestRow.update_admissionOrder ..

theorem after_cases (c : Codec) (db : Database) (call : Call) (r : DirectTurnRequestRow) :
    call.after c db r = r ∨ ∃ v, Move db call r v ∧ call.after c db r = r.assign v := by
  unfold Call.after
  cases h : call.values c db r with
  | none => exact .inl rfl
  | some v => exact .inr ⟨v, values_move h, rfl⟩

theorem after_status_of_terminal (h : r.status.Terminal) :
    (call.after c db r).status = r.status := by
  obtain heq | ⟨v, hmove, heq⟩ := after_cases c db call r
  · rw [heq]
  · rw [heq]
    exact hmove.terminal h

theorem nonterminal_of_after (h : (call.after c db r).status.Nonterminal) :
    r.status.Nonterminal := by
  by_contra hnot
  have ht := (DirectTurnStatus.terminal_iff_not_nonterminal r.status).mpr hnot
  rw [after_status_of_terminal ht] at h
  exact hnot h

theorem after_executing (h : (call.after c db r).status.Executing) :
    r.status.Executing ∨ (r.status.Claimable ∧ ¬ db.HasOpenPredecessor r) := by
  obtain heq | ⟨v, hmove, heq⟩ := after_cases c db call r
  · rw [heq] at h
    exact .inl h
  · rw [heq] at h
    exact hmove.executing h

/-- A call with a lease that is not current for the request's conversation does
not change the request. -/
theorem after_eq_of_not_current {l : Lease} (hl : call.lease = some l)
    (h : ¬ LeaseCurrent db l r) : call.after c db r = r := by
  obtain heq | ⟨v, hmove, -⟩ := after_cases c db call r
  · exact heq
  · exact absurd (hmove.lease_current hl) h

end

section

variable {c : Codec} {db : Database} {call : Call}

theorem mem_perform_requests {r' : DirectTurnRequestRow} : r' ∈ (perform c db call).requests ↔
      (∃ r ∈ db.requests, r' = call.after c db r) ∨ call.inserted c db = some r' := by
  simp only [perform, mem_append, mem_map, Option.mem_toList, Call.after, eq_comm]

theorem inserted_spec {row : DirectTurnRequestRow} (h : call.inserted c db = some row) :
    row.status = .queued ∧ row.admissionOrder = db.nextAdmissionOrder ∧
      row.cancelRequestedAt = none ∧ row.outcome = .null ∧
      ∀ r ∈ db.requests, r.requestId ≠ row.requestId ∧ r.turnId ≠ row.turnId := by
  cases call with
  | admitRequest a =>
    simp only [Call.inserted, admitRequest] at h
    have honce : admitOnce c db a = some (row, true) := by
      revert h
      cases admitOnce c db a with
      | none => simp
      | some result =>
        obtain ⟨row', created⟩ := result
        cases a.predecessor with
        | none => cases created <;> simp
        | some p =>
          by_cases hr : HandoffReturns db p row'
          · cases created <;> simp [hr]
          · cases created <;> simp [hr]
    unfold admitOnce at honce
    split at honce
    · cases honce
    · by_cases hguard : a.guardAccepts = false
      · simp [if_pos hguard] at honce
      · rw [if_neg hguard] at honce
        by_cases hconflict : ∃ r ∈ db.requests, Conflicts a r
        · rw [if_pos hconflict] at honce
          split at honce
          · cases honce
          · split at honce <;> simp at honce
        · rw [if_neg hconflict] at honce
          simp only [Option.some.injEq, Prod.mk.injEq, and_true] at honce
          subst honce
          refine ⟨rfl, rfl, rfl, rfl, ?_⟩
          intro r hr
          exact ⟨fun heq => hconflict ⟨r, hr, .inl heq⟩, fun heq =>
            hconflict ⟨r, hr, .inr (.inl heq)⟩⟩
  | _ => simp [Call.inserted] at h

end

/-- Requests stand in admission order below the next one, under distinct ids,
and only the open head of a conversation executes. -/
structure Ordered (db : Database) : Prop where
  ascending : db.requests.Pairwise (fun a b => a.admissionOrder < b.admissionOrder)
  below : ∀ r ∈ db.requests, r.admissionOrder < db.nextAdmissionOrder
  distinct : (db.requests.map (·.requestId)).Nodup
  head : ∀ r ∈ db.requests, r.status.Executing → ¬ db.HasOpenPredecessor r

section

variable {c : Codec} {db : Database} {call : Call} {r : DirectTurnRequestRow}

variable (hdb : Ordered db)
include hdb

theorem hasOpenPredecessor_of_perform (hr : r ∈ db.requests)
    (h : (perform c db call).HasOpenPredecessor (call.after c db r)) :
    db.HasOpenPredecessor r := by
  obtain ⟨e', he', hconv, horder, hopen⟩ := h
  rw [after_admissionOrder] at horder
  rcases mem_perform_requests.mp he' with ⟨e, he, rfl⟩ | hnew
  · exact ⟨e, he, by simpa using hconv, by simpa using horder, nonterminal_of_after hopen⟩
  · have hlast := (inserted_spec hnew).2.1
    have hbelow := hdb.below r hr
    omega

theorem Ordered.perform (call : Call) : Ordered (perform c db call) := by
  constructor
  · rw [DirectTurn.perform, pairwise_append]
    refine ⟨?_, ?_, ?_⟩
    · rw [pairwise_map]
      exact hdb.ascending.imp (fun h => by simpa using h)
    · cases call.inserted c db <;> simp
    · intro a ha b hb
      obtain ⟨r, hr, rfl⟩ := mem_map.mp ha
      have hb := (inserted_spec (Option.mem_toList.mp hb)).2.1
      have hbelow := hdb.below r hr
      rw [DirectTurnRequestRow.update_admissionOrder]
      omega
  · intro r' hr'
    rcases mem_perform_requests.mp hr' with ⟨r, hr, rfl⟩ | hnew
    · have hbelow := hdb.below r hr
      rw [after_admissionOrder, DirectTurn.perform]
      simp only
      omega
    · have hlast := (inserted_spec hnew).2.1
      simp only [DirectTurn.perform, hnew, Option.toList_some, length_singleton]
      omega
  · rw [DirectTurn.perform, map_append, map_map, nodup_append]
    have hids :
      (fun r => r.requestId) ∘ (fun r => DirectTurnRequestRow.update r (call.values c db r))
        = (fun r => r.requestId) := by
      funext r
      exact DirectTurnRequestRow.update_requestId ..
    refine ⟨by rw [hids]; exact hdb.distinct, ?_, ?_⟩
    · cases call.inserted c db <;> simp
    · intro a ha b hb hab
      rw [hids] at ha
      obtain ⟨r, hr, rfl⟩ := mem_map.mp ha
      obtain ⟨row, hrow, rfl⟩ := mem_map.mp hb
      exact ((inserted_spec (Option.mem_toList.mp hrow)).2.2.2.2 r hr).1 hab
  · intro r' hr' hexec
    rcases mem_perform_requests.mp hr' with ⟨r, hr, rfl⟩ | hnew
    · intro hpred
      have hbefore := hasOpenPredecessor_of_perform hdb hr hpred
      rcases after_executing hexec with hwas | ⟨-, hfifo⟩
      · exact hdb.head r hr hwas hbefore
      · exact hfifo hbefore
    · rw [(inserted_spec hnew).1] at hexec
      exact absurd hexec (by decide)

theorem Ordered.wait (elapsed : Nat) : Ordered (db.wait elapsed) :=
  ⟨hdb.ascending, hdb.below, hdb.distinct, hdb.head⟩

theorem Ordered.step (e : Event) : Ordered (step c db e) :=
  (hdb.wait e.elapsed).perform e.call

theorem Ordered.run (es : List Event) : Ordered (run (DirectTurn.step c) db es) :=
  run_invariant Ordered (fun _ e h => h.step e) hdb es

end

/-- The tables before any request was admitted. -/
def Database.initial (leases : LeaseStore) (nextAdmissionOrder : Nat) (audits : List String) :
    Database :=
  ⟨leases, [], nextAdmissionOrder, audits⟩

theorem ordered_initial (leases : LeaseStore) (nextAdmissionOrder : Nat) (audits : List String) :
    Ordered (Database.initial leases nextAdmissionOrder audits) := by
  constructor <;> simp [Database.initial]

section

variable {c : Codec} {db : Database}

theorem Ordered.executing_unique (hdb : Ordered db) {r r' : DirectTurnRequestRow}
    (hr : r ∈ db.requests) (hr' : r' ∈ db.requests) (hconv : r.conversationId = r'.conversationId)
    (h : r.status.Executing) (h' : r'.status.Executing) : r.admissionOrder = r'.admissionOrder := by
  have hopen (s : DirectTurnStatus) (hs : s.Executing) : s.Nonterminal :=
    .inr (hs.elim .inl (fun h => .inr (.inl h)))
  rcases lt_trichotomy r.admissionOrder r'.admissionOrder with hlt | heq | hgt
  · exact absurd ⟨r, hr, hconv, hlt, hopen _ h⟩ (hdb.head r' hr' h')
  · exact heq
  · exact absurd ⟨r', hr', hconv.symm, hgt, hopen _ h'⟩ (hdb.head r hr h)

theorem Ordered.executing_length_le (hdb : Ordered db) (conversationId : String) :
    (db.requests.filter
      (fun r => r.conversationId = conversationId ∧ r.status.Executing)).length ≤ 1 := by
  by_contra hlong
  have hasc := hdb.ascending.filter
    (fun r => decide (r.conversationId = conversationId ∧ r.status.Executing))
  generalize hrows : db.requests.filter
    (fun r => decide (r.conversationId = conversationId ∧ r.status.Executing)) = rows at hlong hasc
  match rows, hlong, hasc with
  | [], hlong, _ => simp at hlong
  | [a], hlong, _ => simp at hlong
  | a :: b :: rest, _, hasc =>
    have hab : a.admissionOrder < b.admissionOrder :=
      (pairwise_cons.mp hasc).1 b mem_cons_self
    have hmem (x : DirectTurnRequestRow) (hx : x ∈ a :: b :: rest) :
        x ∈ db.requests ∧ x.conversationId = conversationId ∧ x.status.Executing := by
      rw [← hrows, mem_filter, decide_eq_true_eq] at hx
      exact hx
    obtain ⟨ha, hca, hea⟩ := hmem a mem_cons_self
    obtain ⟨hb, hcb, heb⟩ := hmem b (mem_cons_of_mem _ mem_cons_self)
    have := hdb.executing_unique ha hb (hca.trans hcb.symm) hea heb
    omega

theorem Ordered.find_eq (hdb : Ordered db) (hr : r ∈ db.requests) :
    db.find r.requestId = some r := by
  unfold Database.find
  have hsome : (db.requests.find? (fun x => decide (x.requestId = r.requestId))).isSome = true := by
    rw [find?_isSome]
    exact ⟨r, hr, by simp⟩
  obtain ⟨x, hx⟩ := Option.isSome_iff_exists.mp hsome
  have hxid : x.requestId = r.requestId := by simpa using find?_some hx
  have heq : x = r := inj_on_of_nodup_map hdb.distinct (mem_of_find?_eq_some hx) hr hxid
  rw [hx, heq]

theorem settled_run (hdb : Ordered db) (hr : r ∈ db.requests) (ht : r.status.Terminal)
    (es : List Event) :
    ∃ r', (run (step c) db es).find r.requestId = some r' ∧ r'.status = r.status := by
  have hkept : ∃ r' ∈ (run (step c) db es).requests,
      r'.requestId = r.requestId ∧ r'.status = r.status := by
    apply run_invariant (fun db' : Database => ∃ r' ∈ db'.requests,
      r'.requestId = r.requestId ∧ r'.status = r.status) _ ⟨r, hr, rfl, rfl⟩
    intro db' e ⟨r', hr', hid, hstatus⟩
    refine ⟨e.call.after c (db'.wait e.elapsed) r', ?_, ?_, ?_⟩
    · exact mem_perform_requests.mpr (.inl ⟨r', hr', rfl⟩)
    · rw [after_requestId, hid]
    · rw [after_status_of_terminal (hstatus ▸ ht), hstatus]
  obtain ⟨r', hr', hid, hstatus⟩ := hkept
  refine ⟨r', ?_, hstatus⟩
  rw [← hid]
  exact (hdb.run es).find_eq hr'

end

/-- In every state the store reaches, whoever calls what and when: one request of
a conversation executes at a time; a call that takes a request into `claimed`
found every earlier request of its conversation settled; a settled request is
final; and a call with a lease that is not the current lease of a request's
conversation does not change that request. -/
theorem turn_execution_exclusive (c : Codec) (leases : LeaseStore) (nextAdmissionOrder : Nat)
    (audits : List String) (es : List Event) :
    let db := run (step c) (Database.initial leases nextAdmissionOrder audits) es
    (∀ conversationId, (db.requests.filter
      (fun r => r.conversationId = conversationId ∧
        (r.status = .claimed ∨ r.status = .running))).length ≤ 1) ∧
    (∀ e : Event, (∀ r ∈ db.requests, r.status ≠ .claimed →
        (e.call.after c (db.wait e.elapsed) r).status = .claimed → ¬ db.HasOpenPredecessor r) ∧
      (∀ r, e.call.inserted c (db.wait e.elapsed) = some r → r.status = .queued)) ∧
    (∀ r ∈ db.requests, r.status.Terminal → ∀ fs : List Event,
      ∃ r', (run (step c) db fs).find r.requestId = some r' ∧ r'.status = r.status) ∧
    (∀ (e : Event) (l : Lease), e.call.lease = some l → ∀ r ∈ db.requests,
      ¬ (l.resourceKey = conversationLeaseKey r.conversationId ∧
        (db.wait e.elapsed).leases.isCurrent l = true) →
      e.call.after c (db.wait e.elapsed) r = r) := by
  intro db
  have hdb : Ordered db := (ordered_initial leases nextAdmissionOrder audits).run es
  refine ⟨?_, ?_, ?_, ?_⟩
  · intro conversationId
    exact hdb.executing_length_le conversationId
  · intro e
    refine ⟨?_, fun r hnew => (inserted_spec hnew).1⟩
    intro r hr _ hclaimed hpred
    rcases after_executing (.inl hclaimed) with hwas | ⟨-, hfifo⟩
    · exact hdb.head r hr hwas hpred
    · exact hfifo hpred
  · intro r hr ht fs
    exact settled_run hdb hr ht fs
  · intro e l hl r _ hnot
    exact after_eq_of_not_current hl hnot

def plainCodec : Codec where
  isoformat t := toString t
  fromisoformat s := s.toInt?
  canonicalHash
    | .obj m => String.intercalate "," (m.map Prod.fst)
    | _ => ""
  validatedPayload p _ := some p
  evidenceAdmitted _ := false
  auditDigest actor request transaction := actor ++ "/" ++ request ++ "/" ++ transaction

/-- An admission of one message to conversation `c`. -/
def sampleAdmission (requestId turnId : String) : Admission :=
  { conversationId := "c", sessionId := none, agentId := "agent", userId := "user",
    idempotencyScope := "web", idempotencyKey := requestId, payload :=
      [("schema_version", .num "1")],
    requestId := requestId, turnId := turnId }

def sampleLease (owner : String) (token : Nat) : Lease :=
  ⟨"direct-turn:conversation:c", owner, token, 0⟩

def claimedFirst : List Event :=
  [⟨1, .admitRequest (sampleAdmission "r1" "t1")⟩, ⟨1, .admitRequest (sampleAdmission "r2" "t2")⟩,
    ⟨1, .leaseCall (.acquire "direct-turn:conversation:c" "a:1" 60)⟩,
    ⟨1, .claim "r1" (sampleLease "a:1" 1) "a" "1" none⟩]

/-- With the first of two messages claimed, a claim of the second under a fence
that was never granted leaves it queued. -/
theorem turn_execution_exclusive_second :
    let db := run (step plainCodec) Database.empty claimedFirst
    db.requests.map (fun r => (r.requestId, r.status)) = [("r1", .claimed), ("r2", .queued)] ∧
    ∀ r ∈ db.requests,
      (Call.claim "r2" (sampleLease "b:1" 2) "b" "1" none).after plainCodec (db.wait 1) r = r := by
  refine ⟨by decide, ?_⟩
  intro r hr
  have h := (turn_execution_exclusive plainCodec LeaseStore.empty 1 [] claimedFirst).2.2.2
  exact h ⟨1, .claim "r2" (sampleLease "b:1" 2) "b" "1" none⟩ (sampleLease "b:1" 2) rfl r hr
    (fun hcurrent => absurd hcurrent.2 (by decide))

end Cognis.DirectTurn
