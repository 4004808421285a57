import Cognis.DirectTurn.ToolRecovery

namespace Cognis.DirectTurn

open Coordination JsonValue Option Runs

def Runtime.afterRow (c : Codec) (rt : Runtime) (e : RuntimeEvent) (r : DirectTurnRequestRow) :
    DirectTurnRequestRow :=
  match rt.call e.action with
  | some call => call.after c (rt.db.wait e.elapsed) r
  | none => r

/-- An empty request table and no controller at work. -/
def Runtime.initial (leases : LeaseStore) (nextAdmissionOrder : Nat) (audits : List String) :
    Runtime :=
  ⟨Database.initial leases nextAdmissionOrder audits, [], []⟩

theorem runtimeSound_initial (leases : LeaseStore) (nextAdmissionOrder : Nat)
    (audits : List String) : RuntimeSound (Runtime.initial leases nextAdmissionOrder audits) := by
  constructor
  · intro r hr
    cases hr
  · intro a ha
    cases ha

section

variable {c : Codec} {db : Database} {call : Call} {r : DirectTurnRequestRow} {v : RowValues}

theorem Move.of_active (h : Move db call r v) (hactive : r.status.Active) :
    (r.assign v).status.Active ∨ (r.assign v).status.Terminal ∨
      ((r.assign v).status = .recoverable ∧ call.requeues = some r.requestId) := by
  cases h with
  | keep hstatus =>
    left
    rw [assign_status, hstatus]
    exact hactive
  | cancel hopen hv =>
    have hnot :
      ¬ r.status.Claimable := fun hi => DirectTurnStatus.not_active_of_claimable hi hactive
    subst hv
    left
    rw [cancelValues_status, if_neg hnot]
    exact hactive
  | claim hidle | absorb hidle =>
    exact absurd hactive (DirectTurnStatus.not_active_of_claimable hidle)
  | start hclaimed hstatus =>
    left
    rw [assign_status, hstatus]
    exact .inr (.inl rfl)
  | settle _ t hterminal hstatus =>
    right
    left
    rw [assign_status, hstatus]
    exact hterminal
  | requeue _ hstatus _ hcall =>
    right
    right
    rw [assign_status, hstatus]
    exact ⟨rfl, hcall⟩

theorem not_inFlight_of_phaseText {o : Members} (h : phaseText o ≠ toolInFlightPhase) :
    ¬ InFlight o := by
  intro hflight
  apply h
  unfold phaseText
  rw [hflight]
  rfl

theorem requeue_of_live {rt : Runtime} {e : RuntimeEvent} (hrt : RuntimeSound rt)
    (hidle : RequeuesIdle c rt e) (hcall : rt.call e.action = some call) (hr : r ∈ rt.db.requests)
    (hactive : r.status.Active) (hlive : HasLiveGroup r)
    (heffect : (call.values c (rt.db.wait e.elapsed) r).isSome = true)
    (hrequeues : call.requeues = some r.requestId) :
    ∃ lease outcome, call = .finishToolRecovery r.requestId lease outcome ∧
      (r.requestId, lease) ∈ rt.handled := by
  have hexit := hidle.exits call hcall r hr heffect
  have hnotQuiet : ¬ Quiet r.outcomeDict := fun hq => hq.not_hasLiveGroup hlive
  have hsome : call.requeues.isSome = true := by rw [hrequeues]; rfl
  rcases action_call hcall with ⟨stage, hacq, hclr, hkind⟩ | ⟨index, choice, a, haction, ha, hkind⟩
  · cases hkind with
    | other _ _ hkeeps => rw [hkeeps] at hrequeues; cases hrequeues
    | exit _ htidy => exact absurd ((htidy r hexit).2 hsome) hnotQuiet
    | stale row lease found hstage => exact absurd hstage (hacq row lease)
    | finish row lease o hstage => exact absurd hstage (hclr row lease o)
  · cases hkind with
    | other _ _ hkeeps => rw [hkeeps] at hrequeues; cases hrequeues
    | exit _ htidy => exact absurd ((htidy r hexit).2 hsome) hnotQuiet
    | stale row lease found hstage hphase =>
      -- the listed row was past the in-flight branch, and the request still is that row
      have hout :=
        hidle.listed index choice a row lease _ haction ha hstage hcall hsome r hr heffect
      have hdict : r.outcomeDict = row.outcomeDict := by
        unfold DirectTurnRequestRow.outcomeDict
        rw [hout]
      rcases (hrt.tidy r hr).active hactive with hquiet | hflight
      · exact absurd hquiet hnotQuiet
      · exact absurd (hdict ▸ hflight) (not_inFlight_of_phaseText hphase)
    | finish row lease o hstage =>
      have hsound := hrt.stages a (List.mem_of_getElem? ha)
      rw [hstage] at hsound
      have hid : row.requestId = r.requestId := some.inj hrequeues
      have hhandled : (row.requestId, lease) ∈ rt.handled := hsound.1
      rw [hid] at hhandled ⊢
      exact ⟨lease, _, rfl, hhandled⟩

end

/-- In every run in which executions exit idle and stale recovery requeues what
it listed: a request with a live dispatch group that leaves its active status
settles, unless the step is `finish_tool_recovery` under the lease its recovery
handler completed under. -/
theorem no_blind_reexecution (c : Codec) (leases : LeaseStore) (nextAdmissionOrder : Nat)
    (audits : List String) (es : List RuntimeEvent)
    (hidle : Meets (Runtime.step c) (RequeuesIdle c)
      (Runtime.initial leases nextAdmissionOrder audits) es) :
    ∀ (pre : List RuntimeEvent) (e : RuntimeEvent), pre ++ [e] <+: es →
      let rt := run (Runtime.step c) (Runtime.initial leases nextAdmissionOrder audits) pre
      ∀ r ∈ rt.db.requests, r.status.Active → HasLiveGroup r →
        ((rt.afterRow c e r).status = .recoverable →
          ∃ lease outcome, rt.call e.action = some (.finishToolRecovery r.requestId lease outcome) ∧
            (r.requestId, lease) ∈ rt.handled) ∧
        ((rt.afterRow c e r).status ≠ .recoverable →
          (rt.afterRow c e r).status.Active ∨ (rt.afterRow c e r).status.Terminal) := by
  intro pre e hprefix rt r hr hactive hlive
  obtain ⟨rest, rfl⟩ := hprefix
  rw [List.append_assoc, meets_append] at hidle
  obtain ⟨hpre, he, -⟩ := hidle
  have hrt : RuntimeSound rt :=
    run_invariant_of_meets RuntimeSound (fun _ _ h hi => h.step hi)
      (runtimeSound_initial leases nextAdmissionOrder audits) hpre
  unfold Runtime.afterRow
  cases hcall : rt.call e.action with
  | none =>
    simp only
    exact ⟨fun h => absurd (h ▸ hactive) (by decide), fun _ => .inl hactive⟩
  | some call =>
    simp only
    cases hv : call.values c (rt.db.wait e.elapsed) r with
    | none =>
      rw [Call.after, hv]
      exact ⟨fun h => absurd (h ▸ hactive) (by decide), fun _ => .inl hactive⟩
    | some v =>
      have hafter : call.after c (rt.db.wait e.elapsed) r = r.assign v := by
        rw [Call.after, hv]
        rfl
      rw [hafter]
      rcases (values_move hv).of_active hactive with hstays | hsettles | ⟨hrec, hrequeues⟩
      · exact ⟨fun h => absurd (h ▸ hstays) (by decide), fun _ => .inl hstays⟩
      · exact ⟨fun h => absurd (h ▸ hsettles) (by decide), fun _ => .inr hsettles⟩
      · refine ⟨fun _ => ?_, fun h => absurd hrec h⟩
        obtain ⟨lease, outcome, hfinish, hhandled⟩ := requeue_of_live hrt he hcall hr hactive hlive
          (by rw [hv]; rfl) hrequeues
        exact ⟨lease, outcome, by rw [hfinish], hhandled⟩

def NoRequeue (rt : Runtime) (e : RuntimeEvent) : Prop :=
  (rt.call e.action).all (fun call => call.requeues.isNone) = true

instance (rt : Runtime) (e : RuntimeEvent) : Decidable (NoRequeue rt e) :=
  inferInstanceAs (Decidable (_ = true))

theorem requeuesIdle_of_noRequeue (c : Codec) (rt : Runtime) (e : RuntimeEvent)
    (h : NoRequeue rt e) : RequeuesIdle c rt e := by
  have hnone (call : Call) (hcall : rt.call e.action = some call) : call.requeues = none := by
    rw [NoRequeue, hcall, all_some, isNone_iff_eq_none] at h
    exact h
  constructor
  · intro call hcall r _ _
    have hkeeps := hnone call hcall
    cases call with
    | markRecoverable requestId lease outcome
    | settleTransientFailure =>
      cases hkeeps
    | _ => trivial
  · intro index choice a row lease call _ _ _ hcall hrequeues
    rw [hnone call hcall] at hrequeues
    cases hrequeues

def batchInFlight : List RuntimeEvent :=
  [⟨1, .external (.admitRequest (sampleAdmission "r1" "t1"))⟩,
    ⟨1, .external (.leaseCall (.acquire "direct-turn:conversation:c" "a:1" 60))⟩,
    ⟨1, .claim "a" "1" "r1" (sampleLease "a:1" 1)⟩,
    ⟨1, .advance 0 .proceed⟩,
    ⟨1, .advance 0 (.store (.markRunning "r1" (sampleLease "a:1" 1)))⟩,
    ⟨1, .advance 0 (.fence (.recordToolDispatch "s1" none [.obj [("call_id", .str "k1")]]))⟩]

/-- It crashes; another controller takes the lapsed lease and the recovery handler
finds the effect ambiguous. -/
def ambiguousRecovery : List RuntimeEvent :=
  batchInFlight ++ [⟨1, .crash 0⟩, ⟨60, .list "b" "1" "r1"⟩, ⟨1, .advance 0 .proceed⟩,
    ⟨1, .advance 0 .proceed⟩, ⟨1, .advance 0 (.handlerFails (some true) "lost")⟩]

theorem no_blind_reexecution_ambiguous :
    let rt := run (Runtime.step plainCodec)
      (Runtime.initial LeaseStore.empty 1 []) ambiguousRecovery
    ∃ r ∈ rt.db.requests, r.status.Active ∧ HasLiveGroup r ∧
      ((rt.afterRow plainCodec ⟨1, .advance 0 .proceed⟩ r).status = .ambiguous) ∧
      ((rt.afterRow plainCodec ⟨1, .advance 0 .proceed⟩ r).status.Active ∨
        (rt.afterRow plainCodec ⟨1, .advance 0 .proceed⟩ r).status.Terminal) := by
  intro rt
  have hmeets : Meets (Runtime.step plainCodec) (RequeuesIdle plainCodec)
      (Runtime.initial LeaseStore.empty 1 []) (ambiguousRecovery ++ [⟨1, .advance 0 .proceed⟩]) :=
    Meets.mono (requeuesIdle_of_noRequeue plainCodec) (by decide)
  have hrow : ∃ r ∈ rt.db.requests, r.status.Active ∧ HasLiveGroup r ∧
      (rt.afterRow plainCodec ⟨1, .advance 0 .proceed⟩ r).status = .ambiguous := by
    decide
  obtain ⟨r, hr, hactive, hlive, hstatus⟩ := hrow
  refine ⟨r, hr, hactive, hlive, hstatus, ?_⟩
  exact (no_blind_reexecution plainCodec LeaseStore.empty 1 [] _ hmeets ambiguousRecovery _
    List.prefix_rfl r hr hactive hlive).2 (by rw [hstatus]; decide)

/-- The callback raises with its batch in flight: the controller-error exit
returns the request to the queue. -/
theorem controller_error_requeues_in_flight :
    let rt := run (Runtime.step plainCodec) (Runtime.initial LeaseStore.empty 1 [])
      (batchInFlight ++ [⟨1, .advance 0 .raises⟩, ⟨1, .advance 0 .proceed⟩])
    ∃ r ∈ rt.db.requests, r.status.Active ∧ HasLiveGroup r ∧
      (rt.afterRow plainCodec ⟨1, .advance 0 .proceed⟩ r).status = .recoverable ∧
      ∀ lease outcome, rt.call (.advance 0 .proceed) ≠
        some (.finishToolRecovery r.requestId lease outcome) := by
  intro rt
  have hrow : ∃ r ∈ rt.db.requests, r.status.Active ∧ HasLiveGroup r ∧
      (rt.afterRow plainCodec ⟨1, .advance 0 .proceed⟩ r).status = .recoverable := by
    decide
  obtain ⟨r, hr, hactive, hlive, hstatus⟩ := hrow
  refine ⟨r, hr, hactive, hlive, hstatus, ?_⟩
  intro lease outcome hcall
  cases hcall

end Cognis.DirectTurn
