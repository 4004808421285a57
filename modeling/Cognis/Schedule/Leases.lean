import Cognis.Schedule.Steps

namespace Cognis.Schedule

open Coordination List Option

/-! The leases of the activities: every one is of the schedule, none is past the
fence, and no two activities hold the same fence. -/

def Stage.lease : Stage → Option Lease
  | .fireAcquired l | .fireUnset l | .fireInitialising l _ | .fireReread l | .fireReady l _
  | .fireReplaced l _ | .fireLooking l _ | .fireDispatching l _ | .fireReconciling l _
  | .fireMarking l _ | .fireAdvancing l _ _ _ | .fireDeleting l _ _ | .fireFailing l _ _
  | .fireSettlingFailure l _ _ _ | .manualReady l | .manualLooking l _ | .manualDispatching l _
  | .manualLinking l _ _ | .manualReconciling l _ _ | .manualActivating l _ _
  | .manualSubmitting l _ _ | .manualSettling l _ | .manualFailing l _ _
  | .manualMarkingFailed l _ _ | .backlogAcquired l _ | .backlogAdvancing l _ _ _
  | .releasing l => some l
  | .terminalReceived .. | .terminalTask .. | .terminalKind .. | .terminalRead ..
  | .projectingManual .. | .projectingRecurring .. | .backlogListed .. => none

/-- The two activities do not hold the same fence. -/
def Stage.Apart (a b : Stage) : Prop :=
  ∀ l l', a.lease = some l → b.lease = some l' → l.fencingToken ≠ l'.fencingToken

theorem Stage.Apart.symm (a b : Stage) (h : a.Apart b) : b.Apart a :=
  fun l l' hl hl' heq => h l' l hl' hl heq.symm

def Keyed (sc : Scheduler) (leases : LeaseStore) (l : Lease) : Prop :=
  l.resourceKey = sc.leaseKey ∧ l.fencingToken ≤ fence (leases.rows sc.leaseKey)

/-- The activities' leases are of the schedule, and no two are the same. -/
structure System.Leased (sc : Scheduler) (s : System) : Prop where
  keyed : ∀ stage ∈ s.activities, ∀ l, stage.lease = some l → Keyed sc s.db.leases l
  apart : s.activities.Pairwise Stage.Apart

section

variable {sc : Scheduler} {db : Database} {reply : Reply} {stage stage' : Stage} {l : Lease}

theorem Stage.afterClaim_lease (l : Lease) (c : ScheduleFireClaim) :
    (Stage.afterClaim l c).lease = some l := by
  unfold Stage.afterClaim
  split
  · rfl
  · split <;> rfl

theorem Stage.afterManualClaim_lease (l : Lease) (c : ScheduleFireClaim) :
    (Stage.afterManualClaim l c).lease = some l := by
  unfold Stage.afterManualClaim
  split
  · rfl
  · split <;> rfl

theorem Stage.next_lease {choice : Choice} (h : stage.next sc db reply choice = some stage')
    (hl : stage'.lease = some l) :
    stage.lease = some l ∨ (∃ ownerId now, stage = .backlogListed ownerId now) ∧ choice = .proceed ∧
        reply.lease = some l := by
  cases choice with
  | leaseLost =>
    left
    cases stage <;> cases h <;> exact hl
  | raises | raisesCommitted =>
    left
    simp only [Stage.next] at h
    cases stage <;> simp only [Stage.raised, reduceCtorEq] at h <;>
      first
      | (cases h; exact hl)
      | (split at h <;> cases h <;> exact hl)
  | proceed =>
    simp only [Stage.next] at h
    cases stage with
    | fireReady =>
      left
      simp only [Stage.proceed] at h
      split at h
      · cases h
        exact hl
      · split at h
        · cases h
          rw [Stage.afterClaim_lease] at hl
          exact hl
        · cases h
          exact hl
    | fireReplaced =>
      left
      simp only [Stage.proceed] at h
      split at h
      · cases h
        rw [Stage.afterClaim_lease] at hl
        exact hl
      · cases h
        exact hl
    | manualReady =>
      left
      simp only [Stage.proceed] at h
      split at h
      · cases h
        exact hl
      · cases h
        rw [Stage.afterManualClaim_lease] at hl
        exact hl
    | backlogListed ownerId now =>
      right
      obtain ⟨lease, hlease, rfl⟩ := map_eq_some_iff.mp h
      cases hl
      exact ⟨⟨ownerId, now, rfl⟩, rfl, hlease⟩
    | terminalReceived =>
      obtain ⟨task, -, rfl⟩ := map_eq_some_iff.mp h
      cases hl
    | _ =>
      left
      simp only [Stage.proceed, reduceCtorEq] at h
      repeat' split at h
      all_goals
        first
        | (cases h; exact hl)
        | cases h

end

section

theorem acquire_resourceKey {store : LeaseStore} {key ownerId : String} {ttl : Int} {l : Lease}
    (h : (store.perform (.acquire key ownerId ttl)).2 = some l) : l.resourceKey = key := by
  simp only [LeaseStore.perform, LeaseStore.acquire, LeaseStore.acquireInSession] at h
  split at h
  · cases h
    rfl
  · split at h
    · cases h
      rfl
    · cases h

variable {sc : Scheduler} {s : System} {e : Event} {l : Lease}

theorem System.granted {ownerId : String}
    (hcall : s.call sc e.action = some (.lease (.acquire sc.leaseKey ownerId fireLease)))
    (hl : (s.outcome sc e).2.lease = some l) :
    l.resourceKey = sc.leaseKey ∧ l.fencingToken = fence (s.db.leases.rows sc.leaseKey) + 1 ∧
      l.fencingToken = fence ((s.step sc e).db.leases.rows sc.leaseKey) := by
  have hstore : (s.step sc e).db.leases =
      ((s.found e).leases.perform (.acquire sc.leaseKey ownerId fireLease)).1 := by
    rw [System.step_db, System.outcome, hcall]
    rfl
  rw [System.outcome, hcall] at hl
  have hgranted : ((s.found e).leases.perform (.acquire sc.leaseKey ownerId fireLease)).2 =
      some l := hl
  have hkey : l.resourceKey = sc.leaseKey := acquire_resourceKey hgranted
  obtain ⟨hrow, htoken⟩ := perform_returned hgranted
  rw [hkey] at hrow htoken
  refine ⟨hkey, htoken, ?_⟩
  rw [hstore, hrow]
  rfl

theorem System.fence_le_step (sc : Scheduler) (s : System) (e : Event) (key : String) :
    fence (s.db.leases.rows key) ≤ fence ((s.step sc e).db.leases.rows key) := by
  rw [System.step_db, System.outcome]
  cases s.call sc e.action with
  | none => exact le_refl _
  | some call => exact (perform_leaseRow sc (s.found e) call key).fence_le

/-- A lease at or below the fence that is current after a step was so when the
step found the tables. -/
theorem System.isCurrent_found (hfence : l.fencingToken ≤ fence (s.db.leases.rows l.resourceKey))
    (h : (s.step sc e).db.leases.isCurrent l) : (s.found e).leases.isCurrent l := by
  rw [System.step_db, System.outcome] at h
  cases hcall : s.call sc e.action with
  | none =>
    rw [hcall] at h
    exact h
  | some =>
    rw [hcall] at h
    exact isCurrent_before hfence h

theorem System.isCurrent_of_found (h : (s.found e).leases.isCurrent l) :
    s.db.leases.isCurrent l := by
  rw [isCurrent_iff] at h ⊢
  obtain ⟨row, hrow, hholds, hlive⟩ := h
  have hnow : (s.found e).leases.now = s.db.leases.now + e.elapsed := rfl
  exact ⟨row, hrow, hholds, by omega⟩

theorem System.Leased.step (h : s.Leased sc) (e : Event) : (s.step sc e).Leased sc := by
  have hfence := System.fence_le_step sc s e sc.leaseKey
  have hkept : ∀ stage ∈ s.activities, ∀ l, stage.lease = some l →
      Keyed sc (s.step sc e).db.leases l := by
    intro stage hstage l hl
    obtain ⟨hkey, hle⟩ := h.keyed stage hstage l hl
    exact ⟨hkey, le_trans hle hfence⟩
  -- a lease granted by this step is past every lease held before it
  have hfresh : ∀ l : Lease, l.fencingToken = fence (s.db.leases.rows sc.leaseKey) + 1 →
      ∀ stage ∈ s.activities, ∀ l', stage.lease = some l' → l'.fencingToken ≠ l.fencingToken := by
    intro l hl stage hstage l' hl'
    have hle := (h.keyed stage hstage l' hl').2
    omega
  constructor
  · intro stage hstage l hl
    obtain ⟨j, hj, -⟩ | ⟨ownerId, l', hcall, hl', hnew⟩ | ⟨_, _, rfl⟩ | ⟨_, rfl⟩ |
      ⟨i, choice, from_, haction, hi, hnext⟩ := System.origin hstage
    · exact hkept stage (mem_of_getElem? hj) l hl
    · obtain ⟨hkey, -, htoken⟩ := System.granted hcall hl'
      have hll : l' = l := by
        rcases hnew with rfl | rfl <;> exact some.inj hl
      subst hll
      exact ⟨hkey, le_of_eq htoken⟩
    · cases hl
    · cases hl
    · rcases Stage.next_lease hnext hl with hold | ⟨⟨ownerId, now, rfl⟩, rfl, hl'⟩
      · exact hkept from_ (mem_of_getElem? hi) l hold
      · have hcall := System.call_of_advance sc haction hi
        obtain ⟨hkey, -, htoken⟩ := System.granted hcall hl'
        exact ⟨hkey, le_of_eq htoken⟩
  · change (s.activitiesAfter sc (s.found e) (s.outcome sc e).2 e.action).Pairwise Stage.Apart
    have hadded : ∀ new : Stage, (∀ l, new.lease = some l →
        l.fencingToken = fence (s.db.leases.rows sc.leaseKey) + 1) →
        (s.activities ++ [new]).Pairwise Stage.Apart := by
      intro new hnew
      rw [pairwise_append]
      refine ⟨h.apart, pairwise_singleton _ _, ?_⟩
      intro stage hstage other hother l l' hl hl'
      rw [mem_singleton.mp hother] at hl'
      exact hfresh l' (hnew l' hl') stage hstage l hl
    cases haction : e.action with
    | fire ownerId | trigger ownerId =>
      cases hl : (s.outcome sc e).2.lease with
      | none => simpa [System.activitiesAfter, hl] using h.apart
      | some l =>
        have hcall : s.call sc e.action =
            some (.lease (.acquire sc.leaseKey ownerId fireLease)) := by
          rw [haction]
          rfl
        have htoken := (System.granted hcall hl).2.1
        simp only [System.activitiesAfter, hl, map_some, toList_some]
        apply hadded
        intro l' hl'
        rw [← some.inj hl']
        exact htoken
    | terminalEvent | skipBacklog =>
      apply hadded
      intro l hl
      cases hl
    | initialise | moveTask | lease => exact h.apart
    | crash i => exact h.apart.sublist (eraseIdx_sublist _ _)
    | advance =>
      simp only [System.activitiesAfter]
      split
      · exact h.apart
      · rename_i from_ hi
        apply Pool.pairwise_update Stage.Apart.symm h.apart
        intro stage hnext j other hji hj l l' hl hl'
        rcases Stage.next_lease hnext hl with hold | ⟨⟨ownerId, now, rfl⟩, rfl, hgrant⟩
        · exact Pool.rel_of_ne Stage.Apart.symm h.apart (Ne.symm hji) hi hj l l' hold hl'
        · have hcall := System.call_of_advance sc haction hi
          have htoken := (System.granted hcall hgrant).2.1
          exact (hfresh l htoken other (mem_of_getElem? hj) l' hl').symm

end

/-- However controllers fire and trigger the schedule, crash and lose their leases: an occurrence
has one fire and one task, which is launched once its outcome is counted, and no two activities
hold the same fence. -/
theorem occurrences_fire_once (sc : Scheduler) (schedule : ScheduleRow) (leases : LeaseStore)
    (es : List Event) :
    let s := Runs.run (System.step sc) ⟨.fresh schedule leases, []⟩ es
    (s.db.tasks.map (·.taskId)).Nodup ∧
      (s.db.fires.map fun f => (f.fireKind, f.scheduledFireAt)).Nodup ∧
      (∀ f ∈ s.db.fires, (∀ t, f.taskId = some t → t = (f.fireKind, f.scheduledFireAt)) ∧
        (f.settled = true → f.status ≠ .claimed ∧ Launched s.db (f.fireKind, f.scheduledFireAt))) ∧
      s.activities.Pairwise Stage.Apart := by
  intro s
  have h : s.Sound := Runs.run_invariant System.Sound (fun s e hs => hs.step e)
    (.fresh schedule leases) es
  have hleased : s.Leased sc := by
    refine Runs.run_invariant (System.Leased sc) (fun s e hs => hs.step e) ⟨?_, Pairwise.nil⟩ es
    intro stage hstage
    cases hstage
  have hids := h.fireIds
  rw [map_congr_left fun f hf => (h.fires f hf).fireId] at hids
  refine ⟨h.taskIds, hids, ?_, hleased.apart⟩
  intro f hf
  have hfire := h.fires f hf
  rw [← hfire.fireId]
  exact ⟨hfire.taskId, hfire.settled⟩

end Cognis.Schedule
