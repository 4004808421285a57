import Cognis.Coordination.Lease

namespace Cognis.Coordination

open List Option Runs

variable {ttl : Int} {es : List LeaseEvent}

namespace LeaseStore

variable (s : LeaseStore)

theorem perform_now (c : LeaseCall) : (s.perform c).1.now = s.now := by
  cases c with
  | acquire | acquireInSession =>
    simp only [perform, acquire, acquireInSession]
    split
    · rfl
    · split <;> rfl
  | takeover | isCurrent => rfl
  | renew =>
    simp only [perform, renew]
    split
    · rfl
    · split <;> rfl
  | release l =>
    simp only [perform, release]
    split
    · rfl
    · split <;> rfl
  | revoke key =>
    simp only [perform, revoke]
    split <;> rfl

theorem step_now (e : LeaseEvent) : (s.step e).now = s.now + e.elapsed :=
  perform_now _ _

theorem step_rowChange (e : LeaseEvent) (k : String) :
    RowChange (s.step e).now (s.rows k) ((s.step e).rows k) := by
  rw [step_now]
  exact perform_rowChange (s.wait e.elapsed) e.call k

end LeaseStore

theorem RowChange.fence_le {now : Int} {a b : Option CoordinationLeaseRow}
    (h : RowChange now a b) : fence a ≤ fence b := by
  cases h with
  | keep | extend | expire => exact le_refl _
  | advance old row hrow =>
    rw [fence_some, hrow]
    omega

section

variable {s : LeaseStore} {l : Lease}

theorem acquireInSession_returned {key ownerId : String}
    (h : (s.acquireInSession key ownerId ttl).2 = some l) :
    (s.acquireInSession key ownerId ttl).1.rows l.resourceKey =
      some ⟨l.ownerId, l.fencingToken, l.leaseExpiresAt⟩ ∧
    l.fencingToken = fence (s.rows l.resourceKey) + 1 := by
  unfold LeaseStore.acquireInSession at h ⊢
  cases hrow : s.rows key with
  | none =>
    simp only [hrow, some.injEq] at h ⊢
    subst h
    simp [LeaseStore.lease, hrow]
  | some old =>
    simp only [hrow] at h ⊢
    by_cases hfree : old.ownerId = ownerId ∨ old.leaseExpiresAt ≤ s.now
    · simp only [if_pos hfree, some.injEq] at h ⊢
      subst h
      simp [LeaseStore.lease, hrow]
    · simp [if_neg hfree] at h

theorem renew_returned {lease : Lease} (h : (s.renew lease ttl).2 = some l) :
    (s.renew lease ttl).1.rows l.resourceKey = some ⟨l.ownerId, l.fencingToken, l.leaseExpiresAt⟩ ∧
    l.fencingToken = fence (s.rows l.resourceKey) ∧
    l.ownerId = lease.ownerId ∧ l.fencingToken = lease.fencingToken := by
  unfold LeaseStore.renew at h ⊢
  cases hrow : s.rows lease.resourceKey with
  | none => simp [hrow] at h
  | some old =>
    simp only [hrow] at h ⊢
    by_cases hlive : LeaseStore.Holds old lease ∧ s.now < old.leaseExpiresAt
    · simp only [if_pos hlive, some.injEq] at h ⊢
      subst h
      exact ⟨by simp [LeaseStore.lease], by simp [LeaseStore.lease, hrow], hlive.1⟩
    · simp [if_neg hlive] at h

theorem perform_returned {c : LeaseCall} (h : (s.perform c).2 = some l) :
    (s.perform c).1.rows l.resourceKey = some ⟨l.ownerId, l.fencingToken, l.leaseExpiresAt⟩ ∧
    l.fencingToken = fence (s.rows l.resourceKey) + (if c.grants then 1 else 0) := by
  cases c with
  | acquire | acquireInSession => exact acquireInSession_returned h
  | takeover key =>
    simp only [LeaseStore.perform, some.injEq] at h
    subst h
    refine ⟨LeaseStore.put_rows_self .., ?_⟩
    simp only [LeaseStore.takeover, LeaseStore.lease, LeaseCall.grants, if_true]
    cases s.rows key <;> rfl
  | renew =>
    obtain ⟨hrow, hfence, -⟩ := renew_returned h
    exact ⟨hrow, hfence⟩
  | release | revoke | isCurrent => cases h

variable {key : String} {e : LeaseEvent}

theorem returned_fence (h : s.returned key e = some l) :
    l.resourceKey = key ∧ l.fencingToken = fence ((s.step e).rows key) ∧
    l.fencingToken = fence (s.rows key) + (if e.call.grants then 1 else 0) := by
  obtain ⟨hret, hkey⟩ := filter_eq_some_iff.mp h
  have hk : l.resourceKey = key := by simpa using hkey
  obtain ⟨hrow, htoken⟩ := perform_returned hret
  rw [hk] at hrow htoken
  exact ⟨hk, by rw [LeaseStore.step, hrow]; rfl, htoken⟩

end

variable {l : Lease} {s : LeaseStore}

theorem fence_lt_of_granted {key : String} (h : l ∈ leasesReturned LeaseCall.grants key s es) :
    fence (s.rows key) < l.fencingToken := by
  induction es generalizing s with
  | nil => simp [leasesReturned] at h
  | cons e es ih =>
    rw [leasesReturned, mem_append] at h
    rcases h with hhead | htail
    · by_cases hg : e.call.grants
      · rw [if_pos hg, mem_toList] at hhead
        have htoken := (returned_fence hhead).2.2
        rw [if_pos hg] at htoken
        omega
      · simp [if_neg hg] at hhead
    · have hmono := (LeaseStore.step_rowChange s e key).fence_le
      have hrest := ih htail
      omega

theorem fence_le_of_returned {key : String} (h : l ∈ leasesReturned (fun _ => true) key s es) :
    fence (s.rows key) ≤ l.fencingToken := by
  induction es generalizing s with
  | nil => simp [leasesReturned] at h
  | cons e es ih =>
    rw [leasesReturned, mem_append, if_pos rfl, mem_toList] at h
    rcases h with hhead | htail
    · have htoken := (returned_fence hhead).2.2
      omega
    · have hmono := (LeaseStore.step_rowChange s e key).fence_le
      have hrest := ih htail
      omega

theorem granted_increasing (key : String) (s : LeaseStore) (es : List LeaseEvent) :
    ((leasesReturned LeaseCall.grants key s es).map Lease.fencingToken).Pairwise (· < ·) := by
  rw [pairwise_map]
  induction es generalizing s with
  | nil => exact List.Pairwise.nil
  | cons e es ih =>
    rw [leasesReturned, pairwise_append]
    refine ⟨?_, ih (s.step e), ?_⟩
    · split
      · cases s.returned key e <;> simp
      · exact List.Pairwise.nil
    · intro l hl l' hl'
      by_cases hg : e.call.grants
      · rw [if_pos hg, mem_toList] at hl
        rw [(returned_fence hl).2.1]
        exact fence_lt_of_granted hl'
      · simp [if_neg hg] at hl

theorem returned_nondecreasing (key : String) (s : LeaseStore) (es : List LeaseEvent) :
    ((leasesReturned (fun _ => true) key s es).map Lease.fencingToken).Pairwise (· ≤ ·) := by
  rw [pairwise_map]
  induction es generalizing s with
  | nil => exact List.Pairwise.nil
  | cons e es ih =>
    rw [leasesReturned, pairwise_append]
    refine ⟨?_, ih (s.step e), ?_⟩
    · cases s.returned key e <;> simp
    · intro l hl l' hl'
      rw [if_pos rfl, mem_toList] at hl
      rw [(returned_fence hl).2.1]
      exact fence_le_of_returned hl'

/-- The pair can never be current again: the fence is past it, or it stands at
the fence under another owner or expired. -/
def Dead (s : LeaseStore) (key ownerId : String) (token : Nat) : Prop :=
  ∃ row, s.rows key = some row ∧ token ≤ row.fencingToken ∧
    (row.fencingToken = token → row.ownerId = ownerId → row.leaseExpiresAt ≤ s.now)

section

variable {s : LeaseStore} {key ownerId : String} {token : Nat}

theorem isCurrent_iff : s.isCurrent l ↔
    ∃ row, s.rows l.resourceKey = some row ∧ LeaseStore.Holds row l ∧
      s.now < row.leaseExpiresAt := by
  unfold LeaseStore.isCurrent
  cases s.rows l.resourceKey <;> simp

theorem Dead.step (h : Dead s key ownerId token) (e : LeaseEvent) :
    Dead (s.step e) key ownerId token := by
  obtain ⟨row, hrow, hle, hexp⟩ := h
  have hnow : s.now ≤ (s.step e).now := by rw [LeaseStore.step_now]; omega
  have hchange := LeaseStore.step_rowChange s e key
  rw [hrow] at hchange
  generalize hafter : (s.step e).rows key = after at hchange
  cases hchange with
  | keep => exact ⟨row, hafter, hle, fun ht ho => le_trans (hexp ht ho) hnow⟩
  | advance old new hnew =>
    rw [fence_some] at hnew
    exact ⟨new, hafter, by omega, fun ht => by omega⟩
  | extend =>
    -- a renewal needs an unexpired row, so it is not this pair's
    refine ⟨_, hafter, hle, ?_⟩
    intro ht ho
    have := hexp ht ho
    omega
  | expire old => exact ⟨_, hafter, hle, fun _ _ => le_refl _⟩

theorem Dead.run (h : Dead s key ownerId token) (es : List LeaseEvent) :
    Dead (run LeaseStore.step s es) key ownerId token :=
  run_invariant (fun s' => Dead s' key ownerId token) (fun _ e hs => hs.step e) h es

theorem Dead.not_isCurrent (h : Dead s l.resourceKey l.ownerId l.fencingToken) :
    s.isCurrent l = false := by
  rw [Bool.eq_false_iff, ne_eq, isCurrent_iff]
  rintro ⟨row, hrow, ⟨howner, htoken⟩, hlive⟩
  obtain ⟨row', hrow', -, hexp⟩ := h
  have : row' = row := some.inj (hrow'.symm.trans hrow)
  subst this
  have := hexp htoken howner
  omega

theorem fence_le_run (s : LeaseStore) (key : String) (es : List LeaseEvent) :
    fence (s.rows key) ≤ fence ((run LeaseStore.step s es).rows key) := by
  apply run_invariant (fun s' : LeaseStore => fence (s.rows key) ≤ fence (s'.rows key)) _
    (le_refl _)
  intro s' e hs
  exact le_trans hs (LeaseStore.step_rowChange s' e key).fence_le

theorem row_isSome_run {row : CoordinationLeaseRow} (h : s.rows key = some row)
    (es : List LeaseEvent) : ∃ row', (run LeaseStore.step s es).rows key = some row' := by
  apply run_invariant (fun s' : LeaseStore => ∃ row', s'.rows key = some row') _ ⟨row, h⟩
  intro s' e ⟨row', hrow'⟩
  have hchange := LeaseStore.step_rowChange s' e key
  rw [hrow'] at hchange
  generalize (s'.step e).rows key = after at hchange
  cases hchange <;> exact ⟨_, rfl⟩

theorem dead_of_stopped (hwas : s.isCurrent l)
    (hnot : (run LeaseStore.step s es).isCurrent l = false) :
    Dead (run LeaseStore.step s es) l.resourceKey l.ownerId l.fencingToken := by
  obtain ⟨row, hrow, ⟨-, htoken⟩, -⟩ := isCurrent_iff.mp hwas
  obtain ⟨row', hrow'⟩ := row_isSome_run hrow es
  have hfence := fence_le_run s l.resourceKey es
  rw [hrow, hrow', fence_some, fence_some, htoken] at hfence
  refine ⟨row', hrow', hfence, ?_⟩
  intro ht ho
  rw [Bool.eq_false_iff, ne_eq, isCurrent_iff] at hnot
  by_contra hlive
  exact hnot ⟨row', hrow', ⟨ho, ht⟩, by omega⟩

end

theorem isCurrent_unique {l l' : Lease} (hkey : l.resourceKey = l'.resourceKey) (h : s.isCurrent l)
    (h' : s.isCurrent l') :
    l.ownerId = l'.ownerId ∧ l.fencingToken = l'.fencingToken := by
  obtain ⟨row, hrow, ⟨howner, htoken⟩, -⟩ := isCurrent_iff.mp h
  obtain ⟨row', hrow', ⟨howner', htoken'⟩, -⟩ := isCurrent_iff.mp h'
  rw [hkey, hrow'] at hrow
  have : row' = row := some.inj hrow
  subst this
  exact ⟨howner.symm.trans howner', htoken.symm.trans htoken'⟩

/-- Whatever the calls and their order: the fences granted for a resource grow
strictly, a renewal hands out the pair its caller came with and no call a fence
below an earlier one, one pair is current at a time, and a pair that stopped
being current stays so. -/
theorem lease_fencing (s : LeaseStore) (key : String) (es : List LeaseEvent) :
    ((leasesReturned LeaseCall.grants key s es).map Lease.fencingToken).Pairwise (· < ·) ∧
    ((leasesReturned (fun _ => true) key s es).map Lease.fencingToken).Pairwise (· ≤ ·) ∧
    (∀ (l l' : Lease) (elapsed : Nat) (ttl : Int),
      (run LeaseStore.step s es).returned key ⟨elapsed, .renew l ttl⟩ = some l' →
      l'.ownerId = l.ownerId ∧ l'.fencingToken = l.fencingToken) ∧
    (∀ l l' : Lease, l.resourceKey = key → l'.resourceKey = key →
      (run LeaseStore.step s es).isCurrent l →
      (run LeaseStore.step s es).isCurrent l' →
      l.ownerId = l'.ownerId ∧ l.fencingToken = l'.fencingToken) ∧
    (∀ (l : Lease) (fs gs : List LeaseEvent), l.resourceKey = key →
      (run LeaseStore.step s es).isCurrent l →
      (run LeaseStore.step s (es ++ fs)).isCurrent l = false →
      (run LeaseStore.step s (es ++ fs ++ gs)).isCurrent l = false) := by
  refine ⟨granted_increasing key s es, returned_nondecreasing key s es, ?_, ?_, ?_⟩
  · intro l l' elapsed ttl h
    exact (renew_returned (filter_eq_some_iff.mp h).1).2.2
  · intro l l' hl hl' h h'
    exact isCurrent_unique (hl.trans hl'.symm) h h'
  · intro l fs gs _ hwas hnot
    rw [run_append] at hnot
    rw [run_append, run_append]
    exact ((dead_of_stopped hwas hnot).run gs).not_isCurrent

/-- An owner that acquires, lets the lease lapse and acquires again: the first
fence was current, is not after the lapse and stays so after the renewal of the second. -/
theorem lease_fencing_lapse :
    let es : List LeaseEvent := [⟨0, .acquire "turn:c" "a" 5⟩]
    let fs : List LeaseEvent := [⟨5, .acquire "turn:c" "a" 5⟩]
    let gs : List LeaseEvent := [⟨1, .renew ⟨"turn:c", "a", 2, 0⟩ 5⟩]
    (run LeaseStore.step LeaseStore.empty es).isCurrent ⟨"turn:c", "a", 1, 0⟩ ∧
    (run LeaseStore.step LeaseStore.empty (es ++ fs)).isCurrent ⟨"turn:c", "a", 1, 0⟩ = false ∧
    (run LeaseStore.step LeaseStore.empty (es ++ fs ++ gs)).isCurrent
      ⟨"turn:c", "a", 1, 0⟩ = false :=
  ⟨by decide, by decide,
    (lease_fencing LeaseStore.empty "turn:c" [⟨0, .acquire "turn:c" "a" 5⟩]).2.2.2.2
      ⟨"turn:c", "a", 1, 0⟩ [⟨5, .acquire "turn:c" "a" 5⟩] [⟨1, .renew ⟨"turn:c", "a", 2, 0⟩ 5⟩]
      rfl (by decide) (by decide)⟩

/-- Over all returned leases the fences are not strictly increasing: a renewal
returns the fence of the acquire before it. -/
theorem renewed_fence_repeats : ¬ ∀ (key : String) (es : List LeaseEvent),
      ((leasesReturned (fun _ => true) key LeaseStore.empty es).map Lease.fencingToken).Pairwise
        (· < ·) := by
  intro h
  have hrun := h "turn:c" [⟨0, .acquire "turn:c" "a" 5⟩, ⟨1, .renew ⟨"turn:c", "a", 1, 5⟩ 5⟩]
  revert hrun
  decide

end Cognis.Coordination
