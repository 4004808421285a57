import Cognis.Schedule.CatchupMoves
import Cognis.Schedule.Leases

namespace Cognis.Schedule

open Coordination List Option Runs

variable (scheduleId : String) (t : Int)

variable {r : Reservation}

def CatchupLoop.pending (epoch : Nat) (loop : CatchupLoop) : Bool :=
  loop.stage.reservation.any fun r => r.epoch == epoch && r.settledAt.isNone

/-- The slots of an epoch are those used, those taken and those left. Leases
tell the runs apart, and a run whose slot is of an earlier epoch has lost its own. -/
structure Budgeted (s : CatchupStore) (loops : List CatchupLoop) : Prop where
  distinct : loops.Pairwise fun a b => a.lease.fencingToken ≠ b.lease.fencingToken
  fenced : ∀ l ∈ loops, l.lease.resourceKey = catchupKey ∧
    l.lease.fencingToken ≤ fence (s.leases.rows catchupKey)
  dated : ∀ l ∈ loops, ∀ r, l.stage.reservation = some r → r.epoch ≤ s.epoch.number ∧
    (r.epoch ≠ s.epoch.number → l.lease.fencingToken < fence (s.leases.rows catchupKey))
  accounted : ∀ l ∈ loops, l.Accounted
  recorded : ∀ l ∈ loops, ∀ r t, l.stage.reservation = some r → r.settledAt = some t →
    s.catchupActive = true → r.epoch = s.epoch.number → (r.scheduleId, t) ∈ s.epoch.settled
  nonneg : 0 ≤ s.remaining
  within :
    s.epoch.settled.length + loops.countP (CatchupLoop.pending s.epoch.number) + s.remaining ≤
    s.epoch.initialBudget

section

variable {s s' : CatchupStore} {loops : List CatchupLoop} {loop : CatchupLoop}
  {x : Option CatchupLoop} {i : Nat}

@[simp] theorem CatchupStore.record_leases : (s.record scheduleId t).leases = s.leases := by
  rw [CatchupStore.record]
  split <;> rfl

@[simp] theorem CatchupStore.record_state : (s.record scheduleId t).state = s.state := by
  rw [CatchupStore.record]
  split <;> rfl

@[simp] theorem CatchupStore.record_number :
    (s.record scheduleId t).epoch.number = s.epoch.number := by
  rw [CatchupStore.record]
  split <;> rfl

@[simp] theorem CatchupStore.record_initialBudget :
    (s.record scheduleId t).epoch.initialBudget = s.epoch.initialBudget := by
  rw [CatchupStore.record]
  split <;> rfl

theorem CatchupStore.record_active (h : s.catchupActive) (scheduleId : String) (t : Int) :
    (s.record scheduleId t).epoch.settled = s.epoch.settled.insert (scheduleId, t) := by
  rw [CatchupStore.record, if_pos h]

theorem CatchupStore.subset_record : s.epoch.settled ⊆ (s.record scheduleId t).epoch.settled := by
  rw [CatchupStore.record]
  split
  · exact fun occurrence h => mem_insert_of_mem h
  · exact fun _ h => h

theorem Move.fence_le (h : Move s loop s' x) :
    fence (s.leases.rows catchupKey) ≤ fence (s'.leases.rows catchupKey) := by
  cases h with
  | released leases hfence => exact hfence
  | settled => rw [CatchupStore.record_leases]
  | _ => exact le_refl _

theorem fence_eq_of_isCurrent {leases : LeaseStore} {l : Lease} (h : leases.isCurrent l) :
    fence (leases.rows l.resourceKey) = l.fencingToken := by
  obtain ⟨row, hrow, ⟨-, htoken⟩, -⟩ := isCurrent_iff.mp h
  rw [hrow, fence_some, htoken]

section

variable (h : Budgeted s loops) (hi : loops[i]? = some loop)

include h hi

theorem Budgeted.fence_eq (hcurrent : s.leases.isCurrent loop.lease) :
    fence (s.leases.rows catchupKey) = loop.lease.fencingToken := by
  rw [← (h.fenced loop (mem_of_getElem? hi)).1]
  exact fence_eq_of_isCurrent hcurrent

theorem Budgeted.behind (hcurrent : s.leases.isCurrent loop.lease) {j : Nat} {l : CatchupLoop}
    (hj : j ≠ i) (hl : loops[j]? = some l) :
    l.lease.fencingToken < fence (s.leases.rows catchupKey) := by
  have hle := (h.fenced l (mem_of_getElem? hl)).2
  have hne := Pool.rel_of_ne (fun _ _ h => Ne.symm h) h.distinct hj hl hi
  rw [h.fence_eq hi hcurrent] at hle ⊢
  omega

theorem Budgeted.dated_move (hmove : Move s loop s' x)
    (hlease : ∀ l, x = some l → l.lease = loop.lease) :
    ∀ l ∈ Pool.update loops i x, ∀ r, l.stage.reservation = some r → r.epoch ≤ s'.epoch.number ∧
      (r.epoch ≠ s'.epoch.number → l.lease.fencingToken < fence (s'.leases.rows catchupKey)) := by
  have hfence := hmove.fence_le
  intro l hl r hr
  have hold : ∀ b ∈ loops, b.lease = l.lease → ∀ r', b.stage.reservation = some r' →
      r'.epoch = r.epoch → r.epoch ≤ s.epoch.number ∧
      (r.epoch ≠ s.epoch.number → l.lease.fencingToken < fence (s'.leases.rows catchupKey)) := by
    intro b hb hbl r' hr' hepoch
    obtain ⟨hle, hlt⟩ := h.dated b hb r' hr'
    rw [hepoch, hbl] at hlt
    exact ⟨hepoch ▸ hle, fun hne => lt_of_lt_of_le (hlt hne) hfence⟩
  have hloop := mem_of_getElem? hi
  rcases Pool.mem_update hl with hx | ⟨j, hj, hother⟩
  · have hkeep := hlease l hx
    cases hmove with
    | quiet hq =>
      rcases hq l hx with hnone | hsame
      · rw [hnone] at hr
        cases hr
      · exact hold loop hloop hkeep.symm r (hsame ▸ hr) rfl
    | reserved row hstate hpos hfree hres =>
      rcases hres l hx with hnone | ⟨scheduleId, originalFire, hnew⟩
      · rw [hnone] at hr
        cases hr
      · rw [hnew] at hr
        cases hr
        exact ⟨le_refl _, fun hne => absurd rfl hne⟩
    | settled r₀ t hres hagain hepoch hx' =>
      rw [CatchupStore.record_number]
      rcases hx' l hx with hnone | hsame
      · rw [hnone] at hr
        cases hr
      · rw [hsame] at hr
        cases hr
        exact hold loop hloop hkeep.symm r₀ hres rfl
    | released _ _ hfreed | prepared _ _ _ _ hfreed | restored _ _ _ _ _ _ hfreed
    | completed _ _ hfreed =>
      rw [hfreed l hx] at hr
      cases hr
  · have hmem := mem_of_getElem? hother
    have hsame := hold l hmem rfl r hr rfl
    cases hmove with
    | prepared cutoffAt budget hcurrent =>
      refine ⟨Nat.le_succ_of_le hsame.1, fun _ => ?_⟩
      exact lt_of_lt_of_le (h.behind hi hcurrent hj hother) hfence
    | settled =>
      rw [CatchupStore.record_number]
      exact hsame
    | _ => exact hsame

theorem Budgeted.recorded_move (hmove : Move s loop s' x) :
    ∀ l ∈ Pool.update loops i x, ∀ r t, l.stage.reservation = some r → r.settledAt = some t →
      s'.catchupActive → r.epoch = s'.epoch.number →
      (r.scheduleId, t) ∈ s'.epoch.settled := by
  intro l hl r t hr ht hactive hepoch
  rcases Pool.mem_update hl with hx | ⟨j, _, hother⟩
  · cases hmove with
    | quiet hq =>
      rcases hq l hx with hnone | hsame
      · rw [hnone] at hr
        cases hr
      · exact h.recorded loop (mem_of_getElem? hi) r t (hsame ▸ hr) ht hactive hepoch
    | reserved row hstate hpos hfree hres =>
      rcases hres l hx with hnone | ⟨scheduleId, originalFire, hnew⟩
      · rw [hnone] at hr
        cases hr
      · rw [hnew] at hr
        cases hr
        cases ht
    | settled r₀ t₀ hres hagain _ hx' =>
      rcases hx' l hx with hnone | hsame
      · rw [hnone] at hr
        cases hr
      · rw [hsame] at hr
        cases hr
        cases ht
        rw [CatchupStore.catchupActive, CatchupStore.record_state] at hactive
        rw [CatchupStore.record_active hactive]
        exact mem_insert_self
    | released _ _ hfreed | prepared _ _ _ _ hfreed | restored _ _ _ _ _ _ hfreed
    | completed _ _ hfreed =>
      rw [hfreed l hx] at hr
      cases hr
  · have hmem := mem_of_getElem? hother
    cases hmove with
    | quiet | released => exact h.recorded l hmem r t hr ht hactive hepoch
    | prepared =>
      -- the reservation is of an earlier epoch
      have hle := (h.dated l hmem r hr).1
      rw [hepoch] at hle
      exact absurd hle (Nat.not_succ_le_self _)
    | reserved row hstate | restored _ _ row _ _ hstate =>
      refine h.recorded l hmem r t hr ht ?_ hepoch
      rw [CatchupStore.catchupActive, hstate]
      exact hactive
    | completed => cases hactive
    | settled =>
      rw [CatchupStore.record_number] at hepoch
      rw [CatchupStore.catchupActive, CatchupStore.record_state] at hactive
      exact CatchupStore.subset_record _ _ (h.recorded l hmem r t hr ht hactive hepoch)

end

theorem CatchupLoop.pending_of_reservation (hr : loop.stage.reservation = some r) (epoch : Nat) :
    loop.pending epoch = (r.epoch == epoch && r.settledAt.isNone) := by
  rw [pending, hr, any_some]

theorem Freed.not_pending (h : Freed x) (epoch : Nat) :
    x.any (CatchupLoop.pending epoch) = false := by
  cases x with
  | none => rfl
  | some l => rw [any_some, CatchupLoop.pending, h l rfl, any_none]

section

variable (h : Budgeted s loops)

include h

theorem Budgeted.pending_of_restoring (hi : loops[i]? = some loop) {due : List (String × Int)}
    (hstage : loop.stage = .restoring r due) (hcurrent : s.leases.isCurrent loop.lease) :
    loop.pending s.epoch.number := by
  have hmem := mem_of_getElem? hi
  have hr : loop.stage.reservation = some r := by rw [hstage]; rfl
  have hepoch : r.epoch = s.epoch.number := by
    by_contra hne
    have hlt := (h.dated loop hmem r hr).2 hne
    rw [h.fence_eq hi hcurrent] at hlt
    omega
  have hunsettled : r.settledAt = none := by
    cases ht : r.settledAt with
    | none => rfl
    | some t =>
      have hspent := h.accounted loop hmem r t hr ht
      rw [hstage] at hspent
      exact hspent.elim
  rw [CatchupLoop.pending_of_reservation hr, hepoch, hunsettled, beq_self_eq_true]
  rfl

theorem Budgeted.length_record (hi : loops[i]? = some loop) {t : Int}
    (hr : loop.stage.reservation = some r) (hagain : ∀ t', r.settledAt = some t' → t' = t)
    (hepoch : s.catchupActive → r.epoch = s.epoch.number) :
    (s.record r.scheduleId t).epoch.settled.length ≤
      s.epoch.settled.length + (if loop.pending s.epoch.number then 1 else 0) := by
  by_cases hactive : s.catchupActive
  · rw [CatchupStore.record_active hactive, length_insert,
      CatchupLoop.pending_of_reservation hr, hepoch hactive]
    cases ht : r.settledAt with
    | none =>
      simp only [beq_self_eq_true, isNone_none, Bool.and_self, if_true]
      split <;> omega
    | some t' =>
      have hin := h.recorded loop (mem_of_getElem? hi) r t' hr ht hactive (hepoch hactive)
      rw [hagain t' ht] at hin
      rw [if_pos hin]
      omega
  · rw [CatchupStore.record, if_neg hactive]
    omega

theorem countP_pending_eq_zero (hfreed : Freed x) :
    (Pool.update loops i x).countP (CatchupLoop.pending (s.epoch.number + 1)) = 0 := by
  rw [countP_eq_zero]
  intro l hl hpending
  rcases Pool.mem_update hl with hx | ⟨j, -, hother⟩
  · rw [CatchupLoop.pending, hfreed l hx] at hpending
    cases hpending
  · rw [CatchupLoop.pending, Option.any_eq_true] at hpending
    obtain ⟨r, hr, hepoch⟩ := hpending
    have hle := (h.dated l (mem_of_getElem? hother) r hr).1
    rw [Bool.and_eq_true, beq_iff_eq] at hepoch
    omega

theorem Budgeted.within_move (hi : loops[i]? = some loop) (hmove : Move s loop s' x) :
    0 ≤ s'.remaining ∧
      s'.epoch.settled.length + (Pool.update loops i x).countP
        (CatchupLoop.pending s'.epoch.number) +
        s'.remaining ≤ s'.epoch.initialBudget := by
  have hnonneg := h.nonneg
  have hwithin := h.within
  have hcount := Pool.countP_update (x := x) (CatchupLoop.pending s.epoch.number) hi
  cases hmove with
  | quiet hq =>
    have hx : (if x.any (CatchupLoop.pending s.epoch.number) then 1 else 0) ≤
        (if loop.pending s.epoch.number then 1 else 0) := by
      cases x with
      | none => simp
      | some l =>
        rw [any_some]
        rcases hq l rfl with hnone | hsame
        · simp [CatchupLoop.pending, hnone]
        · rw [CatchupLoop.pending, hsame, CatchupLoop.pending]
    refine ⟨hnonneg, ?_⟩
    omega
  | released leases hfence hfreed =>
    rw [hfreed.not_pending, if_neg Bool.false_ne_true] at hcount
    refine ⟨hnonneg, ?_⟩
    change s.epoch.settled.length +
        (Pool.update loops i x).countP (CatchupLoop.pending s.epoch.number) + s.remaining ≤
          s.epoch.initialBudget
    omega
  | completed row hstate hfreed =>
    have hsame : s.remaining = row.remainingBudget := by rw [CatchupStore.remaining, hstate]; rfl
    rw [hfreed.not_pending, if_neg Bool.false_ne_true] at hcount
    rw [hsame] at hnonneg hwithin
    refine ⟨hnonneg, ?_⟩
    change s.epoch.settled.length +
        (Pool.update loops i x).countP (CatchupLoop.pending s.epoch.number) + row.remainingBudget ≤
          s.epoch.initialBudget
    omega
  | prepared cutoffAt budget hcurrent hloop hfreed =>
    refine ⟨Int.natCast_nonneg budget, ?_⟩
    have hzero := countP_pending_eq_zero h hfreed (i := i)
    change ((0 : Nat) : Int) +
      (Pool.update loops i x).countP (CatchupLoop.pending (s.epoch.number + 1)) + (budget : Int) ≤
        budget
    omega
  | reserved row hstate =>
    have hsame : s.remaining = row.remainingBudget := by rw [CatchupStore.remaining, hstate]; rfl
    have hx : (if x.any (CatchupLoop.pending s.epoch.number) then 1 else 0) ≤ 1 :=
      by split <;> omega
    change 0 ≤ row.remainingBudget - 1 ∧ s.epoch.settled.length +
        (Pool.update loops i x).countP (CatchupLoop.pending s.epoch.number) +
          (row.remainingBudget - 1) ≤
          s.epoch.initialBudget
    refine ⟨by omega, ?_⟩
    omega
  | restored r due row hstage hcurrent hstate hfreed =>
    have hsame : s.remaining = row.remainingBudget := by rw [CatchupStore.remaining, hstate]; rfl
    rw [h.pending_of_restoring hi hstage hcurrent, hfreed.not_pending, if_pos rfl,
      if_neg Bool.false_ne_true] at hcount
    change 0 ≤ row.remainingBudget + 1 ∧ s.epoch.settled.length +
        (Pool.update loops i x).countP (CatchupLoop.pending s.epoch.number) +
          (row.remainingBudget + 1) ≤
          s.epoch.initialBudget
    refine ⟨by omega, ?_⟩
    omega
  | settled r t hr hagain hepoch hres =>
    have hlength := h.length_record hi hr hagain hepoch
    have hx : x.any (CatchupLoop.pending s.epoch.number) = false := by
      cases x with
      | none => rfl
      | some l =>
        rcases hres l rfl with hnone | hsame
        · simp [CatchupLoop.pending, hnone]
        · simp [CatchupLoop.pending, hsame]
    rw [hx, if_neg Bool.false_ne_true] at hcount
    have hsame : (s.record r.scheduleId t).remaining = s.remaining := by
      rw [CatchupStore.remaining, CatchupStore.record_state, CatchupStore.remaining]
    rw [hsame, CatchupStore.record_number, CatchupStore.record_initialBudget]
    refine ⟨hnonneg, ?_⟩
    omega

theorem Budgeted.move (hi : loops[i]? = some loop) (hmove : Move s loop s' x)
    (hlease : ∀ l, x = some l → l.lease = loop.lease) (hacc : ∀ l, x = some l → l.Accounted) :
    Budgeted s' (Pool.update loops i x) := by
  refine ⟨?_, ?_, h.dated_move hi hmove hlease, ?_, h.recorded_move hi hmove,
    (h.within_move hi hmove).1, (h.within_move hi hmove).2⟩
  · apply Pool.pairwise_update (fun _ _ hne => Ne.symm hne) h.distinct
    intro a ha j b hj hb
    rw [hlease a ha]
    exact Pool.rel_of_ne (fun _ _ hne => Ne.symm hne) h.distinct (Ne.symm hj) hi hb
  · intro l hl
    have hfence := hmove.fence_le
    rcases Pool.mem_update hl with hx | ⟨j, -, hother⟩
    · rw [hlease l hx]
      have hold := h.fenced loop (mem_of_getElem? hi)
      exact ⟨hold.1, le_trans hold.2 hfence⟩
    · have hold := h.fenced l (mem_of_getElem? hother)
      exact ⟨hold.1, le_trans hold.2 hfence⟩
  · intro l hl
    rcases Pool.mem_update hl with hx | ⟨j, -, hother⟩
    · exact hacc l hx
    · exact h.accounted l (mem_of_getElem? hother)

theorem Budgeted.setLeases {leases : LeaseStore}
    (hfence : fence (s.leases.rows catchupKey) ≤ fence (leases.rows catchupKey)) :
    Budgeted { s with leases := leases } loops := by
  refine ⟨h.distinct, ?_, ?_, h.accounted, h.recorded, h.nonneg, h.within⟩
  · intro l hl
    exact ⟨(h.fenced l hl).1, le_trans (h.fenced l hl).2 hfence⟩
  · intro l hl r hr
    obtain ⟨hle, hlt⟩ := h.dated l hl r hr
    exact ⟨hle, fun hne => lt_of_lt_of_le (hlt hne) hfence⟩

theorem Budgeted.enter {ownerId : String} {ttl : Int} {l : Lease}
    (hl : (s.leases.acquire catchupKey ownerId ttl).2 = some l) (budget : Nat) (resumeOnly : Bool) :
    Budgeted { s with leases := (s.leases.acquire catchupKey ownerId ttl).1 }
      (loops ++ [{ lease := l, budget := budget, resumeOnly := resumeOnly }]) := by
  have hkey : l.resourceKey = catchupKey := acquire_resourceKey hl
  obtain ⟨hrow, htoken⟩ := acquireInSession_returned hl
  rw [hkey] at hrow htoken
  have hfence : fence ((s.leases.acquire catchupKey ownerId ttl).1.rows catchupKey) =
      l.fencingToken := by
    rw [LeaseStore.acquire, hrow, fence_some]
  have hle : fence (s.leases.rows catchupKey) ≤
      fence ((s.leases.acquire catchupKey ownerId ttl).1.rows catchupKey) := by omega
  have hold := h.setLeases hle
  constructor
  · rw [pairwise_append]
    refine ⟨hold.distinct, pairwise_singleton _ _, ?_⟩
    intro a ha b hb
    obtain rfl := mem_singleton.mp hb
    have hbound := (h.fenced a ha).2
    change a.lease.fencingToken ≠ l.fencingToken
    omega
  · intro a ha
    rcases mem_append.mp ha with ha | ha
    · exact hold.fenced a ha
    · obtain rfl := mem_singleton.mp ha
      exact ⟨hkey, hfence.ge⟩
  · intro a ha r hr
    rcases mem_append.mp ha with ha | ha
    · exact hold.dated a ha r hr
    · obtain rfl := mem_singleton.mp ha
      cases hr
  · intro a ha
    rcases mem_append.mp ha with ha | ha
    · exact hold.accounted a ha
    · obtain rfl := mem_singleton.mp ha
      intro r t hr
      cases hr
  · intro a ha r t hr
    rcases mem_append.mp ha with ha | ha
    · exact hold.recorded a ha r t hr
    · obtain rfl := mem_singleton.mp ha
      cases hr
  · exact hold.nonneg
  · have hwithin := hold.within
    simpa [CatchupLoop.pending, CatchupStage.reservation] using hwithin

end

variable {sc : String → Scheduler} {c : Cluster} {choice : Choice}

theorem advance_budgeted (h : Budgeted c.store c.loops) (hi : c.loops[i]? = some loop)
    (hcond : c.orderly sc (.advance i choice)) :
    Budgeted (c.advance sc i loop choice).store (c.advance sc i loop choice).loops := by
  have hacc := h.accounted loop (mem_of_getElem? hi)
  rw [Cluster.orderly, hi, all_some] at hcond
  have hepoch : ∀ r due fire, loop.stage = .firing r due fire → loop.settles sc c choice ≠ none →
      c.store.catchupActive → r.epoch = c.store.epoch.number := by
    intro r due fire hstage hsettles hactive
    rw [hstage] at hcond
    simpa [hsettles, hactive] using hcond
  have hlook : ∀ r due, loop.stage = .looking r due →
      r.settledAt = none ∨ c.looksSettled r := by
    intro r due hstage
    rw [hstage] at hcond
    simpa using hcond
  refine h.move hi (advance_move hacc hepoch i) ?_ ?_
  · intro l hl
    rw [(CatchupLoop.next_passes hl).1, CatchupLoop.mark_lease]
  · intro l hl
    cases hsettles : loop.settles sc c choice with
    | none =>
      rw [hsettles, CatchupLoop.mark] at hl
      exact hacc.next hlook hl
    | some =>
      rw [hsettles] at hl
      exact CatchupLoop.accounted_of_settles hsettles hl

theorem Cluster.step_budgeted (h : Budgeted c.store c.loops) {e : CatchupEvent}
    (hcond : c.orderly sc e) : Budgeted (c.step sc e).store (c.step sc e).loops := by
  cases e with
  | wait => exact h.setLeases (le_refl _)
  | schedule => exact h
  | lease call => exact h.setLeases (LeaseStore.perform_rowChange _ call _).fence_le
  | enter ownerId budget resumeOnly =>
    rw [Cluster.step, Cluster.enter]
    split
    · exact h
    · rename_i leases l hacquire
      have hl : (c.store.leases.acquire catchupKey ownerId fireLease).2 = some l := by
        rw [hacquire]
      have hentered := h.enter hl budget resumeOnly
      rw [hacquire] at hentered
      exact hentered
  | advance =>
    rw [Cluster.step]
    split
    · exact h
    · rename_i loop hi
      exact advance_budgeted h hi hcond
  | lose i =>
    rw [Cluster.step]
    split
    · exact h
    · rename_i loop hi
      refine h.move (x := some loop.lose) hi (.quiet ?_) ?_ ?_
      · intro l hl
        cases hl
        exact .inr rfl
      · intro l hl
        cases hl
        rfl
      · intro l hl
        cases hl
        exact h.accounted loop (mem_of_getElem? hi)
  | crash i =>
    rw [Cluster.step]
    cases hi : c.loops[i]? with
    | none =>
      rw [eraseIdx_of_length_le (List.getElem?_eq_none_iff.mp hi)]
      exact h
    | some =>
      refine h.move (x := none) hi (.quiet ?_) ?_ ?_ <;>
      · intro l hl
        cases hl

end

/-- A cluster whose controllers have not entered the catch-up yet. -/
def Cluster.fresh (scheduleIds : List String) (systems : String → System) (leases : LeaseStore) :
    Cluster :=
  ⟨⟨none, leases, {}⟩, scheduleIds, systems, []⟩

theorem Cluster.fresh_budgeted (scheduleIds : List String) (systems : String → System)
    (leases : LeaseStore) :
    Budgeted (Cluster.fresh scheduleIds systems leases).store
      (Cluster.fresh scheduleIds systems leases).loops := by
  refine ⟨List.Pairwise.nil, ?_, ?_, ?_, ?_, le_refl _, le_refl _⟩ <;>
  · intro l hl
    cases hl

/-- Whatever controllers enter, lose their leases or crash: as long as the looks
after settled fires find them so and no fire outlives the epoch of its slot, the
loop's fires settle no more occurrences in an epoch than its budget, and the
remaining budget stays between zero and that. -/
theorem catchup_within_budget (sc : String → Scheduler) (scheduleIds : List String)
    (systems : String → System) (leases : LeaseStore) (es : List CatchupEvent)
    (hcond : Meets (Cluster.step sc) (fun c e => c.orderly sc e = true)
      (.fresh scheduleIds systems leases) es) :
    let final := run (Cluster.step sc) (.fresh scheduleIds systems leases) es
    final.store.epoch.settled.length ≤ final.store.epoch.initialBudget ∧
      0 ≤ final.store.remaining ∧ final.store.remaining ≤ final.store.epoch.initialBudget := by
  intro final
  have hfinal : Budgeted final.store final.loops :=
    run_invariant_of_meets (fun c : Cluster => Budgeted c.store c.loops)
      (fun c e h he => c.step_budgeted h he)
      (Cluster.fresh_budgeted scheduleIds systems leases) hcond
  have hnonneg := hfinal.nonneg
  have hwithin := hfinal.within
  refine ⟨?_, hnonneg, ?_⟩ <;> omega

def minutelyPair (scheduleId : String) : System :=
  if scheduleId = "a" then ⟨.fresh minutelyRow .empty, []⟩
  else ⟨.fresh { minutelyRow with nextFireAt := some 60000005 } .empty, []⟩

/-- The timer fires the first schedule, whose task then fails; the handler of its
terminal event has read the schedule. -/
def firedAndRead : List CatchupEvent :=
  let actions : List Action := .fire "timer" :: replicate 9 (.advance 0 .proceed) ++
    .moveTask (.recurring, 1) .failed none :: .terminalEvent (.recurring, 1) false ::
    replicate 3 (.advance 0 .proceed)
  .wait 1 :: actions.map (.schedule "a")

def enteredLate (steps : Nat) : List CatchupEvent :=
  .wait 60000010 :: .enter "controller" 1 false :: replicate steps (.advance 0 .proceed)

/-- The controller fires the first schedule, skips the backlog and completes. -/
theorem catchup_within_budget_one :
    let final := run (Cluster.step fun _ => minutelyTwice)
      (.fresh ["a", "b"] minutelyPair .empty) (firedAndRead ++ enteredLate 25)
    final.store.epoch.settled = [("a", 60000001)] ∧ final.store.epoch.initialBudget = 1 ∧
      final.store.epoch.settled.length ≤ final.store.epoch.initialBudget ∧
      0 ≤ final.store.remaining ∧ final.store.remaining ≤ final.store.epoch.initialBudget :=
  ⟨by decide +kernel, by decide +kernel,
    catchup_within_budget (fun _ => minutelyTwice) ["a", "b"] minutelyPair .empty
      (firedAndRead ++ enteredLate 25) (by decide +kernel)⟩

/-- The handler writes the next fire it has read after the catch-up fire has
settled and before the loop looks: the slot is returned and used once more. -/
theorem stale_write_returns_used_slot :
    ¬ ∀ (sc : String → Scheduler) (scheduleIds : List String) (systems : String → System)
      (leases : LeaseStore) (es : List CatchupEvent),
      let final := run (Cluster.step sc) (.fresh scheduleIds systems leases) es
      final.store.epoch.settled.length ≤ final.store.epoch.initialBudget ∧
        0 ≤ final.store.remaining ∧ final.store.remaining ≤ final.store.epoch.initialBudget := by
  intro h
  have hrun := h (fun _ => minutelyTwice) ["a", "b"] minutelyPair .empty
    (firedAndRead ++ enteredLate 13 ++ replicate 2 (.schedule "a" (.advance 0 .proceed)) ++
      replicate 13 (.advance 0 .proceed))
  revert hrun
  decide +kernel

end Cognis.Schedule
