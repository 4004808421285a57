import Cognis.Schedule.Catchup

namespace Cognis.Schedule

open Coordination Option Runs

/-- The slot a run has taken and not yet accounted for. -/
def CatchupStage.reservation : CatchupStage → Option Reservation
  | .starting r _ | .firing r _ _ | .looking r _ | .restoring r _ => some r
  | _ => none

def Stage.Spent (t : Int) : Stage → Prop
  | .fireFailing _ c _ | .fireSettlingFailure _ c _ _ | .fireDeleting _ c _ =>
    c.scheduledFireAt = t
  | .releasing _ => True
  | _ => False

def CatchupStage.Spent (t : Int) : CatchupStage → Prop
  | .firing _ _ stage => stage.Spent t
  | .looking .. => True
  | _ => False

/-- A reservation whose fire has settled an occurrence is with a fire that
settles no other one, or with the look after it. -/
def CatchupLoop.Accounted (loop : CatchupLoop) : Prop :=
  ∀ r t, loop.stage.reservation = some r → r.settledAt = some t → loop.stage.Spent t

/-- What keeps a step of the cluster within the budget: the look after a fire
that settled its occurrence finds the schedule moved on, and no fire settles an
occurrence in an epoch other than the one its slot was taken in. -/
def Cluster.orderly (sc : String → Scheduler) (c : Cluster) : CatchupEvent → Bool
  | .advance index choice =>
    c.loops[index]?.all fun loop =>
      match loop.stage with
      | .looking r _ => r.settledAt.isNone || c.looksSettled r
      | .firing r _ _ =>
        (loop.settles sc c choice).isNone || !c.store.catchupActive ||
          r.epoch = c.store.epoch.number
      | _ => true
  | _ => true

section

variable {sc : Scheduler} {db : Database} {reply : Reply} {stage stage' : Stage} {t : Int}
  {choice : Choice}

theorem Stage.Spent.next (h : stage.Spent t) (hnext : stage.next sc db reply choice = some stage') :
    stage'.Spent t := by
  cases stage with
  | fireFailing | fireSettlingFailure =>
    cases choice <;> cases hnext <;> first | exact h | trivial
  | fireDeleting l claim dispatched =>
    cases choice with
    | proceed =>
      cases hnext
      trivial
    | leaseLost =>
      cases hnext
      exact h
    | raises | raisesCommitted =>
      cases dispatched <;> cases hnext
      · exact h
      · trivial
  | releasing l =>
    cases choice with
    | leaseLost =>
      cases hnext
      trivial
    | proceed | raises | raisesCommitted => cases hnext
  | _ => exact h.elim

section

variable (h : (stage.request sc).bind (settledOccurrence db) = some t)
include h

theorem Stage.settles_cases :
    (∃ l claim status dispatched, stage = .fireAdvancing l claim status dispatched ∧
      claim.scheduledFireAt = t) ∨
    (∃ l claim error now, stage = .fireSettlingFailure l claim error now ∧
      claim.scheduledFireAt = t) ∨
    ∃ l now scheduledFireAt row, stage = .backlogAdvancing l now scheduledFireAt row := by
  cases stage with
  | fireAdvancing l claim status dispatched =>
    refine .inl ⟨l, claim, status, dispatched, rfl, ?_⟩
    rw [Stage.request, bind_some, settledOccurrence] at h
    split at h
    · exact some.inj h
    · cases h
  | fireSettlingFailure l claim error now =>
    refine .inr (.inl ⟨l, claim, error, now, rfl, ?_⟩)
    rw [Stage.request, bind_some, Stage.failure, settledOccurrence] at h
    split at h
    · exact some.inj h
    · cases h
  | backlogAdvancing l now scheduledFireAt row =>
    exact .inr (.inr ⟨l, now, scheduledFireAt, row, rfl⟩)
  | _ => cases h

theorem Stage.spent_of_settles
    (hcommits : choice.commits)
    (hnext : stage.next sc db reply choice = some stage') : stage'.Spent t := by
  obtain ⟨l, claim, status, dispatched, rfl, hat⟩ | ⟨l, claim, error, now, rfl, -⟩ |
    ⟨l, now, scheduledFireAt, row, rfl⟩ := Stage.settles_cases h
  · cases choice with
    | proceed =>
      rw [Stage.next, Stage.proceed] at hnext
      split at hnext <;> cases hnext
      · exact hat
      · trivial
    | raisesCommitted =>
      cases dispatched <;> cases hnext
      · exact hat
      · trivial
    | leaseLost | raises => cases hcommits
  · cases choice with
    | proceed | raisesCommitted =>
      cases hnext
      trivial
    | leaseLost | raises => cases hcommits
  · cases choice with
    | proceed | raisesCommitted =>
      cases hnext
      trivial
    | leaseLost | raises => cases hcommits

end

theorem Stage.Spent.settles {t' : Int} (h : stage.Spent t')
    (hsettles : (stage.request sc).bind (settledOccurrence db) = some t) : t' = t := by
  obtain ⟨l, claim, status, dispatched, rfl, _⟩ | ⟨l, claim, error, now, rfl, hat⟩ |
    ⟨l, now, scheduledFireAt, row, rfl⟩ := Stage.settles_cases hsettles
  · exact h.elim
  · exact h.symm.trans hat
  · exact h.elim

end

section

variable {sc : String → Scheduler} {c : Cluster} {reply : CatchupReply}
  {loop loop' : CatchupLoop} {choice : Choice}

@[simp] theorem CatchupLoop.goto_stage (stage : CatchupStage) :
    (loop.goto stage).stage = stage := rfl

@[simp] theorem CatchupLoop.mark_lease (occurrence : Option (String × Int)) :
    (loop.mark occurrence).lease = loop.lease := by
  cases occurrence with
  | none => rfl
  | some =>
    rw [CatchupLoop.mark]
    split <;> rfl

/-- What a step can do to the reservation of a run. -/
inductive CatchupLoop.Passes (sc : String → Scheduler) (c : Cluster) (reply : CatchupReply) :
    Choice → CatchupStage → CatchupStage → Prop
  | dropped {choice stage stage'} (h : stage'.reservation = none) :
      Passes sc c reply choice stage stage'
  | kept {stage} : Passes sc c reply .leaseLost stage stage
  | contended {r due} : Passes sc c reply .proceed (.starting r due) (.looking r due)
  | started {r due fire} : Passes sc c reply .proceed (.starting r due) (.firing r due fire)
  | moved {choice r due fire fire'}
      (h : fire.next (sc r.scheduleId) (c.db r.scheduleId) reply.schedule choice = some fire') :
      Passes sc c reply choice (.firing r due fire) (.firing r due fire')
  | ended {r due fire} : Passes sc c reply .proceed (.firing r due fire) (.looking r due)
  | unsettled {r due} (h : c.looksSettled r = false) :
      Passes sc c reply .proceed (.looking r due) (.restoring r due)
  | reserved {scheduleId originalFire due state} (h : reply.state = some state) :
      Passes sc c reply .proceed (.serving ((scheduleId, originalFire) :: due))
        (.starting ⟨scheduleId, originalFire, c.store.epoch.number, none⟩ due)

theorem CatchupLoop.proceedSkip_reservation (r : Reply) (now : Int) (due : List String)
    (pending : Bool) (scheduleId : String) (stage : Stage) :
    (proceedSkip sc c r now due pending scheduleId stage).reservation = none := by
  unfold proceedSkip
  split
  · rfl
  · rfl
  · split <;> rfl

theorem CatchupLoop.proceed_passes (h : loop.proceed sc c reply = some loop') :
    loop'.lease = loop.lease ∧ Passes sc c reply .proceed loop.stage loop'.stage := by
  rw [proceed] at h
  split at h
  · cases h
    exact ⟨rfl, .dropped rfl⟩
  · split at h <;> cases h <;> exact ⟨rfl, .dropped rfl⟩
  · split at h <;> cases h <;> exact ⟨rfl, .dropped rfl⟩
  · split at h
    · cases h
      exact ⟨rfl, .dropped rfl⟩
    · split at h <;> cases h <;> exact ⟨rfl, .dropped rfl⟩
  · cases h
    exact ⟨rfl, .dropped rfl⟩
  · rename_i hstage
    split at h
    · cases h
      exact ⟨rfl, .dropped rfl⟩
    · split at h
      · cases h
        exact ⟨rfl, .dropped rfl⟩
      · rename_i hstate
        cases h
        rw [hstage]
        exact ⟨rfl, .reserved hstate⟩
  · rename_i hstage
    rw [hstage]
    split at h <;> cases h
    · exact ⟨rfl, .contended⟩
    · exact ⟨rfl, .started⟩
  · rename_i hstage
    rw [hstage]
    split at h <;> cases h
    · rename_i hnext
      exact ⟨rfl, .moved hnext⟩
    · exact ⟨rfl, .ended⟩
  · rename_i hstage
    rw [hstage]
    split at h <;> cases h
    · exact ⟨rfl, .dropped rfl⟩
    · rename_i hlook
      exact ⟨rfl, .unsettled (Bool.eq_false_iff.mpr hlook)⟩
  · split at h <;> cases h <;> exact ⟨rfl, .dropped rfl⟩
  · split at h <;> cases h <;> exact ⟨rfl, .dropped rfl⟩
  · split at h <;> cases h <;> exact ⟨rfl, .dropped rfl⟩
  · cases h
    exact ⟨rfl, .dropped rfl⟩
  · cases h
    exact ⟨rfl, .dropped (proceedSkip_reservation _ _ _ _ _ _)⟩
  · cases h
    exact ⟨rfl, .dropped rfl⟩
  · cases h
    exact ⟨rfl, .dropped rfl⟩
  · split at h <;> cases h <;> exact ⟨rfl, .dropped rfl⟩
  · cases h

theorem CatchupLoop.raised_passes {error : String} (hchoice : choice = .raises error ∨
    choice = .raisesCommitted error) (h : loop.raised error = some loop') :
    loop'.lease = loop.lease ∧ Passes sc c reply choice loop.stage loop'.stage := by
  rw [raised] at h
  split at h
  · rename_i hstage
    rw [hstage]
    split at h <;> cases h
    · rename_i hnext
      refine ⟨rfl, .moved ?_⟩
      rcases hchoice with rfl | rfl <;> exact hnext
    · exact ⟨rfl, .dropped rfl⟩
  · split at h <;> cases h <;> exact ⟨rfl, .dropped rfl⟩
  · cases h
    exact ⟨rfl, .dropped rfl⟩
  · cases h
  · cases h
    exact ⟨rfl, .dropped rfl⟩

theorem CatchupLoop.fireLeaseLost_passes (h : loop.fireLeaseLost = some loop') :
    loop'.lease = loop.lease ∧ Passes sc c reply .leaseLost loop.stage loop'.stage := by
  rw [fireLeaseLost] at h
  split at h
  · rename_i hstage
    obtain ⟨stage', hnext, rfl⟩ := map_eq_some_iff.mp h
    rw [hstage]
    exact ⟨rfl, .moved hnext⟩
  · cases h
    exact ⟨rfl, .kept⟩

theorem CatchupLoop.next_passes (h : loop.next sc c reply choice = some loop') :
    loop'.lease = loop.lease ∧ Passes sc c reply choice loop.stage loop'.stage := by
  cases choice with
  | proceed => exact proceed_passes h
  | leaseLost => exact fireLeaseLost_passes h
  | raises => exact raised_passes (.inl rfl) h
  | raisesCommitted => exact raised_passes (.inr rfl) h

theorem CatchupLoop.Passes.reservation {stage stage' : CatchupStage}
    (h : Passes sc c reply choice stage stage') :
    stage'.reservation = none ∨ stage'.reservation = stage.reservation ∨
      ∃ scheduleId originalFire due, stage = .serving ((scheduleId, originalFire) :: due) ∧
        reply.state ≠ none ∧
        stage'.reservation = some ⟨scheduleId, originalFire, c.store.epoch.number, none⟩ := by
  cases h with
  | dropped hdropped => exact .inl hdropped
  | kept | contended | started | moved | ended | unsettled => exact .inr (.inl rfl)
  | reserved hstate => exact .inr (.inr ⟨_, _, _, rfl, by rw [hstate]; simp, rfl⟩)

variable {occurrence : String × Int}

theorem CatchupLoop.settles_some (h : loop.settles sc c choice = some occurrence) :
    ∃ r due fire, loop.stage = .firing r due fire ∧ choice.commits ∧
      (fire.request (sc r.scheduleId)).bind (settledOccurrence (c.db r.scheduleId)) =
        some occurrence.2 ∧
      occurrence.1 = r.scheduleId := by
  rw [settles] at h
  split at h
  · rename_i r due fire hstage
    split at h
    · rename_i hcommits
      obtain ⟨t, ht, rfl⟩ := map_eq_some_iff.mp h
      exact ⟨r, due, fire, hstage, hcommits, ht, rfl⟩
    · cases h
  · cases h

theorem CatchupLoop.Accounted.next (h : loop.Accounted)
    (hlook : ∀ r due, loop.stage = .looking r due → r.settledAt = none ∨ c.looksSettled r)
    (hnext : loop.next sc c reply choice = some loop') : loop'.Accounted := by
  have hpasses := (next_passes hnext).2
  intro r t hr ht
  generalize hstage : loop.stage = stage at hpasses
  generalize loop'.stage = stage' at hpasses hr
  cases hpasses with
  | dropped hdropped =>
    rw [hdropped] at hr
    cases hr
  | kept => exact hstage ▸ h r t (hstage ▸ hr) ht
  | contended | ended => trivial
  | started =>
    cases hr
    have hspent := h _ t (by rw [hstage]; rfl) ht
    rw [hstage] at hspent
    exact hspent.elim
  | moved hfire =>
    cases hr
    have hspent := h _ t (by rw [hstage]; rfl) ht
    rw [hstage] at hspent
    exact Stage.Spent.next hspent hfire
  | unsettled hunsettled =>
    cases hr
    rcases hlook _ _ hstage with hnone | hsettled
    · rw [hnone] at ht
      cases ht
    · rw [hsettled] at hunsettled
      cases hunsettled
  | reserved =>
    cases hr
    cases ht

variable {due : List (String × Int)}

theorem CatchupLoop.mark_some {r : Reservation} {fire : Stage}
    (hstage : loop.stage = .firing r due fire) (occurrence : String × Int) :
    loop.mark (some occurrence) =
      loop.goto (.firing { r with settledAt := some occurrence.2 } due fire) := by
  rw [mark, hstage]

theorem CatchupLoop.accounted_of_settles (h : loop.settles sc c choice = some occurrence)
    (hnext : (loop.mark (some occurrence)).next sc c reply choice = some loop') :
    loop'.Accounted := by
  obtain ⟨r, due, fire, hstage, hcommits, hsettled, -⟩ := settles_some h
  rw [mark_some hstage] at hnext
  have hpasses := (next_passes hnext).2
  intro r' t hr ht
  generalize loop'.stage = stage' at hpasses hr
  cases hpasses with
  | dropped hdropped =>
    rw [hdropped] at hr
    cases hr
  | kept => cases hcommits
  | ended => trivial
  | moved hfire =>
    cases hr
    cases ht
    exact Stage.spent_of_settles hsettled hcommits hfire

end

section

def Freed (x : Option CatchupLoop) : Prop := ∀ l, x = some l → l.stage.reservation = none

/-- Everything a step of a run can do to the catch-up row and the epoch, with the
run after it. -/
inductive Move (s : CatchupStore) (loop : CatchupLoop) : CatchupStore → Option CatchupLoop → Prop
  | quiet {x} (h : ∀ l, x = some l →
      l.stage.reservation = none ∨ l.stage.reservation = loop.stage.reservation) : Move s loop s x
  | released {x} (leases : LeaseStore)
      (hfence : fence (s.leases.rows catchupKey) ≤ fence (leases.rows catchupKey))
      (h : Freed x) : Move s loop { s with leases := leases } x
  | prepared {x} (cutoffAt : Int) (budget : Nat) (hcurrent : s.leases.isCurrent loop.lease = true)
      (hloop : loop.stage.reservation = none) (h : Freed x) :
      Move s loop (s.startEpoch cutoffAt budget) x
  | reserved {x} (row : CatchupStateRow) (hstate : s.state = some row)
      (hpos : 0 < row.remainingBudget) (hloop : loop.stage.reservation = none)
      (h : ∀ l, x = some l → l.stage.reservation = none ∨ ∃ scheduleId originalFire,
          l.stage.reservation = some ⟨scheduleId, originalFire, s.epoch.number, none⟩) :
      Move s loop (s.setBudget row (row.remainingBudget - 1)) x
  | restored {x} (r : Reservation) (due : List (String × Int)) (row : CatchupStateRow)
      (hstage : loop.stage = .restoring r due) (hcurrent : s.leases.isCurrent loop.lease = true)
      (hstate : s.state = some row) (h : Freed x) :
      Move s loop (s.setBudget row (row.remainingBudget + 1)) x
  | completed {x} (row : CatchupStateRow) (hstate : s.state = some row) (h : Freed x) :
      Move s loop { s with state := some { row with status := .completed } } x
  | settled {x} (r : Reservation) (t : Int) (hloop : loop.stage.reservation = some r)
      (hagain : ∀ t', r.settledAt = some t' → t' = t)
      (hepoch : s.catchupActive = true → r.epoch = s.epoch.number)
      (h : ∀ l, x = some l → l.stage.reservation = none ∨
        l.stage.reservation = some { r with settledAt := some t }) :
      Move s loop (s.record r.scheduleId t) x

variable {sc : String → Scheduler} {c : Cluster} {loop : CatchupLoop} {choice : Choice}

theorem release_fence_le (s : LeaseStore) (l : Lease) (key : String) :
    fence (s.rows key) ≤ fence ((s.release l).1.rows key) :=
  (LeaseStore.release_rowChange s l key).fence_le

theorem move_of_silent {reply : CatchupReply} (hstate : reply.state = none) :
    Move c.store loop c.store (loop.next sc c reply choice) := by
  apply Move.quiet
  intro l hl
  rcases (CatchupLoop.next_passes hl).2.reservation with hnone | hsame | ⟨_, _, _, -, hsome, -⟩
  · exact .inl hnone
  · exact .inr hsame
  · exact absurd hstate hsome

theorem freed_of_silent {reply : CatchupReply} (hloop : loop.stage.reservation = none)
    (hserving : ∀ due, loop.stage ≠ .serving due) :
    Freed (loop.next sc c reply choice) := by
  intro l hl
  rcases (CatchupLoop.next_passes hl).2.reservation with hnone | hsame | ⟨_, _, _, hstage, -⟩
  · exact hnone
  · exact hsame.trans hloop
  · exact absurd hstage (hserving _)

variable {s : CatchupStore} {x : Option CatchupLoop}

theorem Move.of_freed (h : Freed x) : Move s loop s x :=
  .quiet fun l hl => .inl (h l hl)

theorem prepareCatchup_move {cutoffAt : Int} {budget : Nat} {startNew : Bool}
    (hloop : loop.stage.reservation = none) (h : Freed x) :
    Move s loop (s.prepareCatchup loop.lease cutoffAt budget startNew).1 x := by
  rw [CatchupStore.prepareCatchup]
  by_cases hcurrent : s.leases.isCurrent loop.lease = false
  · rw [if_pos hcurrent]
    exact .of_freed h
  · rw [if_neg hcurrent]
    rw [Bool.not_eq_false] at hcurrent
    split
    · exact .prepared _ _ hcurrent hloop h
    · split
      · exact .prepared _ _ hcurrent hloop h
      · split <;> exact .of_freed h

theorem reserveCatchupFire_move (hloop : loop.stage.reservation = none)
    (h : ∀ l, x = some l → l.stage.reservation = none ∨
      ((s.reserveCatchupFire loop.lease).2 ≠ none ∧ ∃ scheduleId originalFire,
        l.stage.reservation = some ⟨scheduleId, originalFire, s.epoch.number, none⟩)) :
    Move s loop (s.reserveCatchupFire loop.lease).1 x := by
  have hrefused : (s.reserveCatchupFire loop.lease).2 = none → Freed x := by
    intro hnone l hl
    rcases h l hl with hfree | ⟨hsome, -⟩
    · exact hfree
    · exact absurd hnone hsome
  rw [CatchupStore.reserveCatchupFire] at hrefused ⊢
  split
  · rename_i hlost
    rw [if_pos hlost] at hrefused
    exact .of_freed (hrefused rfl)
  · rename_i hheld
    rw [if_neg hheld] at hrefused
    split
    · rename_i hstate
      rw [hstate] at hrefused
      exact .of_freed (hrefused rfl)
    · rename_i row hstate
      rw [hstate] at hrefused
      by_cases hspent : row.status ≠ .active ∨ row.remainingBudget ≤ 0
      · simp only [if_pos hspent, true_implies] at hrefused ⊢
        exact .of_freed hrefused
      · simp only [if_neg hspent]
        refine .reserved row hstate (by omega) hloop ?_
        intro l hl
        exact (h l hl).imp_right And.right

theorem restoreCatchupFire_move {r : Reservation} (hstage : loop.stage = .restoring r due)
    (h : Freed x) :
    Move s loop (s.restoreCatchupFire loop.lease).1 x := by
  rw [CatchupStore.restoreCatchupFire]
  by_cases hcurrent : s.leases.isCurrent loop.lease = false
  · rw [if_pos hcurrent]
    exact .of_freed h
  · rw [if_neg hcurrent]
    rw [Bool.not_eq_false] at hcurrent
    split
    · exact .of_freed h
    · rename_i row hstate
      split
      · exact .of_freed h
      · exact .restored r due row hstage hcurrent hstate h

theorem completeCatchup_move (h : Freed x) : Move s loop (s.completeCatchup loop.lease).1 x := by
  rw [CatchupStore.completeCatchup]
  split
  · exact .of_freed h
  · split
    · exact .of_freed h
    · rename_i row hstate
      split
      · exact .of_freed h
      · exact .completed row hstate h

theorem move_of_call {call : CatchupCall} (hcommits : choice.commits)
    (hcall : loop.request sc = some call) :
    Move c.store loop (c.perform sc call).1.store
      (loop.next sc c (c.perform sc call).2 choice) := by
  rw [CatchupLoop.request] at hcall
  split at hcall
  · rename_i hstage
    cases hcall
    exact prepareCatchup_move (by rw [hstage]; rfl)
      (freed_of_silent (by rw [hstage]; rfl) (by rw [hstage]; simp))
  · rename_i hstage
    split at hcall
    · cases hcall
    · cases hcall
      refine reserveCatchupFire_move (by rw [hstage]; rfl) ?_
      intro l hl
      rcases (CatchupLoop.next_passes hl).2.reservation with
        hnone | hsame | ⟨scheduleId, originalFire, _, -, hsome, hres⟩
      · exact .inl hnone
      · left
        rw [hsame, hstage]
        rfl
      · exact .inr ⟨hsome, scheduleId, originalFire, hres⟩
  · cases hcall
    exact move_of_silent rfl
  · obtain ⟨fireCall, -, rfl⟩ := map_eq_some_iff.mp hcall
    exact move_of_silent rfl
  · rename_i hstage
    cases hcall
    refine restoreCatchupFire_move hstage ?_
    intro l hl
    have hpasses := (CatchupLoop.next_passes hl).2
    rw [hstage] at hpasses
    generalize l.stage = stage' at hpasses ⊢
    cases hpasses with
    | dropped hdropped => exact hdropped
    | kept => cases hcommits
  · obtain ⟨fireCall, -, rfl⟩ := map_eq_some_iff.mp hcall
    exact move_of_silent rfl
  · cases hcall
    exact move_of_silent rfl
  · rename_i hstage
    cases hcall
    exact completeCatchup_move (freed_of_silent (by rw [hstage]; rfl) (by rw [hstage]; simp))
  · rename_i hstage
    cases hcall
    exact .released _ (release_fence_le _ _ _)
      (freed_of_silent (by rw [hstage]; rfl) (by rw [hstage]; simp))
  · cases hcall

/-- The run after a step. -/
def Cluster.nextLoop (sc : String → Scheduler) (c : Cluster) (loop : CatchupLoop)
    (choice : Choice) : Option CatchupLoop :=
  (loop.mark (loop.settles sc c choice)).next sc c
    (c.result sc (if choice.commits then loop.request sc else none)).2 choice

theorem advance_move (hacc : loop.Accounted)
    (hepoch : ∀ r due fire, loop.stage = .firing r due fire → loop.settles sc c choice ≠ none →
      c.store.catchupActive → r.epoch = c.store.epoch.number) (i : Nat) :
    Move c.store loop (c.advance sc i loop choice).store (c.nextLoop sc loop choice) := by
  rw [Cluster.advance, Cluster.nextLoop]
  cases hsettles : loop.settles sc c choice with
  | none =>
    by_cases hcommits : choice.commits
    · rw [if_pos hcommits]
      cases hcall : loop.request sc with
      | none => exact move_of_silent rfl
      | some => exact move_of_call hcommits hcall
    · rw [if_neg hcommits]
      exact move_of_silent rfl
  | some occurrence =>
    obtain ⟨r, due, fire, hstage, hcommits, hsettled, hid⟩ := CatchupLoop.settles_some hsettles
    have hloop : loop.stage.reservation = some r := by rw [hstage]; rfl
    have hagain : ∀ t', r.settledAt = some t' → t' = occurrence.2 := by
      intro t' ht'
      have hspent := hacc r t' hloop ht'
      rw [hstage] at hspent
      exact Stage.Spent.settles hspent hsettled
    obtain ⟨fireCall, hfire, -⟩ := bind_eq_some_iff.mp hsettled
    have hcall : loop.request sc = some (.schedule r.scheduleId fireCall) := by
      rw [CatchupLoop.request, hstage, map_eq_some_iff]
      exact ⟨fireCall, hfire, rfl⟩
    rw [if_pos hcommits, hcall, CatchupLoop.mark_some hstage]
    change Move c.store loop (c.store.record occurrence.1 occurrence.2) _
    rw [hid]
    refine .settled r occurrence.2 hloop hagain (hepoch r due fire hstage (by simp [hsettles])) ?_
    intro l hl
    rcases (CatchupLoop.next_passes hl).2.reservation with hnone | hsame | ⟨_, _, _, -, hsome, -⟩
    · exact .inl hnone
    · exact .inr hsame
    · exact absurd rfl hsome

end

end Cognis.Schedule
