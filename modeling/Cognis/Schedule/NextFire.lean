import Cognis.Schedule.ErrorCount

namespace Cognis.Schedule

open Coordination List Runs

variable (row : ScheduleRow)

variable (sc : Scheduler) (db : Database) (taskId : FireKey)

def settledOccurrence : Call → Option Int
  | .advanceSchedule scheduledFireAt _ _ _ l =>
    if lockLease db l && db.schedule.any (·.nextFireAt = some scheduledFireAt) then
      some scheduledFireAt
    else none
  | .markFailed c l _ _ _ _ => if failureCommits db c l then some c.scheduledFireAt else none
  | _ => none

/-- A system with the occurrences settled so far. -/
structure Course where
  system : System
  settled : List Int

def Course.step (sc : Scheduler) (t : Course) (e : Event) : Course where
  system := t.system.step sc e
  settled := ((t.system.call sc e.action).bind (settledOccurrence (t.system.found e))).toList ++
    t.settled

def Course.fresh (schedule : ScheduleRow) (leases : LeaseStore) : Course :=
  ⟨⟨.fresh schedule leases, []⟩, []⟩

def writesAhead (status : TaskStatus) (next : Option Int) : Bool :=
  db.fires.all (fun f => f.taskId ≠ some taskId || f.settled) || db.schedule.all fun row =>
      status ≠ .failed || !(row.failRun taskId sc.maxConsecutiveErrors).enabled ||
        next = row.nextFireAt || next.all (db.now < ·)

/-- Only due occurrences are claimed, no stale next fire is written back, and the
next fire is initialised before the first fire only. -/
def movesForward : Call → Bool
  | .claim scheduledFireAt l =>
    !lockLease db l || scheduledFireAt ≤ db.now ||
      !db.schedule.any fun row => row.enabled && row.nextFireAt = some scheduledFireAt
  | .projectRecurring taskId status next => writesAhead sc db taskId status next
  | .updateNextFireAt _ => db.schedule.all (·.lastFiredAt = none)
  | _ => true

def movesForwardStep (t : Course) (e : Event) : Bool :=
  (t.system.call sc e.action).all (movesForward sc (t.system.found e))

def Scheduler.Increasing : Prop :=
  sc.config.scheduleType ≠ .oneShot ∧
    ∀ row after next, sc.computeNextFire row after = some next → after < next

/-- Settled occurrences are past, and the next one is after them. -/
structure Ahead (db : Database) (settled : List Int) : Prop where
  due : ∀ t ∈ settled, t ≤ db.now
  ahead : ∀ row, db.schedule = some row → ∀ next, row.nextFireAt = some next →
    ∀ t ∈ settled, t < next
  unfired : ∀ row, db.schedule = some row → row.lastFiredAt = none → settled = []

/-- A statement that settles an occurrence settles a due one, for a later one. -/
def Call.Forward (now : Int) : Call → Prop
  | .advanceSchedule scheduledFireAt next _ _ _ =>
    scheduledFireAt ≤ now ∧ ∀ n, next = some n → scheduledFireAt < n
  | .markFailed c _ _ next _ _ =>
    c.scheduledFireAt ≤ now ∧ ∀ n, next = some n → c.scheduledFireAt < n
  | _ => True

def Stage.Due (now : Int) : Stage → Prop
  | .fireReplaced _ c | .fireLooking _ c | .fireDispatching _ c | .fireReconciling _ c
  | .fireMarking _ c | .fireAdvancing _ c _ _ | .fireDeleting _ c _ | .fireFailing _ c _ =>
    c.scheduledFireAt ≤ now
  | .fireSettlingFailure _ c _ now' => c.scheduledFireAt ≤ now' ∧ now' ≤ now
  | .backlogListed _ now' | .backlogAcquired _ now' => now' ≤ now
  | .backlogAdvancing _ now' scheduledFireAt _ => scheduledFireAt ≤ now' ∧ now' ≤ now
  | _ => True

variable {now : Int} {db' : Database} {l : Lease} {c : ScheduleFireClaim}

theorem Stage.Due.mono {now' : Int} {stage : Stage} (h : stage.Due now) (hle : now ≤ now') :
    stage.Due now' := by
  cases stage <;> simp only [Stage.Due] at h ⊢ <;> omega

def ScheduleRow.Stays (row row' : ScheduleRow) : Prop :=
  (row'.nextFireAt = row.nextFireAt ∨ row'.nextFireAt = none) ∧
    (row'.lastFiredAt = none → row.lastFiredAt = none)

section

variable {sc : Scheduler} {db : Database} {settled : List Int} {call : Call}

theorem Ahead.same (h : Ahead db settled) (hnow : db'.now = db.now)
    (hrow : ∀ row', db'.schedule = some row' → ∃ row, db.schedule = some row ∧ row.Stays row') :
    Ahead db' settled := by
  constructor
  · intro t ht
    rw [hnow]
    exact h.due t ht
  · intro row' hrow' next hnext
    obtain ⟨row, hschedule, hfire, -⟩ := hrow row' hrow'
    rcases hfire with heq | hnone
    · exact h.ahead row hschedule next (heq ▸ hnext)
    · rw [hnone] at hnext
      cases hnext
  · intro row' hrow' hlast
    obtain ⟨row, hschedule, -, hunfired⟩ := hrow row' hrow'
    exact h.unfired row hschedule (hunfired hlast)

theorem Ahead.keep (h : Ahead db settled) (hnow : db'.now = db.now)
    (hrow : db'.schedule = db.schedule) : Ahead db' settled := by
  apply h.same hnow
  intro row' hrow'
  rw [hrow] at hrow'
  exact ⟨row', hrow', .inl rfl, id⟩

theorem Ahead.settle {schedule row' : ScheduleRow} {at_ : Int}
    (h : Ahead db settled) (hnow : db'.now = db.now) (hschedule : db.schedule = some schedule)
    (hnext : schedule.nextFireAt = some at_) (hdue : at_ ≤ db.now)
    (hlater : ∀ n, row'.nextFireAt = some n → at_ < n) (hfired : row'.lastFiredAt = some at_)
    (hrow' : db'.schedule = some row') : Ahead db' (at_ :: settled) := by
  constructor
  · intro t ht
    rw [hnow]
    rcases mem_cons.mp ht with rfl | hold
    · exact hdue
    · exact h.due t hold
  · intro row hrow next hrownext t ht
    rw [hrow'] at hrow
    cases hrow
    have hlt := hlater next hrownext
    rcases mem_cons.mp ht with rfl | hold
    · exact hlt
    · exact lt_trans (h.ahead schedule hschedule at_ hnext t hold) hlt
  · intro row hrow hlast
    rw [hrow'] at hrow
    rw [← Option.some.inj hrow, hfired] at hlast
    cases hlast

theorem Ahead.nothing : Ahead db [] where
  due _ ht := nomatch ht
  ahead _ _ _ _ _ ht := nomatch ht
  unfired _ _ _ := rfl

theorem ScheduleRow.stays_countFailures (errors : Nat) (lastTaskId : Option FireKey) (limit : Nat) :
    row.Stays (row.countFailures errors lastTaskId limit) := by
  unfold ScheduleRow.countFailures
  split
  · exact ⟨.inr rfl, id⟩
  · exact ⟨.inl rfl, id⟩

theorem ScheduleRow.stays_failRun (limit : Nat) : row.Stays (row.failRun taskId limit) := by
  unfold ScheduleRow.failRun
  dsimp only
  split
  · exact ⟨.inr rfl, id⟩
  · exact ⟨.inl rfl, id⟩

theorem ScheduleRow.stays_projectManual (status : TaskStatus) (completedAt : Int) (limit : Nat) :
    row.Stays (row.projectManual taskId status completedAt limit) := by
  unfold ScheduleRow.projectManual
  split
  · have hfail := ScheduleRow.stays_failRun
      { row with lastFiredAt := some completedAt } taskId limit
    exact ⟨hfail.1, fun hlast => nomatch hfail.2 hlast⟩
  · exact ⟨.inl rfl, fun hlast => nomatch hlast⟩

theorem replacement_schedule (cfg : ScheduleConfig) {db : Database} {row : ScheduleRow}
    (hrow : db.schedule = some row) (limit : Nat) :
    ∃ row', (replacement cfg db row limit).1.schedule = some row' ∧ row.Stays row' := by
  have hsame : row.Stays row := ⟨.inl rfl, id⟩
  unfold replacement
  split
  · unfold replacePaused
    dsimp only
    split
    · exact ⟨row, hrow, hsame⟩
    · exact ⟨_, rfl, ScheduleRow.stays_countFailures row _ _ limit⟩
  · exact ⟨row, hrow, hsame⟩

theorem claim_stays (scheduledFireAt : Int) (l : Lease) {row' : ScheduleRow}
    (hrow' : (perform sc db (.claim scheduledFireAt l)).1.schedule = some row') :
    ∃ row, db.schedule = some row ∧ row.Stays row' := by
  have hsame : ∀ row : ScheduleRow, row.Stays row := fun row => ⟨.inl rfl, id⟩
  have hresult := claim_result sc.config db scheduledFireAt l sc.maxConsecutiveErrors
  simp only [perform] at hrow'
  generalize claim sc.config db scheduledFireAt l sc.maxConsecutiveErrors = r at hresult hrow'
  cases hresult with
  | refused => exact ⟨row', hrow', hsame row'⟩
  | settled =>
    rw [insertFire_schedule] at hrow'
    exact ⟨row', hrow', hsame row'⟩
  | existing =>
    simp only [claimExisting, Database.updateFires_schedule, insertFire_schedule] at hrow'
    exact ⟨row', hrow', hsame row'⟩
  | fresh schedule fire hschedule =>
    have hinserted : (insertFire sc.config db scheduledFireAt).schedule = some schedule := by
      rw [insertFire_schedule, hschedule]
    obtain ⟨row, hreplaced, hstays⟩ :=
      replacement_schedule sc.config hinserted sc.maxConsecutiveErrors
    have hclaim : (claimFresh sc.config scheduledFireAt (replacement sc.config
        (insertFire sc.config db scheduledFireAt) schedule sc.maxConsecutiveErrors)).1.schedule =
        some row := by
      rw [← hreplaced, claimFresh]
      split <;> rfl
    rw [hclaim] at hrow'
    cases hrow'
    exact ⟨schedule, hschedule, hstays⟩

theorem claimManual_schedule (htype : sc.config.scheduleType ≠ .oneShot) (l : Lease) :
    (claimManual sc.config db l).1.schedule = db.schedule := by
  have hresult := claimManual_result sc.config db l
  generalize claimManual sc.config db l = r at hresult ⊢
  cases hresult with
  | refused | consumed | resumed => rfl
  | fresh =>
    unfold claimFreshManual
    dsimp only
    split <;> rfl

theorem settleManualDispatched_schedule (htype : sc.config.scheduleType ≠ .oneShot)
    (c : ScheduleFireClaim) (l : Lease) (status : RunStatus) :
    (settleManualDispatched sc.config db c l status).1.schedule = db.schedule := by
  unfold settleManualDispatched
  split
  · rfl
  · dsimp only
    split
    · rfl
    · split
      · rfl
      · rfl

theorem projectRecurring_ahead (h : Ahead db settled) {taskId : FireKey} {status : TaskStatus}
    {next : Option Int} (hcond : writesAhead sc db taskId status next) :
    Ahead (perform sc db (.projectRecurring taskId status next)).1 settled := by
  have hnow := perform_now sc db (.projectRecurring taskId status next)
  simp only [perform] at hnow ⊢
  obtain heq | ⟨fire, schedule, hend, hfire, hopen, hschedule, heq⟩ :=
    projectRecurringTerminalResult_cases db taskId status next sc.maxConsecutiveErrors
  · rw [heq]
    exact h
  · rw [heq] at hnow ⊢
    by_cases hwrites : status = .failed ∧
        (schedule.failRun taskId sc.maxConsecutiveErrors).enabled
    · have hunsettled : db.fires.all (fun f => f.taskId ≠ some taskId || f.settled) = false := by
        have hmatch := find?_some hfire
        have htask := (of_decide_eq_true hmatch).1
        rw [all_eq_false]
        refine ⟨fire, mem_of_find?_eq_some hfire, ?_⟩
        simp [htask, hopen]
      have hwritten : next = schedule.nextFireAt ∨ next.all (db.now < ·) := by
        rw [writesAhead, hunsettled, hschedule, Bool.false_or] at hcond
        simpa [hwrites.1, hwrites.2] using hcond
      have hrow : schedule.projectRecurring taskId status next sc.maxConsecutiveErrors =
          { schedule.failRun taskId sc.maxConsecutiveErrors with nextFireAt := next } := by
        rw [ScheduleRow.projectRecurring, if_pos hwrites.1]
        exact if_pos hwrites.2
      have hlast := (schedule.stays_failRun taskId sc.maxConsecutiveErrors).2
      rw [hrow] at hnow ⊢
      constructor
      · intro t ht
        exact h.due t ht
      · intro row hrow' n hn t ht
        rw [← Option.some.inj hrow'] at hn
        rcases hwritten with hstored | hlater
        · exact h.ahead schedule hschedule n (hstored ▸ hn) t ht
        · change next = some n at hn
          rw [hn] at hlater
          exact lt_of_le_of_lt (h.due t ht) (of_decide_eq_true hlater)
      · intro row hrow' hnone
        rw [← Option.some.inj hrow'] at hnone
        exact h.unfired schedule hschedule (hlast hnone)
    · apply h.same hnow
      intro row hrow
      refine ⟨schedule, hschedule, ?_⟩
      rw [← Option.some.inj hrow, ScheduleRow.projectRecurring]
      split
      · rename_i hfailed
        rw [if_neg fun henabled => hwrites ⟨hfailed, henabled⟩]
        exact schedule.stays_failRun taskId sc.maxConsecutiveErrors
      · exact ⟨.inl rfl, id⟩

theorem perform_ahead (hsc : sc.Increasing) (h : Ahead db settled)
    (hcall : call.Forward db.now) (hcond : movesForward sc db call) :
    Ahead (perform sc db call).1 ((settledOccurrence db call).toList ++ settled) := by
  have hnow := perform_now sc db call
  cases call with
  | claim scheduledFireAt l =>
      exact h.same hnow fun row' hrow' => claim_stays scheduledFireAt l hrow'
  | claimManual l => exact h.keep hnow (claimManual_schedule hsc.1 l)
  | linkManualTask c l => exact h.keep hnow (linkManualTask_frame c l).2.2
  | markDispatched c l => exact h.keep hnow (markDispatched_frame c l).2.2
  | settleManualDispatched c l status =>
    exact h.keep hnow (settleManualDispatched_schedule hsc.1 c l status)
  | markManualFailed c l error => exact h.keep hnow (markManualFailed_frame c l error).2.2
  | markFailed c l =>
    simp only [perform, markFailed, settledOccurrence] at hnow ⊢
    cases hlease : lockLease db l with
    | false =>
      simp only [failureCommits, hlease]
      exact h
    | true =>
      cases hschedule : db.schedule with
      | none =>
        have hnot : failureCommits db c l = false := by simp [failureCommits, hschedule]
        simp only [hnot]
        exact h
      | some schedule =>
        by_cases hmatch : schedule.nextFireAt = some c.scheduledFireAt ∧ schedule.enabled
        · have hcommits : failureCommits db c l := by
            simp [failureCommits, hlease, hschedule, hmatch.1, hmatch.2]
          simp only [hlease, hschedule, if_pos hmatch, hcommits] at hnow ⊢
          exact h.settle hnow hschedule hmatch.1 hcall.1 hcall.2 rfl rfl
        · have hnot : failureCommits db c l = false := by
            rw [Bool.eq_false_iff]
            intro hcommits
            apply hmatch
            simpa [failureCommits, hlease, hschedule] using hcommits
          simp only [if_neg hmatch, hnot]
          exact h
  | advanceSchedule scheduledFireAt next status errors l =>
    simp only [perform, advanceSchedule, settledOccurrence] at hnow ⊢
    cases hlease : lockLease db l with
    | false => exact h
    | true =>
      cases hschedule : db.schedule with
      | none => exact h
      | some schedule =>
        by_cases hmatch : schedule.nextFireAt = some scheduledFireAt
        · simp only [hlease, hschedule, if_pos hmatch] at hnow ⊢
          have hany : (some schedule).any (·.nextFireAt = some scheduledFireAt) := by
            simp [hmatch]
          rw [hany]
          exact h.settle hnow hschedule hmatch hcall.1 hcall.2 rfl rfl
        · have hany : (some schedule).any (·.nextFireAt = some scheduledFireAt) = false := by
            simp [hmatch]
          simp only [if_neg hmatch, hany]
          exact h
  | projectManual taskId status completedAt =>
    simp only [perform] at hnow ⊢
    obtain heq | ⟨fire, schedule, -, -, -, hschedule, heq⟩ :=
      projectManualTerminalResult_cases db taskId status completedAt sc.maxConsecutiveErrors
    · rw [heq]
      exact h
    · rw [heq] at hnow ⊢
      apply h.same hnow
      intro row hrow
      rw [← Option.some.inj hrow]
      exact ⟨schedule, hschedule, schedule.stays_projectManual taskId status completedAt _⟩
  | projectRecurring => exact projectRecurring_ahead h hcond
  | submit =>
    apply h.keep hnow
    simp only [perform, submit]
    split <;> rfl
  | submitExisting =>
    apply h.keep hnow
    simp only [perform, submitExisting]
    split <;> rfl
  | updateNextFireAt =>
    simp only [perform, updateNextFireAt] at hnow ⊢
    cases hschedule : db.schedule with
    | none => exact h
    | some row =>
      have hlast : row.lastFiredAt = none := by
        simpa [movesForward, hschedule] using hcond
      have hnil := h.unfired row hschedule hlast
      subst hnil
      exact .nothing
  | initialiseNextFireTimes =>
    simp only [perform, initialiseNextFireTimes] at hnow ⊢
    split
    · exact h
    · rename_i row hrow
      split
      · split
        · rename_i next hnext
          constructor
          · intro t ht
            exact h.due t ht
          · intro row' hrow' n hn t ht
            rw [← Option.some.inj hrow'] at hn
            rw [← Option.some.inj hn]
            exact lt_of_le_of_lt (h.due t ht) (hsc.2 row db.now next hnext)
          · intro row' hrow' hlast
            rw [← Option.some.inj hrow'] at hlast
            exact h.unfired row hrow hlast
        · exact h
      · exact h
  | deleteSchedule =>
    apply h.same hnow
    intro row' hrow'
    cases hrow'
  | moveTask | lease => exact h.keep hnow rfl

end

section

variable {sc : Scheduler} {db : Database} {reply : Reply} {stage stage' : Stage}

theorem Stage.Due.request {call : Call} (hsc : sc.Increasing) (h : stage.Due db.now)
    (hcall : stage.request sc = some call) : call.Forward db.now := by
  cases stage with
  | fireAdvancing =>
    cases hcall
    refine ⟨h, ?_⟩
    intro n hn
    rw [Stage.nextFire, if_neg hsc.1] at hn
    exact hsc.2 _ _ n hn
  | fireSettlingFailure l c =>
    cases hcall
    obtain ⟨hdue, hnow⟩ := h
    refine ⟨le_trans hdue hnow, ?_⟩
    intro n hn
    split at hn
    · cases hn
    · have hbackoff := computeBackoffDelay_pos (c.schedule.consecutiveErrors + 1)
      rw [← Option.some.inj hn]
      omega
  | backlogAdvancing =>
    cases hcall
    obtain ⟨hdue, hnow⟩ := h
    refine ⟨le_trans hdue hnow, ?_⟩
    intro n hn
    exact lt_of_le_of_lt hdue (hsc.2 _ _ n hn)
  | _ =>
    first
    | (cases hcall; trivial)
    | cases hcall

theorem Stage.due_afterClaim
    (h : c.scheduledFireAt ≤ now) : (Stage.afterClaim l c).Due now := by
  unfold Stage.afterClaim
  split
  · exact h
  · split <;> exact h

theorem Stage.due_afterManualClaim : (Stage.afterManualClaim l c).Due now := by
  unfold Stage.afterManualClaim
  split
  · trivial
  · split <;> trivial

theorem claim_scheduledFireAt {cfg : ScheduleConfig} {scheduledFireAt : Int} {limit : Nat}
    (hc : (claim cfg db scheduledFireAt l limit).2 = some c) :
    c.scheduledFireAt = scheduledFireAt := by
  have hresult := claim_result cfg db scheduledFireAt l limit
  generalize claim cfg db scheduledFireAt l limit = r at hresult hc
  cases hresult with
  | refused => cases hc
  | settled | existing =>
    rw [← Option.some.inj hc]
  | fresh =>
    unfold claimFresh at hc
    split at hc
    · rw [← Option.some.inj hc]
    · rw [← Option.some.inj hc]

theorem claim_due {scheduledFireAt : Int}
    (hcond : movesForward sc db (.claim scheduledFireAt l))
    (hc : (perform sc db (.claim scheduledFireAt l)).2.claim = some c) :
    c.scheduledFireAt ≤ db.now := by
  have hat := claim_scheduledFireAt hc
  simp only [perform, claim] at hc
  split at hc
  · cases hc
  · rename_i hlease
    split at hc
    · cases hc
    · rename_i schedule hschedule
      split at hc
      · cases hc
      · rename_i hdue
        rw [not_or, not_ne_iff, Bool.not_eq_false] at hdue
        have hlock : lockLease db l := Bool.of_not_eq_false hlease
        rw [hat]
        simpa [movesForward, hlock, hschedule, hdue.1, hdue.2] using hcond

theorem Stage.Due.proceed (h : stage.Due db.now)
    (hcond : (stage.request sc).all (movesForward sc db))
    (hreply : (System.result sc db (stage.request sc)).2 = reply)
    (hnext : stage.proceed sc db reply = some stage') : stage'.Due db.now := by
  cases stage with
  | fireReady =>
    simp only [Stage.proceed] at hnext
    split at hnext
    · cases hnext
      trivial
    · rename_i c hclaim
      have hdue : c.scheduledFireAt ≤ db.now := by
        rw [← hreply] at hclaim
        exact claim_due hcond hclaim
      split at hnext
      · cases hnext
        exact Stage.due_afterClaim hdue
      · cases hnext
        exact hdue
  | fireReplaced l c =>
    simp only [Stage.proceed] at hnext
    split at hnext
    · cases hnext
      exact Stage.due_afterClaim h
    · cases hnext
      trivial
  | fireFailing =>
    cases hnext
    exact ⟨h, le_refl _⟩
  | manualReady l =>
    simp only [Stage.proceed] at hnext
    split at hnext
    · cases hnext
      trivial
    · cases hnext
      exact Stage.due_afterManualClaim
  | backlogListed =>
    obtain ⟨l, -, rfl⟩ := Option.map_eq_some_iff.mp hnext
    exact h
  | backlogAcquired =>
    simp only [Stage.proceed] at hnext
    split at hnext
    · cases hnext
      trivial
    · split at hnext
      · cases hnext
        trivial
      · split at hnext
        · cases hnext
          trivial
        · rename_i hskip
          cases hnext
          rw [not_or, not_or, not_lt] at hskip
          exact ⟨hskip.2.1, h⟩
  | terminalReceived =>
    obtain ⟨task, -, rfl⟩ := Option.map_eq_some_iff.mp hnext
    trivial
  | _ =>
    simp only [Stage.proceed, reduceCtorEq] at hnext
    repeat' split at hnext
    all_goals
      first
      | (cases hnext; trivial)
      | cases hnext

theorem Stage.Due.raised {error : String} (h : stage.Due db.now)
    (hnext : stage.raised error = some stage') : stage'.Due db.now := by
  cases stage <;> simp only [Stage.raised, reduceCtorEq] at hnext <;>
    first
    | (cases hnext; trivial)
    | (split at hnext <;> cases hnext <;> trivial)

theorem Stage.Due.leaseLost (h : stage.Due db.now) (hnext : stage.leaseLost = some stage') :
    stage'.Due db.now := by
  cases stage <;> cases hnext <;> trivial

/-- The course is ahead, and what its activities claim is due. -/
structure Course.Forward (t : Course) : Prop where
  ahead : Ahead t.system.db t.settled
  due : ∀ stage ∈ t.system.activities, stage.Due t.system.db.now

variable {t : Course} {e : Event}

theorem Ahead.wait {settled : List Int} (h : Ahead db settled) (elapsed : Nat) :
    Ahead (db.wait elapsed) settled where
  due s hs := by
    have hle := h.due s hs
    rw [Database.wait_now]
    omega
  ahead := h.ahead
  unfired := h.unfired

theorem System.now_step (sc : Scheduler) (s : System) (e : Event) :
    (s.step sc e).db.now = (s.found e).now := by
  rw [System.step_db, System.outcome]
  cases s.call sc e.action with
  | none => rfl
  | some call => exact perform_now sc (s.found e) call

theorem Course.Forward.step (hsc : sc.Increasing) (h : t.Forward)
    (hcond : movesForwardStep sc t e) : (t.step sc e).Forward := by
  have hfound : Ahead (t.system.found e) t.settled := h.ahead.wait e.elapsed
  have hlater : t.system.db.now ≤ (t.system.found e).now := by
    rw [System.found, Database.wait_now]
    omega
  have hdue : ∀ (i : Nat) (stage : Stage), t.system.activities[i]? = some stage →
      stage.Due (t.system.found e).now := by
    intro i stage hi
    exact (h.due stage (mem_of_getElem? hi)).mono hlater
  constructor
  · change Ahead (t.system.outcome sc e).1 _
    rw [System.outcome, Course.step]
    cases hcall : t.system.call sc e.action with
    | none => exact hfound
    | some call =>
      have hforward : call.Forward (t.system.found e).now := by
        cases haction : e.action with
        | advance i =>
          cases hi : t.system.activities[i]? with
          | none =>
            rw [haction, System.call, hi] at hcall
            simp at hcall
          | some stage =>
            rw [System.call_of_advance sc haction hi] at hcall
            split at hcall
            · exact (hdue i stage hi).request hsc hcall
            · cases hcall
        | _ =>
          rw [haction, System.call] at hcall
          first
          | (cases hcall; trivial)
          | cases hcall
      have hmoves : movesForward sc (t.system.found e) call := by
        rw [movesForwardStep, hcall] at hcond
        exact hcond
      exact perform_ahead hsc hfound hforward hmoves
  · intro stage hstage
    change stage.Due (t.system.step sc e).db.now
    rw [System.now_step]
    obtain ⟨j, hj, -⟩ | ⟨_, l, -, -, hnew⟩ | ⟨_, _, rfl⟩ | ⟨_, rfl⟩ |
      ⟨i, choice, from_, haction, hi, hnext⟩ := System.origin hstage
    · exact hdue j stage hj
    · rcases hnew with rfl | rfl <;> trivial
    · trivial
    · exact le_refl (t.system.found e).now
    · have hfrom := hdue i from_ hi
      have hcall := System.call_of_advance sc haction hi
      cases choice with
      | proceed =>
        have hrequest : (from_.request sc).all (movesForward sc (t.system.found e)) := by
          rw [movesForwardStep, hcall] at hcond
          exact hcond
        apply hfrom.proceed hrequest rfl
        rw [System.outcome, hcall] at hnext
        exact hnext
      | leaseLost => exact hfrom.leaseLost hnext
      | raises | raisesCommitted => exact hfrom.raised hnext

end

/-- However fires, catch-up skips and terminal events interleave: as long as
only due occurrences are claimed and no stale next fire is written back, the
schedule stands past every occurrence it has settled. -/
theorem nextFireAt_past_settled (sc : Scheduler) (hsc : sc.Increasing) (schedule : ScheduleRow)
    (leases : LeaseStore) (es : List Event)
    (hcond : Meets (Course.step sc) (fun t e => movesForwardStep sc t e = true)
      (.fresh schedule leases) es) (row : ScheduleRow) (next : Int)
    (hrow : (run (Course.step sc) (.fresh schedule leases) es).system.db.schedule = some row)
    (hnext : row.nextFireAt = some next) :
    ∀ t ∈ (run (Course.step sc) (.fresh schedule leases) es).settled, t < next := by
  have hstart : (Course.fresh schedule leases).Forward := by
    refine ⟨.nothing, ?_⟩
    intro stage hstage
    cases hstage
  have hforward := run_invariant_of_meets Course.Forward (fun t e ht he => ht.step hsc he)
    hstart hcond
  exact hforward.ahead.ahead row hrow next hnext

theorem minutelyTwice_increasing : minutelyTwice.Increasing := by
  refine ⟨by decide, ?_⟩
  intro row after next hnext
  have heq : after + 60 * second = next := Option.some.inj hnext
  have hpos : 0 < 60 * second := by decide
  omega

/-- Two fires, with the first task failing between them. -/
theorem nextFireAt_past_settled_two :
    let es := ⟨1, .fire "a"⟩ :: go 9 ++ firstTaskFails 0 ++ ⟨60000000, .fire "a"⟩ :: go 9
    (run (Course.step minutelyTwice) (.fresh minutelyRow .empty) es).settled = [60000001, 1] ∧
      ∃ row next,
        (run (Course.step minutelyTwice) (.fresh minutelyRow .empty) es).system.db.schedule =
          some row ∧
        row.nextFireAt = some next ∧
        ∀ t ∈ (run (Course.step minutelyTwice) (.fresh minutelyRow .empty) es).settled,
          t < next := by
  intro es
  have hstands : (run (Course.step minutelyTwice)
      (.fresh minutelyRow .empty) es).system.db.schedule.any (·.nextFireAt.isSome) := by
    decide +kernel
  rw [Option.any_eq_true] at hstands
  obtain ⟨row, hrow, hsome⟩ := hstands
  obtain ⟨next, hnext⟩ := Option.isSome_iff_exists.mp hsome
  refine ⟨by decide +kernel, row, next, hrow, hnext, ?_⟩
  exact nextFireAt_past_settled minutelyTwice minutelyTwice_increasing minutelyRow .empty es
    (by decide +kernel) row next hrow hnext

/-- The event of the failed first task is read before the second fire and
written after it: the schedule stands at the second occurrence again. -/
theorem terminal_event_moves_back :
    let read : List Event := ⟨1, .moveTask (.recurring, 1) .failed none⟩ ::
      ⟨1, .terminalEvent (.recurring, 1) false⟩ :: go 3
    let second : List Event := ⟨60000000, .fire "a"⟩ :: replicate 9 ⟨1, .advance 1 .proceed⟩
    let es := ⟨1, .fire "a"⟩ :: go 9 ++ read ++ second ++ go 2
    let final := run (Course.step minutelyTwice) (.fresh minutelyRow .empty) es
    final.settled = [60000001, 1] ∧
      final.system.db.schedule.bind (·.nextFireAt) = some 60000001 := by
  decide +kernel

end Cognis.Schedule
