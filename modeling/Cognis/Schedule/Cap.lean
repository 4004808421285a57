import Cognis.Schedule.Leases

namespace Cognis.Schedule

open Coordination Option Runs

variable {l : Lease} {c : ScheduleFireClaim}

variable (sc : Scheduler) (db : Database)

/-- One more task fits under the cap. -/
def Room : Prop :=
  (db.activeCount : Int) < sc.config.maxConcurrentRuns

instance (sc : Scheduler) (db : Database) : Decidable (Room sc db) :=
  inferInstanceAs (Decidable ((_ : Int) < _))

def resumesWithRoom : Bool :=
  (pendingManual db).all fun f =>
    (db.getTask (f.taskId.getD (manualScheduleTaskId f.scheduledFireAt))).any
      (·.status ≠ .draft) || Room sc db

/-- A task is queued only under a lease that is still current, and `claim_manual`
resumes a pending fire only where the cap it does not check has room. -/
def enqueuesOwned (s : System) (e : Event) : Bool :=
  match e.action with
  | .advance i choice =>
    match s.activities[i]? with
    | some (.fireDispatching l _) | some (.manualSubmitting l _ _) =>
      !choice.commits || (s.found e).leases.isCurrent l
    | some (.manualReady l) =>
      !choice.commits || !lockLease (s.found e) l || resumesWithRoom sc (s.found e)
    | _ => true
  | _ => true

/-- What an activity knows of the cap while its lease is current. -/
def Stage.HasRoom : Stage → Prop
  | .fireReplaced _ c => c.shouldDispatch = true →
    (db.getTask c.taskId).isSome = true ∨ Room sc db
  | .fireLooking _ c | .fireDispatching _ c => (db.getTask c.taskId).isSome = true ∨ Room sc db
  | .manualLooking _ c | .manualDispatching _ c | .manualLinking _ c _ | .manualReconciling _ c _
  | .manualActivating _ c _ | .manualSubmitting _ c _ => Launched db c.taskId ∨ Room sc db
  | _ => True

/-- No more tasks are active than allowed, and who may launch one has room. -/
structure System.Capped (sc : Scheduler) (s : System) : Prop where
  sound : s.Sound
  leased : s.Leased sc
  cap : (s.db.activeCount : Int) ≤ sc.config.maxConcurrentRuns
  room : ∀ stage ∈ s.activities, ∀ l, stage.lease = some l → s.db.leases.isCurrent l = true →
    stage.HasRoom sc s.db

section

variable {sc : Scheduler} {s : System} {e : Event}

def Stage.Grows : Stage → Prop
  | .fireDispatching _ c => db.getTask c.taskId = none
  | .manualSubmitting _ c _ => ¬ Launched db c.taskId
  | _ => False

variable {stage : Stage}

theorem Stage.request_submit {taskId : FireKey} {scheduledFor : Int} {status : TaskStatus}
    (h : stage.request sc = some (.submit taskId scheduledFor status))
    (hactive : status.Active) : ∃ l c, stage = .fireDispatching l c ∧ c.taskId = taskId := by
  cases stage <;> simp only [Stage.request, Stage.failure, reduceCtorEq, some.injEq,
    Call.submit.injEq] at h
  · exact ⟨_, _, rfl, h.1⟩
  · rw [← h.2.2] at hactive
    exact absurd hactive (by decide)

theorem Stage.request_submitExisting {taskId : FireKey}
    (h : stage.request sc = some (.submitExisting taskId)) :
    ∃ l c settle, stage = .manualSubmitting l c settle ∧ c.taskId = taskId := by
  cases stage <;> simp only [Stage.request, Stage.failure, reduceCtorEq, some.injEq,
    Call.submitExisting.injEq] at h
  exact ⟨_, _, _, rfl, h⟩

theorem System.advance_of_call {call : Call} (hcall : s.call sc e.action = some call)
    (htask : (∃ taskId scheduledFor status, call = .submit taskId scheduledFor status) ∨
      ∃ taskId, call = .submitExisting taskId) :
    ∃ i choice stage, e.action = .advance i choice ∧ choice.commits ∧
      s.activities[i]? = some stage ∧ stage.request sc = some call := by
  cases haction : e.action with
  | advance i choice =>
    cases hi : s.activities[i]? with
    | none =>
      rw [haction, System.call, hi] at hcall
      simp at hcall
    | some stage =>
      rw [System.call_of_advance sc haction hi] at hcall
      split at hcall
      · rename_i hcommits
        exact ⟨i, choice, stage, rfl, hcommits, hi, hcall⟩
      · cases hcall
  | _ =>
    rw [haction, System.call] at hcall
    first
    | (cases hcall
       rcases htask with ⟨_, _, _, h⟩ | ⟨_, h⟩ <;> cases h)
    | cases hcall

theorem System.activeCount_step (sc : Scheduler) (e : Event) (h : s.Sound) :
    (s.step sc e).db.activeCount ≤ s.db.activeCount ∨
    ∃ i choice stage, e.action = .advance i choice ∧ choice.commits ∧
      s.activities[i]? = some stage ∧ stage.Grows (s.found e) ∧
      (s.step sc e).db.activeCount ≤ s.db.activeCount + 1 := by
  cases hcall : s.call sc e.action with
  | none =>
    left
    rw [System.step_db, System.outcome, hcall]
    exact le_refl _
  | some call =>
    have hdb : (s.step sc e).db = (perform sc (s.found e) call).1 := by
      rw [System.step_db, System.outcome, hcall]
      rfl
    have hchange : TasksChange (s.found e) call (s.step sc e).db.tasks := by
      rw [hdb]
      exact perform_tasksChange sc (s.found e) call
    have hsucc : (s.step sc e).db.activeCount ≤ s.db.activeCount + 1 :=
      hchange.activeCount_le_succ h.taskIds
    by_cases hqueue : ∃ taskId, call = .submitExisting taskId
    · obtain ⟨taskId, rfl⟩ := hqueue
      obtain ⟨i, choice, stage, haction, hcommits, hi, hreq⟩ :=
        System.advance_of_call hcall (.inr ⟨taskId, rfl⟩)
      obtain ⟨l, c, settle, rfl, rfl⟩ := Stage.request_submitExisting hreq
      obtain hsame | ⟨t, ht, hdraft, -⟩ := submitExisting_cases (s.found e) c.taskId
      · left
        rw [hdb, perform, hsame]
        exact le_refl _
      · right
        refine ⟨i, choice, _, haction, hcommits, hi, ?_, hsucc⟩
        rintro ⟨t', ht', hnot⟩
        rw [ht] at ht'
        exact hnot (some.inj ht' ▸ hdraft)
    · by_cases hsubmit : ∃ taskId scheduledFor status,
          call = .submit taskId scheduledFor status ∧ status.Active
      · obtain ⟨taskId, scheduledFor, status, rfl, hactive⟩ := hsubmit
        obtain ⟨i, choice, stage, haction, hcommits, hi, hreq⟩ :=
          System.advance_of_call hcall (.inl ⟨taskId, scheduledFor, status, rfl⟩)
        obtain ⟨l, c, rfl, rfl⟩ := Stage.request_submit hreq hactive
        obtain ⟨-, hsame⟩ | ⟨hnone, -⟩ := submit_cases (s.found e) c.taskId scheduledFor status
        · left
          rw [hdb, perform, hsame]
          exact le_refl _
        · exact .inr ⟨i, choice, _, haction, hcommits, hi, hnone, hsucc⟩
      · left
        apply hchange.activeCount_le
        · intro taskId scheduledFor status heq hactive
          exact hsubmit ⟨taskId, scheduledFor, status, heq, hactive⟩
        · intro taskId heq
          exact hqueue ⟨taskId, heq⟩

end

section

variable {sc : Scheduler} {db db' : Database} {reply : Reply} {stage stage' : Stage}

theorem Room.mono (h : Room sc db) (hle : db'.activeCount ≤ db.activeCount) : Room sc db' := by
  unfold Room at h ⊢
  omega

theorem Stage.HasRoom.mono {call : Call} (h : stage.HasRoom sc db)
    (hchange : TasksChange db call db'.tasks) (hle : db'.activeCount ≤ db.activeCount) :
    stage.HasRoom sc db' := by
  have hsome : ∀ taskId, (db.getTask taskId).isSome ∨ Room sc db →
      (db'.getTask taskId).isSome ∨ Room sc db' := by
    intro taskId hor
    exact hor.imp hchange.isSome (fun hr => hr.mono hle)
  have hlaunched : ∀ taskId, Launched db taskId ∨ Room sc db →
      Launched db' taskId ∨ Room sc db' := by
    intro taskId hor
    exact hor.imp hchange.launched (fun hr => hr.mono hle)
  cases stage with
  | fireReplaced l c => exact fun hdispatch => hsome c.taskId (h hdispatch)
  | fireLooking l c | fireDispatching l c => exact hsome c.taskId h
  | manualLooking l c | manualDispatching l c | manualLinking l c status
  | manualReconciling l c | manualActivating l c | manualSubmitting l c =>
    exact hlaunched c.taskId h
  | _ => trivial

theorem Stage.hasRoom_afterClaim
    (h : c.shouldDispatch → (db.getTask c.taskId).isSome ∨ Room sc db) :
    (Stage.afterClaim l c).HasRoom sc db := by
  unfold Stage.afterClaim
  split
  · trivial
  · split
    · trivial
    · rename_i hdispatch
      exact h (by simpa using hdispatch)

theorem claim_hasRoom {cfg : ScheduleConfig} {scheduledFireAt : Int} {limit : Nat}
    (hc : (claim cfg db scheduledFireAt l limit).2 = some c) (hdispatch : c.shouldDispatch) :
    ((claim cfg db scheduledFireAt l limit).1.getTask c.taskId).isSome ∨
      ((claim cfg db scheduledFireAt l limit).1.activeCount : Int) < cfg.maxConcurrentRuns := by
  have hresult := claim_result cfg db scheduledFireAt l limit
  generalize claim cfg db scheduledFireAt l limit = r at hresult hc ⊢
  cases hresult with
  | refused => cases hc
  | settled =>
    cases hc
    cases hdispatch
  | existing schedule fire hschedule hnext hfire hopen htask =>
    left
    cases hc
    rw [← insertFire_getTask] at htask
    exact htask
  | fresh =>
    right
    rw [claimFresh] at hc ⊢
    split at hc
    · cases hc
      cases hdispatch
    · rename_i hcap
      rw [if_neg hcap]
      exact not_le.mp hcap

theorem claimManual_hasRoom {sc : Scheduler} (hfires : ∀ f ∈ db.fires, f.Sound db)
    (hresume : lockLease db l → resumesWithRoom sc db)
    (hc : (claimManual sc.config db l).2 = some c) (hskip : c.status ≠ .skipped) :
    Launched (claimManual sc.config db l).1 c.taskId ∨ Room sc (claimManual sc.config db l).1 := by
  have hresult := claimManual_result sc.config db l
  generalize claimManual sc.config db l = r at hresult hc ⊢
  cases hresult with
  | refused => cases hc
  | consumed schedule fire hschedule htype hnext hfire =>
    left
    cases hc
    obtain ⟨hmem, hkind, hp⟩ := mem_of_newestManual hfire
    obtain ⟨hstatus, htask⟩ := of_decide_eq_true hp
    have hsound := hfires fire hmem
    have hlaunched := hsound.dispatched hkind hstatus htask
    rw [← hsound.taskId_getD rfl] at hlaunched
    exact hlaunched
  | resumed schedule pending hlease hschedule hfire =>
    cases hc
    have hroom := hresume hlease
    rw [resumesWithRoom, hfire, all_some, Bool.or_eq_true] at hroom
    rcases hroom with hany | hroom
    · left
      obtain ⟨t, ht, hdraft⟩ := (any_eq_true _ _).mp hany
      exact ⟨t, ht, of_decide_eq_true hdraft⟩
    · right
      exact of_decide_eq_true hroom
  | fresh =>
    right
    unfold claimFreshManual at hc ⊢
    split at hc
    · cases hc
      exact absurd rfl hskip
    · rename_i hcap
      rw [if_neg hcap]
      exact not_le.mp hcap

theorem Stage.HasRoom.proceed (hfires : ∀ f ∈ db.fires, f.Sound db) (h : stage.HasRoom sc db)
    (hresult : System.result sc db (stage.request sc) = (db', reply))
    (hle : db'.activeCount ≤ db.activeCount ∨ stage.Grows db)
    (hresume : ∀ l, stage = .manualReady l → lockLease db l → resumesWithRoom sc db)
    (hnext : stage.proceed sc db reply = some stage') : stage'.HasRoom sc db' := by
  obtain ⟨call, hchange, -⟩ := result_tasksChange sc db (stage.request sc)
  rw [hresult] at hchange
  have hkept : ¬ stage.Grows db → stage.HasRoom sc db' := by
    intro hgrows
    exact h.mono hchange (hle.resolve_right hgrows)
  cases stage with
  | fireReady =>
    have hperform := result_of_request rfl hresult
    obtain ⟨hdb, hreply⟩ := Prod.mk.inj hperform
    simp only [Stage.proceed] at hnext
    split at hnext
    · cases hnext
      trivial
    · rename_i c hclaim
      have hc : c.shouldDispatch → (db'.getTask c.taskId).isSome ∨ Room sc db' := by
        intro hdispatch
        rw [← hreply] at hclaim
        rw [← hdb]
        exact claim_hasRoom hclaim hdispatch
      split at hnext
      · cases hnext
        exact Stage.hasRoom_afterClaim hc
      · cases hnext
        exact hc
  | manualReady l =>
    have hperform := result_of_request rfl hresult
    obtain ⟨hdb, hreply⟩ := Prod.mk.inj hperform
    simp only [Stage.proceed] at hnext
    split at hnext
    · cases hnext
      trivial
    · rename_i c hclaim
      have hc : c.status ≠ .skipped → Launched db' c.taskId ∨ Room sc db' := by
        intro hskip
        rw [← hreply] at hclaim
        rw [← hdb]
        exact claimManual_hasRoom hfires (hresume l rfl) hclaim hskip
      cases hnext
      unfold Stage.afterManualClaim
      split
      · trivial
      · rename_i hskip
        split <;> exact hc hskip
  | fireReplaced l c =>
    simp only [Stage.proceed] at hnext
    split at hnext
    · cases hnext
      exact Stage.hasRoom_afterClaim (hkept not_false)
    · cases hnext
      trivial
  | fireLooking l c =>
    simp only [Stage.proceed] at hnext
    split at hnext
    · cases hnext
      trivial
    · cases hnext
      exact hkept not_false
  | manualLooking | manualDispatching =>
    simp only [Stage.proceed] at hnext
    split at hnext <;> cases hnext <;> exact hkept not_false
  | manualLinking | manualReconciling =>
    simp only [Stage.proceed] at hnext
    split at hnext
    · cases hnext
      exact hkept not_false
    · cases hnext
      trivial
  | manualActivating =>
    simp only [Stage.proceed] at hnext
    split at hnext
    · cases hnext
      trivial
    · split at hnext
      · cases hnext
        exact hkept not_false
      · split at hnext <;> cases hnext <;> trivial
  | _ =>
    simp only [Stage.proceed, map_eq_some_iff, reduceCtorEq] at hnext
    repeat' split at hnext
    all_goals
      first
      | (cases hnext; trivial)
      | (obtain ⟨x, -, rfl⟩ := hnext; trivial)
      | cases hnext

theorem Stage.hasRoom_raised {error : String} (hnext : stage.raised error = some stage') :
    stage'.HasRoom sc db' := by
  cases stage <;> simp only [Stage.raised, reduceCtorEq] at hnext <;>
    first
    | (cases hnext; trivial)
    | (split at hnext <;> cases hnext <;> trivial)

theorem Stage.HasRoom.leaseLost (h : stage.HasRoom sc db) (hnext : stage.leaseLost = some stage') :
    stage'.HasRoom sc db := by
  cases stage <;> cases hnext <;> first | exact h | trivial

theorem Stage.HasRoom.room_of_grows (h : stage.HasRoom sc db) (hgrows : stage.Grows db) :
    Room sc db := by
  cases stage with
  | fireDispatching l c =>
    apply h.resolve_left
    rw [hgrows]
    exact Bool.false_ne_true
  | manualSubmitting => exact h.resolve_left hgrows
  | _ => exact absurd hgrows not_false

end

section

variable {sc : Scheduler} {s : System} {e : Event}

theorem System.Capped.hasRoom_found (h : s.Capped sc) {i : Nat} (hi : s.activities[i]? = some stage)
    (hl : stage.lease = some l)
    (hcurrent : (s.found e).leases.isCurrent l) : stage.HasRoom sc (s.found e) := by
  have hroom := h.room stage (List.mem_of_getElem? hi) l hl (System.isCurrent_of_found hcurrent)
  have hsame : TasksChange s.db .initialiseNextFireTimes (s.found e).tasks := .same _
  exact hroom.mono hsame (le_refl _)

theorem lease_of_grows (howned : enqueuesOwned sc s e) {i : Nat} {choice : Choice}
    (haction : e.action = .advance i choice) (hcommits : choice.commits)
    (hi : s.activities[i]? = some stage) (hgrows : stage.Grows (s.found e)) :
    ∃ l, stage.lease = some l ∧ (s.found e).leases.isCurrent l := by
  simp only [enqueuesOwned, haction, hi] at howned
  cases stage with
  | fireDispatching l | manualSubmitting l =>
    refine ⟨l, rfl, ?_⟩
    simpa [hcommits] using howned
  | _ => exact absurd hgrows not_false

theorem resumes_of_owned (howned : enqueuesOwned sc s e) {i : Nat}
    (haction : e.action = .advance i .proceed) (hi : s.activities[i]? = some (.manualReady l))
    (hlease : lockLease (s.found e) l) : resumesWithRoom sc (s.found e) := by
  simp only [enqueuesOwned, haction, hi] at howned
  simpa [Choice.commits, hlease] using howned

theorem System.Capped.step (h : s.Capped sc) (howned : enqueuesOwned sc s e) :
    (s.step sc e).Capped sc := by
  have hgrow := System.activeCount_step sc e h.sound
  refine ⟨h.sound.step e, h.leased.step e, ?_, ?_⟩
  · have hcap := h.cap
    obtain hle | ⟨i, choice, stage, haction, hcommits, hi, hgrows, hsucc⟩ := hgrow
    · omega
    · obtain ⟨l, hl, hcurrent⟩ := lease_of_grows howned haction hcommits hi hgrows
      have hroom : Room sc (s.found e) := (h.hasRoom_found hi hl hcurrent).room_of_grows hgrows
      have hlt : (s.db.activeCount : Int) < sc.config.maxConcurrentRuns := hroom
      omega
  · intro stage hstage l hl hcurrent
    obtain ⟨c, hchange, -⟩ := result_tasksChange sc (s.found e) (s.call sc e.action)
    obtain ⟨j, hj, hother⟩ | ⟨_, l', -, -, hnew⟩ | ⟨_, _, rfl⟩ | ⟨_, rfl⟩ |
      ⟨i, choice, from_, haction, hi, hnext⟩ := System.origin hstage
    · -- another activity adds no task while this one's lease is current
      obtain ⟨hkey, hfence⟩ := h.leased.keyed stage (List.mem_of_getElem? hj) l hl
      rw [← hkey] at hfence
      have hfound := System.isCurrent_found hfence hcurrent
      have hroom := h.hasRoom_found hj hl hfound
      apply hroom.mono hchange
      obtain hle | ⟨i, choice, grower, haction, hcommits, hi, hgrows, -⟩ := hgrow
      · exact hle
      · exfalso
        obtain ⟨l', hl', hcurrent'⟩ := lease_of_grows howned haction hcommits hi hgrows
        have hkey' := (h.leased.keyed grower (List.mem_of_getElem? hi) l' hl').1
        have hsame := (isCurrent_unique (hkey.trans hkey'.symm) hfound hcurrent').2
        exact Pool.rel_of_ne Stage.Apart.symm h.leased.apart (hother i choice haction) hj hi l l'
          hl hl' hsame
    · rcases hnew with rfl | rfl <;> trivial
    · trivial
    · trivial
    · have hfrom : from_.HasRoom sc (s.found e) := by
        rcases Stage.next_lease hnext hl with hold | ⟨⟨_, _, rfl⟩, -, -⟩
        · obtain ⟨hkey, hfence⟩ := h.leased.keyed from_ (List.mem_of_getElem? hi) l hold
          rw [← hkey] at hfence
          exact h.hasRoom_found hi hold (System.isCurrent_found hfence hcurrent)
        · trivial
      have hle : (s.step sc e).db.activeCount ≤ s.db.activeCount ∨
          choice.commits ∧ from_.Grows (s.found e) := by
        obtain hle | ⟨i', choice', grower, haction', hcommits, hi', hgrows, -⟩ := hgrow
        · exact .inl hle
        · rw [haction] at haction'
          obtain ⟨rfl, rfl⟩ := Action.advance.inj haction'
          rw [hi] at hi'
          cases hi'
          exact .inr ⟨hcommits, hgrows⟩
      cases choice with
      | raises | raisesCommitted => exact Stage.hasRoom_raised hnext
      | proceed =>
        have houtcome : System.result sc (s.found e) (from_.request sc) = s.outcome sc e := by
          rw [System.outcome, System.call_of_advance sc haction hi]
          rfl
        refine hfrom.proceed ?_ houtcome (hle.imp_right And.right) ?_ hnext
        · intro f hf
          exact (h.sound.fires f hf).mono fun t ht => ht
        · rintro l' rfl hlease
          exact resumes_of_owned howned haction hi hlease
      | leaseLost =>
        have hcount : (s.step sc e).db.activeCount ≤ s.db.activeCount := by
          apply hle.resolve_right
          rintro ⟨hcommits, -⟩
          cases hcommits
        exact (hfrom.leaseLost hnext).mono hchange hcount

end

/-- However controllers fire and trigger the schedule, crash and lose their
leases: as long as tasks are queued under current leases and no pending manual
fire is resumed over a full cap, the cap holds. -/
theorem schedule_cap (sc : Scheduler) (hcap : 0 ≤ sc.config.maxConcurrentRuns)
    (schedule : ScheduleRow) (leases : LeaseStore) (es : List Event)
    (howned : Meets (System.step sc) (fun s e => enqueuesOwned sc s e = true)
      ⟨.fresh schedule leases, []⟩ es) :
    ((run (System.step sc) ⟨.fresh schedule leases, []⟩ es).db.activeCount : Int) ≤
      sc.config.maxConcurrentRuns := by
  have hstart : System.Capped sc ⟨.fresh schedule leases, []⟩ := by
    refine ⟨.fresh schedule leases, ⟨?_, List.Pairwise.nil⟩, hcap, ?_⟩
    · intro stage hstage
      cases hstage
    · intro stage hstage
      cases hstage
  have hrun := run_invariant_of_meets (System.Capped sc)
    (fun s e hs he => hs.step he) hstart howned
  exact hrun.cap

def minutelyStart : System := ⟨.fresh { nextFireAt := some 1 } .empty, []⟩

/-- A recurring fire runs to its end; a trigger then finds the cap reached. -/
theorem schedule_cap_full :
    let es : List Event := ⟨1, .fire "a"⟩ :: go 9 ++ ⟨1, .trigger "b"⟩ :: go 2
    let final := run (System.step minutely) minutelyStart es
    final.db.activeCount = 1 ∧ final.db.fires.map (·.status) = [.dispatched, .skipped] ∧
      (final.db.activeCount : Int) ≤ minutely.config.maxConcurrentRuns := by
  intro es final
  refine ⟨by decide, by decide, ?_⟩
  exact schedule_cap minutely (by decide) { nextFireAt := some 1 } .empty es (by decide)

/-- A trigger crashes after its claim, the schedule fires, and the next trigger
resumes the pending fire over the full cap. -/
theorem resumed_trigger_exceeds_cap :
    let es : List Event := ⟨1, .trigger "a"⟩ :: go 1 ++ ⟨1, .crash 0⟩ :: ⟨1, .fire "a"⟩ :: go 9 ++
      ⟨1, .trigger "a"⟩ :: go 9
    minutely.config.maxConcurrentRuns <
      (run (System.step minutely) minutelyStart es).db.activeCount := by
  decide

end Cognis.Schedule
