import Cognis.Schedule.Sound

namespace Cognis.Schedule

open Coordination List Option

section

variable {sc : Scheduler} {db db' : Database} {reply : Reply} {stage stage' : Stage}

theorem Stage.Sound.afterClaim {lease : Lease} {c : ScheduleFireClaim} (hc : c.Names .recurring) :
    (Stage.afterClaim lease c).Sound db' := by
  unfold Stage.afterClaim
  split
  · exact hc
  · split <;> exact hc

theorem Stage.Sound.afterManualClaim {lease : Lease} {c : ScheduleFireClaim}
    (hc : c.Names .manual) : (Stage.afterManualClaim lease c).Sound db' := by
  unfold Stage.afterManualClaim
  split
  · trivial
  · split <;> exact hc

theorem Stage.Sound.raised {error : String} (h : stage.Sound db)
    (hnext : stage.raised error = some stage') : stage'.Sound db' := by
  cases stage <;> simp only [Stage.raised, reduceCtorEq, some.injEq] at hnext <;>
    first
    | (subst hnext; first | trivial | exact h | exact h.1)
    | (split at hnext <;> cases hnext <;> trivial)

theorem Stage.Sound.leaseLost (h : stage.Sound db) (hnext : stage.leaseLost = some stage') :
    stage'.Sound db := by
  cases stage <;> simp only [Stage.leaseLost, some.injEq] at hnext <;> subst hnext <;>
    trivial

theorem result_tasksChange (sc : Scheduler) (db : Database) (call : Option Call) :
    ∃ c, TasksChange db c (System.result sc db call).1.tasks ∧ ∀ c', call = some c' → c = c' := by
  cases call with
  | none => exact ⟨.initialiseNextFireTimes, .same _, fun _ h => nomatch h⟩
  | some c => exact ⟨c, perform_tasksChange sc db c, fun _ h => some.inj h⟩

theorem result_of_request {call : Call} (h : stage.request sc = some call)
    (hresult : System.result sc db (stage.request sc) = (db', reply)) :
    perform sc db call = (db', reply) := by
  rw [h] at hresult
  exact hresult

theorem Stage.Sound.proceed (hfires : FiresSound db db.fires) (h : stage.Sound db)
    (hresult : System.result sc db (stage.request sc) = (db', reply))
    (hnext : stage.proceed sc db reply = some stage') : stage'.Sound db' := by
  obtain ⟨call, hchange, -⟩ := result_tasksChange sc db (stage.request sc)
  rw [hresult] at hchange
  cases stage with
  | fireReady =>
    have hperform := result_of_request rfl hresult
    simp only [Stage.proceed] at hnext
    split at hnext
    · cases hnext
      trivial
    · rename_i c hclaim
      have hc : c.Names .recurring := by
        rw [← (Prod.mk.inj hperform).2] at hclaim
        exact claim_names hfires hclaim
      split at hnext
      · cases hnext
        exact Stage.Sound.afterClaim hc
      · cases hnext
        exact hc
  | fireReplaced =>
    simp only [Stage.proceed] at hnext
    split at hnext
    · cases hnext
      exact Stage.Sound.afterClaim h
    · cases hnext
      trivial
  | manualReady =>
    have hperform := result_of_request rfl hresult
    simp only [Stage.proceed] at hnext
    split at hnext
    · cases hnext
      trivial
    · rename_i c hclaim
      have hc : c.Names .manual := by
        rw [← (Prod.mk.inj hperform).2] at hclaim
        exact claimManual_names hfires hclaim
      cases hnext
      exact Stage.Sound.afterManualClaim hc
  | manualLooking =>
    simp only [Stage.proceed] at hnext
    split at hnext
    · cases hnext
      exact h
    · rename_i task htask
      cases hnext
      exact ⟨h, hchange.isSome (by rw [htask, isSome_some])⟩
  | manualDispatching lease c =>
    have hperform := result_of_request rfl hresult
    have hsome : (db'.getTask c.taskId).isSome = true := by
      have hdb : (submit db c.taskId c.scheduledFireAt .draft).1 = db' :=
        (Prod.mk.inj hperform).1
      obtain ⟨hsome, -⟩ | ⟨-, hsubmit⟩ := submit_cases db c.taskId c.scheduledFireAt .draft
      · exact hchange.isSome hsome
      · rw [← hdb, hsubmit, Database.getTask, find?_append]
        simp
    simp only [Stage.proceed] at hnext
    split at hnext <;> cases hnext <;> exact ⟨h, hsome⟩
  | manualLinking =>
    simp only [Stage.proceed] at hnext
    split at hnext
    · cases hnext
      exact ⟨h.1, hchange.isSome h.2⟩
    · cases hnext
      trivial
  | manualReconciling =>
    obtain ⟨t, ht⟩ := isSome_iff_exists.mp h.2
    simp only [Stage.proceed, ht, map_some, getD_some] at hnext
    split at hnext
    · cases hnext
      exact h.1
    · rename_i hdraft
      cases hnext
      exact ⟨h.1, hchange.launched ⟨t, ht, hdraft⟩⟩
  | manualActivating =>
    simp only [Stage.proceed] at hnext
    split at hnext
    · cases hnext
      exact h
    · rename_i task htask
      split at hnext
      · cases hnext
        exact h
      · rename_i hdraft
        split at hnext
        · cases hnext
          exact ⟨h, hchange.launched ⟨task, htask, hdraft⟩⟩
        · cases hnext
          trivial
  | manualSubmitting lease c =>
    have hperform := result_of_request rfl hresult
    simp only [Stage.proceed] at hnext
    split at hnext
    · cases hnext
      exact h
    · rename_i hok
      split at hnext
      · cases hnext
        refine ⟨h, ?_⟩
        have hdb : (submitExisting db c.taskId).1 = db' := (Prod.mk.inj hperform).1
        obtain hfail | ⟨t, ht, -, hsubmit⟩ := submitExisting_cases db c.taskId
        · have hreply : (perform sc db (.submitExisting c.taskId)).2.ok = reply.ok := by
            rw [hperform]
          simp only [perform, hfail] at hreply
          exact absurd hreply.symm hok
        · refine ⟨{ t with status := .queued }, ?_, TaskStatus.noConfusion⟩
          rw [← hdb, hsubmit, Database.getTask, Database.updateTasks, find?_map_of_taskId]
          · rw [Database.getTask] at ht
            simp [ht, getTask_taskId ht]
          · intro u
            split <;> rfl
      · cases hnext
        trivial
  | terminalReceived =>
    obtain ⟨task, htask, rfl⟩ := map_eq_some_iff.mp hnext
    intro hend
    rw [getTask_taskId htask]
    exact ⟨task, hchange.terminal htask hend, rfl⟩
  | terminalTask | terminalRead =>
    cases hnext
    exact EndedIn.mono h hchange
  | terminalKind =>
    simp only [Stage.proceed] at hnext
    split at hnext
    · cases hnext
    · split at hnext
      · cases hnext
        exact EndedIn.mono h hchange
      · split at hnext
        · cases hnext
          exact EndedIn.mono h hchange
        · cases hnext
  | fireLooking =>
    simp only [Stage.proceed] at hnext
    split at hnext <;> cases hnext <;> exact h
  | fireDispatching | fireReconciling | fireFailing =>
    cases hnext
    exact h
  | fireMarking lease c | fireAdvancing lease c status dispatched | manualFailing lease c error
  | fireInitialising | fireReread =>
    simp only [Stage.proceed] at hnext
    split at hnext <;> cases hnext <;> trivial
  | fireAcquired | backlogAcquired =>
    simp only [Stage.proceed] at hnext
    split at hnext
    · cases hnext
      trivial
    · split at hnext
      · cases hnext
        trivial
      · split at hnext <;> cases hnext <;> trivial
  | backlogListed =>
    obtain ⟨lease, -, rfl⟩ := map_eq_some_iff.mp hnext
    trivial
  | projectingManual taskId status completedAt | projectingRecurring taskId status next
  | releasing => cases hnext
  | fireUnset lease | fireDeleting lease c dispatched | fireSettlingFailure lease c error now
  | manualSettling lease c | manualMarkingFailed lease c error
  | backlogAdvancing =>
    cases hnext
    trivial

end

namespace System

variable {sc : Scheduler} {s : System} {e : Event}

/-- The tables as a step finds them. -/
def found (s : System) (e : Event) : Database := s.db.wait e.elapsed

def outcome (sc : Scheduler) (s : System) (e : Event) : Database × Reply :=
  result sc (s.found e) (s.call sc e.action)

theorem step_db : (s.step sc e).db = (s.outcome sc e).1 := rfl

/-- Where an activity that is there after a step comes from. -/
inductive Origin (sc : Scheduler) (s : System) (e : Event) (stage : Stage) : Prop
  | kept (j : Nat) (hj : s.activities[j]? = some stage)
      (hother : ∀ i choice, e.action = .advance i choice → j ≠ i)
  | acquired (ownerId : String) (l : Lease)
      (hcall : s.call sc e.action = some (.lease (.acquire sc.leaseKey ownerId fireLease)))
      (hl : (s.outcome sc e).2.lease = some l)
      (hstage : stage = .fireAcquired l ∨ stage = .manualReady l)
  | received (taskId : FireKey) (suppressRetry : Bool)
      (hstage : stage = .terminalReceived taskId suppressRetry)
  | listed (ownerId : String) (hstage : stage = .backlogListed ownerId (s.found e).now)
  | moved (i : Nat) (choice : Choice) (from_ : Stage) (haction : e.action = .advance i choice)
      (hi : s.activities[i]? = some from_)
      (hnext : from_.next sc (s.found e) (s.outcome sc e).2 choice = some stage)

variable {stage : Stage}

theorem Origin.of_mem (hmem : stage ∈ s.activities)
    (haction : ∀ i choice, e.action ≠ .advance i choice) : Origin sc s e stage := by
  obtain ⟨j, hj⟩ := mem_iff_getElem?.mp hmem
  exact .kept j hj fun i choice h => absurd h (haction i choice)

theorem origin (h : stage ∈ (s.step sc e).activities) : Origin sc s e stage := by
  change stage ∈ s.activitiesAfter sc (s.found e) (s.outcome sc e).2 e.action at h
  cases haction : e.action with
  | fire ownerId =>
    rw [haction, activitiesAfter, mem_append] at h
    rcases h with hold | hnew
    · exact .of_mem hold (by simp [haction])
    · obtain ⟨l, hl, hstage⟩ := map_eq_some_iff.mp (mem_toList.mp hnew)
      exact .acquired ownerId l (by rw [haction]; rfl) hl (.inl hstage.symm)
  | trigger ownerId =>
    rw [haction, activitiesAfter, mem_append] at h
    rcases h with hold | hnew
    · exact .of_mem hold (by simp [haction])
    · obtain ⟨l, hl, hstage⟩ := map_eq_some_iff.mp (mem_toList.mp hnew)
      exact .acquired ownerId l (by rw [haction]; rfl) hl (.inr hstage.symm)
  | terminalEvent taskId suppressRetry =>
    rw [haction, activitiesAfter, mem_append, mem_singleton] at h
    rcases h with hold | hnew
    · exact .of_mem hold (by simp [haction])
    · exact .received taskId suppressRetry hnew
  | skipBacklog ownerId =>
    rw [haction, activitiesAfter, mem_append, mem_singleton] at h
    rcases h with hold | hnew
    · exact .of_mem hold (by simp [haction])
    · exact .listed ownerId hnew
  | initialise | moveTask | lease =>
    rw [haction, activitiesAfter] at h
    exact .of_mem h (by simp [haction])
  | advance i choice =>
    rw [haction, activitiesAfter] at h
    split at h
    · rename_i hnone
      obtain ⟨j, hj⟩ := mem_iff_getElem?.mp h
      refine .kept j hj ?_
      intro i' choice' heq hji
      rw [haction] at heq
      obtain ⟨rfl, -⟩ := Action.advance.inj heq
      rw [hji, hnone] at hj
      cases hj
    · rename_i from_ hi
      rcases Pool.mem_update h with hnext | ⟨j, hne, hj⟩
      · exact .moved i choice from_ haction hi hnext
      · refine .kept j hj ?_
        intro i' choice' heq
        rw [haction] at heq
        obtain ⟨rfl, -⟩ := Action.advance.inj heq
        exact hne
  | crash i =>
    rw [haction, activitiesAfter] at h
    exact .of_mem (Pool.mem_of_mem_eraseIdx h) (by simp [haction])

theorem call_of_advance (sc : Scheduler) {i : Nat} {choice : Choice}
    (haction : e.action = .advance i choice) (hi : s.activities[i]? = some stage) :
    s.call sc e.action = if choice.commits then stage.request sc else none := by
  rw [haction, call, hi]
  rfl

theorem Sound.stage_found {i : Nat} (h : s.Sound) (hi : s.activities[i]? = some stage)
    (e : Event) : stage.Sound (s.found e) := by
  have hsame : TasksChange s.db .initialiseNextFireTimes (s.found e).tasks := .same _
  exact Stage.Sound.mono (h.stages stage (mem_of_getElem? hi)) hsame

theorem Sound.call {call : Call} (h : s.Sound) (hcall : s.call sc e.action = some call) :
    call.Sound (s.found e) := by
  cases haction : e.action with
  | advance i =>
    cases hi : s.activities[i]? with
    | none =>
      rw [haction, System.call, hi] at hcall
      simp at hcall
    | some =>
      rw [call_of_advance sc haction hi] at hcall
      split at hcall
      · exact Stage.Sound.request (h.stage_found hi e) hcall
      · cases hcall
  | _ =>
    rw [haction, System.call] at hcall
    first
    | (cases hcall; trivial)
    | cases hcall

theorem Sound.step (h : s.Sound) (e : Event) : (s.step sc e).Sound := by
  have hfires : FiresSound (s.found e) (s.found e).fires :=
    ⟨h.fireIds, fun f hf => (h.fires f hf).mono fun t ht => ht⟩
  obtain ⟨c, hchange, -⟩ := result_tasksChange sc (s.found e) (s.call sc e.action)
  have hlaunched : ∀ t, Launched (s.found e) t → Launched (s.step sc e).db t :=
    fun t => hchange.launched
  have hafter : FiresSound (s.step sc e).db (s.step sc e).db.fires := by
    have hkept : FiresSound (s.step sc e).db (s.found e).fires := hfires.mono hlaunched
    cases hcall : s.call sc e.action with
    | none =>
      have hsame : (s.step sc e).db.fires = (s.found e).fires := by
        rw [step_db, outcome, hcall]
        rfl
      rw [hsame]
      exact hkept
    | some call =>
      have hperform : (s.step sc e).db.fires = (perform sc (s.found e) call).1.fires := by
        rw [step_db, outcome, hcall]
        rfl
      rw [hperform]
      exact perform_firesSound hkept h.taskIds (h.call hcall) hlaunched
  refine ⟨hchange.nodup h.taskIds, hafter.1, hafter.2, ?_⟩
  intro stage hstage
  obtain ⟨j, hj, -⟩ | ⟨_, l, -, -, hnew⟩ | ⟨_, _, rfl⟩ | ⟨_, rfl⟩ |
    ⟨i, choice, from_, haction, hi, hnext⟩ := origin hstage
  · exact Stage.Sound.mono (h.stage_found hj e) hchange
  · rcases hnew with rfl | rfl <;> trivial
  · trivial
  · trivial
  · have hfrom := h.stage_found hi e
    have hcall := call_of_advance sc haction hi
    cases choice with
    | proceed =>
      have houtcome : result sc (s.found e) (from_.request sc) = s.outcome sc e := by
        rw [outcome, hcall]
        rfl
      exact Stage.Sound.proceed hfires hfrom houtcome hnext
    | leaseLost => exact Stage.Sound.mono (Stage.Sound.leaseLost hfrom hnext) hchange
    | raises | raisesCommitted => exact Stage.Sound.raised hfrom hnext

end System

def Database.fresh (schedule : ScheduleRow) (leases : LeaseStore) : Database :=
  ⟨some schedule, [], [], leases⟩

theorem System.Sound.fresh (schedule : ScheduleRow) (leases : LeaseStore) :
    System.Sound ⟨.fresh schedule leases, []⟩ where
  taskIds := nodup_nil
  fireIds := nodup_nil
  fires _ hf := nomatch hf
  stages _ hstage := nomatch hstage

def minutely : Scheduler where
  config := { scheduleId := "s", scheduleType := .interval, intervalSeconds := some 60 }
  maxConsecutiveErrors := 5
  nextCron _ _ after := after

/-- So many steps of the first activity. -/
def go (n : Nat) : List Event := replicate n ⟨1, .advance 0 .proceed⟩

end Cognis.Schedule
