import Cognis.Schedule.Tasks

namespace Cognis.Schedule

open Coordination List

variable {f : ScheduleFireRow} {taskId : FireKey} {fires : List ScheduleFireRow}
  {c : ScheduleFireClaim}

/-! What every reachable state has, whatever the controllers do: rows are named
by their identities, and an activity's snapshot of an ended task stays true. -/

def ScheduleFireClaim.Names (c : ScheduleFireClaim) (kind : FireKind) : Prop :=
  c.fireId = (kind, c.scheduledFireAt) ∧ c.taskId = c.fireId

def EndedIn (db : Database) (taskId : FireKey) (status : TaskStatus) : Prop :=
  status.Terminal → ∃ t, db.getTask taskId = some t ∧ t.status = status

/-- A fire is of its own occurrence, and settled means launched. -/
structure ScheduleFireRow.Sound (f : ScheduleFireRow) (db : Database) : Prop where
  fireId : f.fireId = (f.fireKind, f.scheduledFireAt)
  taskId : ∀ t, f.taskId = some t → t = f.fireId
  settled : f.settled = true → f.status ≠ .claimed ∧ Launched db f.fireId
  dispatched : f.fireKind = .manual → f.status = .dispatched → f.taskId.isSome = true →
    Launched db f.fireId

def Stage.Sound (db : Database) : Stage → Prop
  | .fireReplaced _ c | .fireLooking _ c | .fireDispatching _ c | .fireReconciling _ c
  | .fireMarking _ c | .fireAdvancing _ c _ _ | .fireDeleting _ c _ | .fireFailing _ c _
  | .fireSettlingFailure _ c _ _ => c.Names .recurring
  | .manualLooking _ c | .manualDispatching _ c | .manualActivating _ c _
  | .manualSubmitting _ c _ | .manualFailing _ c _ | .manualMarkingFailed _ c _ => c.Names .manual
  | .manualLinking _ c _ | .manualReconciling _ c _ =>
    c.Names .manual ∧ (db.getTask c.taskId).isSome = true
  | .manualSettling _ c => c.Names .manual ∧ Launched db c.taskId
  | .terminalTask task _ | .terminalKind task _ _ | .terminalRead task _ _ =>
    EndedIn db task.taskId task.status
  | .projectingManual taskId status _ | .projectingRecurring taskId status _ =>
    EndedIn db taskId status
  | _ => True

/-- What the arguments of a statement have to do with the tables. -/
def Call.Sound (db : Database) : Call → Prop
  | .linkManualTask c _ | .markManualFailed c _ _ => c.Names .manual
  | .markDispatched c _ | .markFailed c _ _ _ _ _ => c.Names .recurring
  | .settleManualDispatched c _ _ => c.Names .manual ∧ Launched db c.taskId
  | .projectManual taskId status _ | .projectRecurring taskId status _ => EndedIn db taskId status
  | _ => True

/-- Tasks and fires have one row each, and all rows and stages are sound. -/
structure System.Sound (s : System) : Prop where
  taskIds : (s.db.tasks.map (·.taskId)).Nodup
  fireIds : (s.db.fires.map (·.fireId)).Nodup
  fires : ∀ f ∈ s.db.fires, f.Sound s.db
  stages : ∀ stage ∈ s.activities, stage.Sound s.db

section

variable {db db' : Database} {call : Call}

theorem ScheduleFireRow.Sound.mono (hf : f.Sound db)
    (h : ∀ t, Launched db t → Launched db' t) : f.Sound db' where
  fireId := hf.fireId
  taskId := hf.taskId
  settled hset := ⟨(hf.settled hset).1, h _ (hf.settled hset).2⟩
  dispatched hkind hstatus htask := h _ (hf.dispatched hkind hstatus htask)

theorem EndedIn.mono {status : TaskStatus} (h : EndedIn db taskId status)
    (hchange : TasksChange db call db'.tasks) : EndedIn db' taskId status := by
  intro hend
  obtain ⟨t, ht, rfl⟩ := h hend
  exact ⟨t, hchange.terminal ht hend, rfl⟩

theorem EndedIn.launched {status : TaskStatus} (h : EndedIn db taskId status)
    (hend : status.Terminal) : Launched db taskId := by
  obtain ⟨t, ht, rfl⟩ := h hend
  refine ⟨t, ht, ?_⟩
  intro hdraft
  rw [hdraft] at hend
  exact absurd hend (by decide)

theorem Stage.Sound.mono {stage : Stage} (h : stage.Sound db)
    (hchange : TasksChange db call db'.tasks) : stage.Sound db' := by
  cases stage with
  | manualLinking | manualReconciling =>
    exact ⟨h.1, hchange.isSome h.2⟩
  | manualSettling => exact ⟨h.1, hchange.launched h.2⟩
  | terminalTask task suppressRetry | terminalKind task suppressRetry manual
  | terminalRead | projectingManual =>
    exact EndedIn.mono h hchange
  | projectingRecurring => exact EndedIn.mono h hchange
  | _ => exact h

theorem Stage.Sound.request {sc : Scheduler} {stage : Stage} (h : stage.Sound db)
    (hcall : stage.request sc = some call) : call.Sound db := by
  cases stage <;> simp only [Stage.request, reduceCtorEq, Option.some.injEq] at hcall <;>
    subst hcall <;> first | exact h | exact h.1 | trivial

end

/-- The fires are told apart by their identities and are sound for the tasks of `d`. -/
def FiresSound (d : Database) (fires : List ScheduleFireRow) : Prop :=
  (fires.map (·.fireId)).Nodup ∧ ∀ f ∈ fires, f.Sound d

section

variable {cfg : ScheduleConfig} {db d : Database}

theorem FiresSound.mono {d' : Database} (h : FiresSound d fires)
    (hlaunched : ∀ t, Launched d t → Launched d' t) : FiresSound d' fires :=
  ⟨h.1, fun f hf => (h.2 f hf).mono hlaunched⟩

variable {p : ScheduleFireRow → Bool}

theorem FiresSound.update (h : FiresSound d db.fires) {g : ScheduleFireRow → ScheduleFireRow}
    (hg : ∀ f ∈ db.fires, p f = true → f.Sound d → (g f).Sound d)
    (hid : ∀ f, (g f).fireId = f.fireId) : FiresSound d (db.updateFires p g).fires := by
  constructor
  · have hids : (db.updateFires p g).fires.map (·.fireId) = db.fires.map (·.fireId) := by
      rw [Database.updateFires, map_map]
      apply map_congr_left
      intro f _
      simp only [Function.comp]
      split
      · exact hid f
      · rfl
    rw [hids]
    exact h.1
  · intro f hf
    obtain ⟨f₀, hf₀, rfl⟩ := mem_map.mp hf
    split
    · rename_i hp
      exact hg f₀ hf₀ hp (h.2 f₀ hf₀)
    · exact h.2 f₀ hf₀

theorem FiresSound.insert (h : FiresSound d fires) (hf : f.Sound d)
    (hnew : ∀ f' ∈ fires, f'.fireId ≠ f.fireId) :
    FiresSound d (fires ++ [f]) := by
  constructor
  · rw [map_append, map_singleton, nodup_append]
    refine ⟨h.1, by simp, ?_⟩
    intro a ha b hb hab
    obtain ⟨f', hf', rfl⟩ := mem_map.mp ha
    rw [mem_singleton.mp hb] at hab
    exact hnew f' hf' hab
  · intro f' hf'
    rcases mem_append.mp hf' with hold | hnew
    · exact h.2 f' hold
    · rw [mem_singleton.mp hnew]
      exact hf

theorem newFire_sound (kind : FireKind) (scheduledFireAt : Int) (status : FireStatus)
    (hstatus : status ≠ .dispatched) (attemptCount : Nat) :
    ScheduleFireRow.Sound { newFire cfg db kind (kind, scheduledFireAt) scheduledFireAt with
        status := status, attemptCount := attemptCount } d where
  fireId := rfl
  taskId _ h := nomatch h
  settled h := nomatch h
  dispatched _ h := absurd h hstatus

theorem insertFire_sound (h : FiresSound d db.fires) (scheduledFireAt : Int) :
    FiresSound d (insertFire cfg db scheduledFireAt).fires := by
  unfold insertFire
  split
  · exact h
  · rename_i hnone
    apply h.insert (newFire_sound .recurring scheduledFireAt .claimed (by decide) 0)
    intro f hf hid
    have hkey := (h.2 f hf).fireId
    rw [hid] at hkey
    obtain ⟨hkind, htime⟩ := Prod.mk.inj hkey
    apply hnone
    rw [any_eq_true]
    exact ⟨f, hf, decide_eq_true ⟨hkind.symm, htime.symm⟩⟩

theorem claimed_sound (hf : f.Sound d) (taskId : Option FireKey)
    (htask : ∀ t, taskId = some t → t = f.fireId) (attemptCount : Nat) :
    ScheduleFireRow.Sound { f with
        status := .claimed, taskId := taskId, attemptCount := attemptCount, lastError := none }
      d where
  fireId := hf.fireId
  taskId := htask
  settled h := nomatch h
  dispatched _ h := nomatch h

theorem skipped_sound (hf : f.Sound d) : ScheduleFireRow.Sound { f with status := .skipped } d where
  fireId := hf.fireId
  taskId := hf.taskId
  settled h := ⟨FireStatus.noConfusion, (hf.settled h).2⟩
  dispatched _ h := nomatch h

theorem project_sound (hf : f.Sound d) (fireStatus : FireStatus) (hstatus : fireStatus ≠ .claimed)
    (status : TaskStatus) (hlaunched : Launched d f.fireId) :
    (f.project fireStatus status).Sound d where
  fireId := hf.fireId
  taskId := hf.taskId
  settled _ := ⟨hstatus, hlaunched⟩
  dispatched _ _ _ := hlaunched

theorem getTask_of_mem (hnodup : (db.tasks.map (·.taskId)).Nodup) {t : TaskRow}
    (ht : t ∈ db.tasks) : db.getTask t.taskId = some t := by
  unfold Database.getTask
  generalize db.tasks = tasks at hnodup ht
  induction tasks with
  | nil => cases ht
  | cons u tasks ih =>
    rw [map_cons, nodup_cons] at hnodup
    rcases mem_cons.mp ht with rfl | hmem
    · rw [find?_cons_of_pos (by simp)]
    · have hne : u.taskId ≠ t.taskId := by
        intro heq
        exact hnodup.1 (heq ▸ mem_map_of_mem hmem)
      rw [find?_cons_of_neg (by simp [hne])]
      exact ih hnodup.2 hmem

theorem launched_of_paused (hnodup : (db.tasks.map (·.taskId)).Nodup)
    (h : taskId ∈ pausedTaskIds db) : Launched db taskId := by
  obtain ⟨t, ht, rfl⟩ := mem_map.mp h
  obtain ⟨hmem, hpaused⟩ := mem_filter.mp ht
  refine ⟨t, getTask_of_mem hnodup hmem, ?_⟩
  rw [of_decide_eq_true hpaused]
  exact TaskStatus.noConfusion

section

variable (h : FiresSound d db.fires)

include h

theorem replacement_sound (row : ScheduleRow) (limit : Nat)
    (hpaused : ∀ t ∈ pausedTaskIds db, Launched d t) :
    FiresSound d (replacement cfg db row limit).1.fires := by
  unfold replacement
  split
  · unfold replacePaused
    by_cases hnone : pausedTaskIds db = []
    · simp only [if_pos hnone]
      exact h
    · simp only [if_neg hnone, Database.setSchedule_fires, failPausedRows]
      have hfires : FiresSound d (db.updateTasks (·.status = .paused) fun t =>
          { t with status := .failed, resultSummary := some replacedReason }).fires := h
      refine hfires.update ?_ (fun _ => rfl)
      intro f _ hp hsound
      obtain ⟨t, htask, hin⟩ : ∃ t, f.taskId = some t ∧ t ∈ pausedTaskIds db := by
        obtain ⟨t, htask, hin⟩ := (Option.any_eq_true _ _).mp (of_decide_eq_true hp).1
        exact ⟨t, htask, of_decide_eq_true hin⟩
      have hlaunched := hpaused t hin
      rw [hsound.taskId t htask] at hlaunched
      exact project_sound hsound .failed (by decide) .failed hlaunched
  · exact h

theorem claim_sound (scheduledFireAt : Int) (lease : Lease) (limit : Nat)
    (hpaused : ∀ t ∈ pausedTaskIds db, Launched d t) :
    FiresSound d (claim cfg db scheduledFireAt lease limit).1.fires := by
  have hinsert : FiresSound d (insertFire cfg db scheduledFireAt).fires :=
    insertFire_sound h scheduledFireAt
  have hresult := claim_result cfg db scheduledFireAt lease limit
  generalize claim cfg db scheduledFireAt lease limit = r at hresult ⊢
  cases hresult with
  | refused => exact h
  | settled => exact hinsert
  | existing =>
    refine hinsert.update ?_ (fun _ => rfl)
    intro f _ hp hsound
    apply claimed_sound hsound
    intro t ht
    rw [of_decide_eq_true hp]
    exact (Option.some.inj ht).symm
  | fresh schedule =>
    have hids : pausedTaskIds (insertFire cfg db scheduledFireAt) = pausedTaskIds db := by
      rw [pausedTaskIds, insertFire_tasks, pausedTaskIds]
    have hreplaced : FiresSound d
        (replacement cfg (insertFire cfg db scheduledFireAt) schedule limit).1.fires := by
      apply replacement_sound hinsert
      rw [hids]
      exact hpaused
    rw [claimFresh]
    split
    · refine hreplaced.update ?_ (fun _ => rfl)
      intro f _ _ hsound
      exact skipped_sound hsound
    · refine hreplaced.update ?_ (fun _ => rfl)
      intro f _ _ hsound
      exact claimed_sound hsound f.taskId hsound.taskId _

theorem claimManual_sound (lease : Lease) : FiresSound d (claimManual cfg db lease).1.fires := by
  have hresult := claimManual_result cfg db lease
  generalize claimManual cfg db lease = r at hresult ⊢
  cases hresult with
  | refused | consumed => exact h
  | resumed =>
    refine h.update ?_ (fun _ => rfl)
    intro f _ _ hsound
    exact ⟨hsound.fireId, hsound.taskId, (nomatch ·), hsound.dispatched⟩
  | fresh schedule =>
    have hfree : ∀ f ∈ db.fires,
        f.fireId ≠ manualScheduleFireId (manualFireAt db schedule.nextFireAt) := by
      intro f hf hid
      have hkey := (h.2 f hf).fireId
      rw [hid] at hkey
      have htime := (Prod.mk.inj hkey).2
      apply manualFireAt_not_mem db schedule.nextFireAt
      rw [htime]
      exact mem_append_right _ (mem_map_of_mem hf)
    have hskipped : FiresSound d (db.fires ++
        [{ newFire cfg db .manual (manualScheduleFireId (manualFireAt db schedule.nextFireAt))
            (manualFireAt db schedule.nextFireAt) with status := .skipped }]) :=
      h.insert (newFire_sound .manual _ .skipped (by decide) 0) hfree
    have hclaimed : FiresSound d (db.fires ++
        [{ newFire cfg db .manual (manualScheduleFireId (manualFireAt db schedule.nextFireAt))
            (manualFireAt db schedule.nextFireAt) with attemptCount := 1 }]) :=
      h.insert (newFire_sound .manual _ .claimed (by decide) 1) hfree
    unfold claimFreshManual
    split
    · split
      · split
        · exact ⟨nodup_nil, fun f hf => nomatch hf⟩
        · exact hskipped
      · exact hskipped
    · exact hclaimed

theorem linkManualTask_sound (hc : c.Names .manual) (lease : Lease) :
    FiresSound d (linkManualTask db c lease).1.fires := by
  unfold linkManualTask
  split
  · exact h
  · split
    · refine h.update ?_ (fun _ => rfl)
      intro f _ hp hsound
      obtain ⟨⟨hid, hstatus⟩, -, -⟩ := of_decide_eq_true hp
      refine ⟨hsound.fireId, ?_, hsound.settled, ?_⟩
      · intro t ht
        rw [hid, ← hc.2]
        exact (Option.some.inj ht).symm
      · intro _ hdispatched
        rw [hstatus] at hdispatched
        cases hdispatched
    · exact h

theorem dispatchFire_sound (hid : c.taskId = c.fireId)
    (hmanual : ∀ f ∈ db.fires, f.fireId = c.fireId → f.fireKind = .manual → Launched d c.fireId) :
    FiresSound d (dispatchFire db c).fires := by
  refine h.update ?_ (fun _ => rfl)
  intro f hf hp hsound
  obtain ⟨hfire, hstatus⟩ := of_decide_eq_true hp
  refine ⟨hsound.fireId, ?_, ?_, ?_⟩
  · intro t ht
    rw [hfire, ← hid]
    exact (Option.some.inj ht).symm
  · intro hset
    -- a claimed fire carries no marker
    exact absurd hstatus (hsound.settled hset).1
  · intro hkind _ _
    rw [hfire]
    exact hmanual f hf hfire hkind

theorem markDispatched_sound (hc : c.Names .recurring) (lease : Lease) :
    FiresSound d (markDispatched db c lease).1.fires := by
  unfold markDispatched
  split
  · exact h
  · apply dispatchFire_sound h hc.2
    intro f hf hid hkind
    have hkey := (h.2 f hf).fireId
    rw [hid, hc.1, hkind] at hkey
    cases hkey

theorem settleManualDispatched_sound (hc : c.Names .manual) (hlaunched : Launched d c.taskId)
    (lease : Lease) (status : RunStatus) :
    FiresSound d (settleManualDispatched cfg db c lease status).1.fires := by
  have hfired : FiresSound d (dispatchFire db c).fires := by
    apply dispatchFire_sound h hc.2
    intro f _ _ _
    rw [← hc.2]
    exact hlaunched
  unfold settleManualDispatched
  split
  · exact h
  · dsimp only
    split
    · exact h
    · split
      · exact hfired
      · split
        · split
          · exact ⟨nodup_nil, fun f hf => nomatch hf⟩
          · exact hfired
        · exact hfired

theorem failFire_sound (c : ScheduleFireClaim) (error : String) :
    FiresSound d (failFire db c error).fires := by
  refine h.update ?_ (fun _ => rfl)
  intro f _ _ hsound
  exact ⟨hsound.fireId, hsound.taskId, (nomatch ·), fun _ hstatus => nomatch hstatus⟩

theorem projectFire_sound {kind : FireKind} {fire : ScheduleFireRow}
    (hfire : db.fires.find? (fun f => f.taskId = some taskId ∧ f.fireKind = kind) = some fire)
    (hlaunched : Launched d taskId) (fireStatus : FireStatus) (hstatus : fireStatus ≠ .claimed)
    (status : TaskStatus) :
    FiresSound d (db.updateFires (·.fireId = fire.fireId) (·.project fireStatus status)).fires := by
  have hfound := find?_some hfire
  have hlinked := (of_decide_eq_true hfound).1
  have hid := (h.2 fire (mem_of_find?_eq_some hfire)).taskId taskId hlinked
  refine h.update ?_ (fun _ => rfl)
  intro f _ hp hsound
  apply project_sound hsound fireStatus hstatus
  rw [of_decide_eq_true hp, ← hid]
  exact hlaunched

end

theorem perform_firesSound {sc : Scheduler} {call : Call} (hold : FiresSound d db.fires)
    (hnodup : (db.tasks.map (·.taskId)).Nodup) (hcall : call.Sound db)
    (hlaunched : ∀ t, Launched db t → Launched d t) :
    FiresSound d (perform sc db call).1.fires := by
  cases call with
  | claim =>
    apply claim_sound hold
    intro t ht
    exact hlaunched t (launched_of_paused hnodup ht)
  | claimManual lease => exact claimManual_sound hold lease
  | linkManualTask c lease => exact linkManualTask_sound hold hcall lease
  | markDispatched c lease => exact markDispatched_sound hold hcall lease
  | settleManualDispatched c lease status =>
    exact settleManualDispatched_sound hold hcall.1 (hlaunched _ hcall.2) lease status
  | markFailed c lease error next errors reason =>
    simp only [perform]
    obtain h | ⟨schedule, -, -, -, h⟩ := markFailed_cases db c lease error next errors reason
    · rw [h]
      exact hold
    · rw [h]
      exact failFire_sound hold c error
  | markManualFailed c lease error =>
    simp only [perform, markManualFailed]
    split
    · exact hold
    · exact failFire_sound hold c error
  | advanceSchedule scheduledFireAt next status errors lease =>
    simp only [perform]
    obtain h | ⟨schedule, -, -, h⟩ :=
      advanceSchedule_cases db scheduledFireAt next status errors lease
    · rw [h]
      exact hold
    · rw [h]
      exact hold
  | projectManual taskId status completedAt =>
    simp only [perform]
    obtain h | ⟨fire, schedule, hend, hfire, -, -, h⟩ :=
      projectManualTerminalResult_cases db taskId status completedAt sc.maxConsecutiveErrors
    · rw [h]
      exact hold
    · rw [h]
      apply projectFire_sound hold hfire (hlaunched _ (hcall.launched hend))
      split <;> decide
  | projectRecurring taskId status next =>
    simp only [perform]
    obtain h | ⟨fire, schedule, hend, hfire, -, -, h⟩ :=
      projectRecurringTerminalResult_cases db taskId status next sc.maxConsecutiveErrors
    · rw [h]
      exact hold
    · rw [h]
      apply projectFire_sound hold hfire (hlaunched _ (hcall.launched hend))
      split <;> decide
  | submit taskId scheduledFor status =>
    simp only [perform]
    obtain ⟨-, h⟩ | ⟨-, h⟩ := submit_cases db taskId scheduledFor status
    · rw [h]
      exact hold
    · rw [h]
      exact hold
  | submitExisting taskId =>
    simp only [perform]
    obtain h | ⟨t, -, -, h⟩ := submitExisting_cases db taskId
    · rw [h]
      exact hold
    · rw [h]
      exact hold
  | updateNextFireAt next =>
    simp only [perform, (updateNextFireAt_frame db next).2.2]
    exact hold
  | initialiseNextFireTimes =>
    simp only [perform, (initialiseNextFireTimes_frame sc db).2.2]
    exact hold
  | deleteSchedule =>
    refine ⟨nodup_nil, ?_⟩
    intro f hf
    cases hf
  | moveTask | lease => exact hold

variable {key : ScheduleFireRow → Option Int}

theorem mem_of_newestOf (h : newestOf key fires = some f) : f ∈ fires := by
  induction fires generalizing f with
  | nil => cases h
  | cons g fires ih =>
    rw [newestOf] at h
    cases hnewest : newestOf key fires with
    | none =>
      rw [hnewest] at h
      rw [← Option.some.inj h]
      exact mem_cons_self
    | some =>
      rw [hnewest] at h
      dsimp only at h
      split at h
      · rw [← Option.some.inj h]
        exact mem_cons_of_mem g (ih hnewest)
      · rw [← Option.some.inj h]
        exact mem_cons_self

theorem mem_of_newestManual (h : newestManual db p key = some f) :
    f ∈ db.fires ∧ f.fireKind = .manual ∧ p f = true := by
  have hmem := mem_filter.mp (mem_of_newestOf h)
  obtain ⟨hkind, hp⟩ := of_decide_eq_true hmem.2
  exact ⟨hmem.1, hkind, hp⟩

theorem ScheduleFireRow.Sound.taskId_getD (h : f.Sound d) {t : FireKey}
    (ht : t = f.fireId) : f.taskId.getD t = f.fireId := by
  cases htask : f.taskId with
  | none => exact ht
  | some t' => exact h.taskId t' htask

theorem claim_names (h : FiresSound d db.fires) {scheduledFireAt : Int} {lease : Lease}
    {limit : Nat}
    (hc : (claim cfg db scheduledFireAt lease limit).2 = some c) : c.Names .recurring := by
  have hinsert : FiresSound d (insertFire cfg db scheduledFireAt).fires :=
    insertFire_sound h scheduledFireAt
  have hresult := claim_result cfg db scheduledFireAt lease limit
  generalize claim cfg db scheduledFireAt lease limit = r at hresult hc
  cases hresult with
  | refused => cases hc
  | settled schedule fire hschedule hfire =>
    cases hc
    have hsound := hinsert.2 fire (mem_of_find?_eq_some hfire)
    have hfound := find?_some hfire
    have hid := of_decide_eq_true hfound
    exact ⟨rfl, (hsound.taskId_getD hid.symm).trans hid⟩
  | existing =>
    cases hc
    exact ⟨rfl, rfl⟩
  | fresh =>
    rw [claimFresh] at hc
    split at hc <;> cases hc <;> exact ⟨rfl, rfl⟩

theorem claimManual_names (h : FiresSound d db.fires) {lease : Lease}
    (hc : (claimManual cfg db lease).2 = some c) : c.Names .manual := by
  have hresult := claimManual_result cfg db lease
  generalize claimManual cfg db lease = r at hresult hc
  cases hresult with
  | refused => cases hc
  | consumed schedule fire hschedule htype hnext hfire =>
    cases hc
    obtain ⟨hmem, hkind, -⟩ := mem_of_newestManual hfire
    have hsound := h.2 fire hmem
    refine ⟨?_, hsound.taskId_getD rfl⟩
    rw [← hkind]
    exact hsound.fireId
  | resumed schedule pending hlease hschedule hfire =>
    cases hc
    obtain ⟨hmem, hkind, -⟩ := mem_of_newestManual hfire
    have hsound := h.2 pending hmem
    have hid : pending.fireId = (.manual, pending.scheduledFireAt) := by
      rw [← hkind]
      exact hsound.fireId
    exact ⟨hid, hsound.taskId_getD hid.symm⟩
  | fresh =>
    unfold claimFreshManual at hc
    split at hc <;> cases hc <;> exact ⟨rfl, rfl⟩

end

end Cognis.Schedule
