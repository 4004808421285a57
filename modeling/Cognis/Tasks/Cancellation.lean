import Cognis.Tasks.Lifecycle

namespace Cognis.Tasks.Lifecycle

open List

variable {row loaded changed : TaskRow} {q : Process}

open Queue (Status validTransitions)
open Program Runs

def Stmt.Harmless : Stmt → Prop
  | .update _ where_ values =>
    ∀ row, where_ row = true → row.status = .cancelled → (values row).status = .cancelled
  | .flush _ loaded changed => changed.status = loaded.status
  | _ => True

variable (taskId : String) (tasks : Rows) (now attempt : Nat) (locked : Rows)
  (state : WorkflowState) (expectedAttempt : Option Nat)

/-- What is demanded of a statement of a process that has locked these rows: a flush
that writes the status meets no cancelled row of its own. -/
def Stmt.Demand : Stmt → Prop
  | .flush taskId loaded changed =>
    changed.status = loaded.status ∨ ∀ row, locked taskId = some row → row.status ≠ .cancelled
  | o => o.Harmless

variable {o : Stmt}

theorem Stmt.Harmless.demand (h : o.Harmless) (locked : Rows) : o.Demand locked := by
  cases o with
  | flush => exact .inl h
  | _ => exact h

/-- A statement that writes a status only where its transaction has locked the row. -/
def Stmt.Owned : Stmt → Prop
  | .flush taskId loaded changed => changed.status = loaded.status ∨ (locked taskId).isSome
  | _ => True

theorem Stmt.Harmless.owned (h : o.Harmless) (locked : Rows) : o.Owned locked := by
  cases o with
  | flush => exact .inl h
  | _ => trivial

/-- What a process can know of a statement: a row it has locked stays as it is, and a
plain select locks nothing. -/
def Allowed : (o : Stmt) → o.Reply → Rows → Prop
  | .select taskId _ lock, reply, locked' =>
    (lock = .none → locked' = locked) ∧
      ∀ row, locked taskId = some row → locked' = locked ∧ ∀ r, reply = some r → r = row
  | .update taskId _ values, reply, locked' =>
    if reply = true then
      ∃ row, locked' = Function.update locked taskId (some (values row))
    else locked' = locked
  | .ask, _, locked' => locked' = locked
  | .acquirePickLock, _, locked' => locked' = locked
  | .releasePickLock, _, locked' => locked' = locked
  | .flush _ _ _, _, _ => True
  | .commit, _, _ => True
  | .rollback, _, _ => True

section

theorem found_not_cancelled {v : StatusValues} {status : Status}
    (h : v.found status row) : row.status ≠ .cancelled := by
  intro hcancelled
  simp [StatusValues.found, hcancelled, validTransitions] at h

theorem every_select (where_ : TaskRow → Bool) (lock : RowLock) :
    (select taskId where_ lock).Every Stmt.Harmless :=
  (every_perform _ _).mpr trivial

theorem every_ask : ask.Every Stmt.Harmless := (every_perform _ _).mpr trivial

theorem every_commit : commit.Every Stmt.Harmless := (every_perform _ _).mpr trivial

theorem every_rollback : rollback.Every Stmt.Harmless := (every_perform _ _).mpr trivial

theorem every_acquirePickLock : acquirePickLock.Every Stmt.Harmless :=
  (every_perform _ _).mpr trivial

theorem every_releasePickLock : releasePickLock.Every Stmt.Harmless :=
  (every_perform _ _).mpr trivial

theorem every_updateTaskStatus (status : Status) (v : StatusValues) :
    (updateTaskStatus taskId status v).Every Stmt.Harmless := by
  apply (every_perform _ _).mpr
  intro row hfound hcancelled
  exact absurd hcancelled (found_not_cancelled hfound)

theorem every_update_from {status : Status} (h : status ≠ .cancelled) (values : TaskRow → TaskRow) :
    (update taskId (fun row => row.status == status) values).Every Stmt.Harmless := by
  apply (every_perform _ _).mpr
  intro row hfound hcancelled
  have hstatus : row.status = status := by simpa using hfound
  exact absurd (hstatus.symm.trans hcancelled) h

theorem every_assertTaskAttemptCurrent :
    (assertTaskAttemptCurrent taskId attempt).Every Stmt.Harmless := by
  apply (every_perform _ _).mpr
  intro row _ hcancelled
  exact hcancelled

theorem every_updateTaskWorkflowState (version : Option Nat) :
    (updateTaskWorkflowState taskId state version).Every Stmt.Harmless := by
  apply (every_perform _ _).mpr
  intro row _ hcancelled
  exact hcancelled

theorem every_flush {taskId : String} (h : changed.status = loaded.status) :
    (flush taskId loaded changed).Every Stmt.Harmless :=
  (every_perform _ _).mpr h

theorem every_checkAttempt : (checkAttempt taskId expectedAttempt).Every Stmt.Harmless := by
  cases expectedAttempt with
  | none => trivial
  | some attempt => exact every_assertTaskAttemptCurrent taskId attempt

theorem every_claimExisting (statuses : List Status) :
    (claimExisting taskId statuses).Every Stmt.Harmless := by
  apply (every_select _ _ _).bind
  intro row
  cases row with
  | none => exact every_rollback.bind fun _ => trivial
  | some row =>
    apply every_ask.bind
    intro held
    cases held with
    | true => exact every_commit.bind fun _ => trivial
    | false => exact every_rollback.bind fun _ => trivial

theorem every_claimReady : (claimReady taskId now).Every Stmt.Harmless := by
  apply (every_select _ _ _).bind
  intro row
  cases row with
  | none => exact every_rollback
  | some row =>
    apply every_ask.bind
    intro held
    cases held with
    | false => exact every_rollback
    | true =>
      apply (every_update_from taskId (by decide) _).bind
      intro claimed
      cases claimed with
      | true => exact every_commit
      | false => exact every_rollback

theorem every_assertCurrent (terminal : Option Status) :
    (assertCurrent taskId attempt terminal).Every Stmt.Harmless := by
  apply (every_select _ _ _).bind
  intro row
  cases row with
  | none => trivial
  | some row => exact every_ask

theorem every_commit_or_rollback (ok : Bool) :
    (if ok = true then commit else rollback).Every Stmt.Harmless := by
  cases ok with
  | true => exact every_commit
  | false => exact every_rollback

theorem every_submitExisting : (submitExisting taskId).Every Stmt.Harmless := by
  apply (every_select _ _ _).bind
  intro row
  cases row with
  | none => exact every_rollback
  | some row =>
    dsimp only
    split
    · apply (every_updateTaskStatus _ _ _).bind
      intro queued
      cases queued with
      | false => exact every_rollback
      | true =>
        apply every_commit.bind
        intro _
        apply every_ask.bind
        intro met
        cases met with
        | false => trivial
        | true => exact (every_updateTaskStatus _ _ _).bind fun _ => every_commit
    · exact every_rollback

theorem every_pauseTask : (pauseTask taskId expectedAttempt).Every Stmt.Harmless := by
  apply (every_checkAttempt _ _).bind
  intro current
  cases current with
  | false => exact every_rollback
  | true =>
    apply (every_select _ _ _).bind
    intro row
    cases row with
    | none => exact every_rollback
    | some row =>
      dsimp only
      split
      · exact (every_updateTaskStatus _ _ _).bind every_commit_or_rollback
      · exact every_rollback

theorem every_markResumed : (markResumed taskId expectedAttempt).Every Stmt.Harmless := by
  apply (every_checkAttempt _ _).bind
  intro current
  cases current with
  | false => exact every_rollback
  | true => exact (every_updateTaskStatus _ _ _).bind every_commit_or_rollback

theorem every_locked {p : Operation Unit} (h : p.Every Stmt.Harmless) :
    (do acquirePickLock; p; releasePickLock : Operation Unit).Every Stmt.Harmless := by
  apply every_acquirePickLock.bind
  intro _
  exact h.bind fun _ => every_releasePickLock

theorem every_resumeTask : (resumeTask taskId expectedAttempt).Every Stmt.Harmless := by
  apply every_ask.bind
  intro free
  cases free with
  | false => trivial
  | true =>
    apply every_locked
    apply (every_checkAttempt _ _).bind
    intro current
    apply (every_select _ _ _).bind
    intro row
    apply every_rollback.bind
    intro _
    split
    · apply every_ask.bind
      intro alive
      cases alive with
      | true => exact every_markResumed _ _
      | false =>
        apply (every_claimExisting _ _).bind
        intro claim
        cases claim with
        | none => trivial
        | some _ => exact every_markResumed _ _
    · trivial

theorem every_retryFailedTask (preserve : Bool) :
    (retryFailedTask taskId preserve).Every Stmt.Harmless := by
  apply (every_select _ _ _).bind
  intro found
  apply every_rollback.bind
  intro _
  cases found with
  | none => trivial
  | some =>
    dsimp only
    split
    · apply (every_claimExisting _ _).bind
      intro claim
      cases claim with
      | none => trivial
      | some _ =>
        apply (every_select _ _ _).bind
        intro row
        cases row with
        | none => exact every_rollback
        | some row =>
          refine (every_flush ?_).bind fun _ => ?_
          · rfl
          · exact (every_updateTaskStatus _ _ _).bind every_commit_or_rollback
    · trivial

theorem every_clearInteraction (row : TaskRow) :
    (clearInteraction taskId row).Every Stmt.Harmless := by
  unfold clearInteraction
  cases row.workflowState with
  | none => exact every_commit
  | some =>
    refine (every_flush ?_).bind fun _ => every_commit
    rfl

theorem every_cancelTask : (cancelTask taskId now expectedAttempt).Every Stmt.Harmless := by
  apply every_locked
  apply (every_checkAttempt _ _).bind
  intro current
  cases current with
  | false => exact every_rollback
  | true =>
    apply (every_select _ _ _).bind
    intro row
    cases row with
    | none => exact every_rollback
    | some row =>
      dsimp only
      split
      · exact every_rollback
      split
      · exact every_rollback
      split
      · exact every_clearInteraction taskId row
      · apply (every_updateTaskStatus _ _ _).bind
        intro ok
        cases ok with
        | true => exact every_clearInteraction taskId row
        | false => exact every_rollback

theorem every_recoverStaleTasks (taskIds : List String) :
    (recoverStaleTasks now taskIds).Every Stmt.Harmless := by
  induction taskIds with
  | nil => trivial
  | cons taskId rest ih =>
    apply every_ask.bind
    intro unowned
    cases unowned with
    | false => exact ih
    | true =>
      apply (every_claimExisting _ _).bind
      intro claim
      cases claim with
      | none => exact ih
      | some =>
        apply every_ask.bind
        intro ambiguous
        cases ambiguous with
        | false => exact ih
        | true =>
          apply (every_assertCurrent _ _ _).bind
          intro current
          cases current with
          | false => exact every_rollback
          | true =>
            apply (every_updateTaskStatus _ _ _).bind
            intro _
            exact every_commit.bind fun _ => ih

theorem every_recoverPausedTasks (taskIds : List String) :
    (recoverPausedTasks taskIds).Every Stmt.Harmless := by
  induction taskIds with
  | nil => trivial
  | cons taskId rest ih =>
    have hlaunch : (launchRecoveredPausedTask taskId).Every Stmt.Harmless := by
      apply every_ask.bind
      intro pending
      cases pending with
      | false => trivial
      | true => exact (every_claimExisting _ _).bind fun _ => trivial
    exact hlaunch.bind fun _ => ih

theorem every_fenced {taskId : String} {attempt : Nat} {terminal : Option Status}
    {body : Operation Bool} (h : body.Every Stmt.Harmless) :
    (fenced taskId attempt terminal body).Every Stmt.Harmless := by
  apply (every_assertCurrent _ _ _).bind
  intro current
  cases current with
  | false => exact every_rollback
  | true => exact h.bind every_commit_or_rollback

theorem every_consumeGate : (consumeGate taskId attempt state).Every Stmt.Harmless :=
  every_updateTaskStatus _ _ _

theorem every_storeState (status : Option Status) :
    (storeState taskId state status).Every Stmt.Harmless := by
  apply (every_updateTaskWorkflowState _ _ _).bind
  intro stored
  cases stored with
  | false => trivial
  | true =>
    cases status with
    | none => trivial
    | some status => exact (every_updateTaskStatus _ _ _).bind fun _ => trivial

theorem every_persistWorkflowState (status : Option Status) (consume : Bool) :
    (persistWorkflowState taskId attempt state status consume).Every Stmt.Harmless := by
  apply (every_select _ _ _).bind
  intro seen
  apply every_rollback.bind
  intro _
  split
  · trivial
  · apply every_fenced
    cases consume with
    | false => exact every_storeState taskId state status
    | true =>
      apply (every_consumeGate _ _ _).bind
      intro resumed
      cases resumed with
      | true => exact every_storeState taskId state status
      | false => trivial

theorem every_storeFinal (status : Status) (state : Option WorkflowState) (v : StatusValues) :
    (storeFinal taskId attempt status state v).Every Stmt.Harmless := by
  apply (every_updateTaskStatus _ _ _).bind
  intro updated
  cases updated with
  | false => trivial
  | true =>
    cases state with
    | none => trivial
    | some state => exact (every_updateTaskWorkflowState _ _ _).bind fun _ => trivial

theorem every_persistTaskFinal (status : Status) (state : Option WorkflowState) (v : StatusValues) :
    (persistTaskFinal taskId attempt status state v).Every Stmt.Harmless := by
  apply every_fenced
  split
  · exact every_storeFinal taskId attempt status state v
  · apply (every_consumeGate _ _ _).bind
    intro _
    exact every_storeFinal taskId attempt status state v

theorem every_runWrite (w : RunWrite) : (w.operation taskId attempt).Every Stmt.Harmless := by
  cases w with
  | persistState state status consume =>
    exact every_persistWorkflowState taskId attempt state status consume
  | persistFinal status state v => exact every_persistTaskFinal taskId attempt status state v
  | defer | pauseForInfrastructure => exact every_fenced (every_update_from _ (by decide) _)
  | pauseInteractive =>
    apply (every_updateTaskStatus _ _ _).bind
    intro _
    exact (every_updateTaskWorkflowState _ _ _).bind fun _ => every_commit
  | clearInteractivePause =>
    apply every_fenced
    apply (every_updateTaskStatus _ _ _).bind
    intro resumed
    cases resumed with
    | true => exact (every_updateTaskWorkflowState _ _ _).bind fun _ => trivial
    | false => trivial
  | initialise =>
    exact every_fenced ((every_updateTaskWorkflowState _ _ _).bind fun _ => trivial)
  | fail => exact every_fenced ((every_updateTaskStatus _ _ _).bind fun _ => trivial)
  | resolveDependent =>
    exact every_fenced ((every_updateTaskStatus _ _ _).bind fun _ => trivial)

theorem every_runTask (writes : List RunWrite) :
    (runTask taskId attempt writes).Every Stmt.Harmless := by
  induction writes with
  | nil => trivial
  | cons w ws ih => exact (every_runWrite taskId attempt w).bind fun _ => ih

end

section

variable {D : Rows → Stmt → Prop}

theorem safe_reviseFound (hD : ∀ s o, o.Harmless → D s o) (targetIndex : Option Nat)
    (instruction : String) {locked : Rows}
    (hflush : ∀ row, (∀ own, locked taskId = some own → row = own) → row.status ≠ .cancelled →
      D locked (.flush taskId row (row.revised targetIndex instruction))) :
    (reviseFound taskId targetIndex instruction).Safe Allowed D (fun _ _ => True) locked := by
  unfold reviseFound getTask select
  rw [safe_bind, safe_perform]
  refine ⟨hD _ _ trivial, ?_⟩
  rintro reply locked' ⟨hplain, hread⟩
  obtain rfl := hplain rfl
  cases reply with
  | none => exact every_rollback.safe hD _
  | some row =>
    dsimp only
    split
    · exact every_rollback.safe hD _
    rename_i hstatus
    split
    · exact every_rollback.safe hD _
    rw [ask, safe_bind, safe_perform]
    refine ⟨hD _ _ trivial, ?_⟩
    rintro answer locked'' rfl
    cases answer with
    | false => exact every_rollback.safe hD _
    | true =>
      refine ⟨hflush row (fun own hown => (hread own hown).2 row rfl) hstatus, ?_⟩
      intro _ after _
      refine (every_commit.bind fun _ => ?_).safe hD after
      exact (every_claimExisting _ _).bind fun _ => trivial

theorem safe_requestRevision (hD : ∀ s o, o.Harmless → D s o) (targetIndex : Option Nat)
    (instruction : String) (locked : Rows)
    (hfound : ∀ t, (expectedAttempt.isSome → (t taskId).isSome) →
      (reviseFound taskId targetIndex instruction).Safe Allowed D (fun _ _ => True) t) :
    (requestRevision taskId targetIndex instruction expectedAttempt).Safe Allowed D
      (fun _ _ => True) locked := by
  unfold requestRevision acquirePickLock
  rw [safe_bind, safe_perform]
  refine ⟨hD _ _ trivial, ?_⟩
  rintro _ locked' -
  rw [safe_bind]
  refine Safe.mono (Q := fun _ _ => True) ?_ fun _ t _ => every_releasePickLock.safe hD t
  unfold requestRevisionLocked
  rw [safe_bind]
  cases expectedAttempt with
  | none => exact hfound locked' fun hsome => by cases hsome
  | some attempt =>
    unfold checkAttempt assertTaskAttemptCurrent update
    refine ⟨hD _ _ fun _ _ hcancelled => hcancelled, ?_⟩
    intro current t hlocks
    cases current with
    | false => exact every_rollback.safe hD t
    | true =>
      obtain ⟨row, rfl⟩ := hlocks
      exact hfound _ fun _ => by simp

def Call.revises : Call → Bool
  | .requestRevision .. => true
  | _ => false

theorem every_operation {call : Call} (h : call.revises = false) :
    call.operation.Every Stmt.Harmless := by
  cases call with
  | submitExisting => exact every_submitExisting _
  | claimReady => exact every_claimReady _ _
  | pauseTask => exact every_pauseTask _ _
  | resumeTask => exact every_resumeTask _ _
  | retryFailedTask => exact every_retryFailedTask _ _
  | requestRevision => cases h
  | cancelTask => exact every_cancelTask _ _ _
  | recoverStaleTasks => exact every_recoverStaleTasks _ _
  | recoverPausedTasks => exact every_recoverPausedTasks _
  | runTask => exact every_runTask _ _ _

theorem safe_operation (call : Call) (locked : Rows) :
    call.operation.Safe Allowed (fun s o => o.Demand s) (fun _ _ => True) locked := by
  have hD : ∀ (s : Rows) (o : Stmt), o.Harmless → o.Demand s := fun s _ ho => ho.demand s
  cases call with
  | requestRevision =>
    apply safe_requestRevision _ _ hD
    intro t _
    apply safe_reviseFound _ hD
    intro row hread hstatus
    exact .inr fun own hown => hread own hown ▸ hstatus
  | _ => exact (every_operation rfl).safe hD locked

def Call.unfenced : Call → Bool
  | .requestRevision _ _ _ none => true
  | _ => false

/-- Only a revision without an attempt writes the status of a row it has not locked. -/
theorem owned_operation {call : Call} (h : call.unfenced = false) (locked : Rows) :
    call.operation.Safe Allowed (fun s o => o.Owned s) (fun _ _ => True) locked := by
  have hD : ∀ (s : Rows) (o : Stmt), o.Harmless → o.Owned s := fun s _ ho => ho.owned s
  cases call with
  | requestRevision _ _ _ expectedAttempt =>
    apply safe_requestRevision _ _ hD
    intro t hlocks
    apply safe_reviseFound _ hD
    intro _ _ _
    cases expectedAttempt with
    | none => cases h
    | some => exact .inr (hlocks rfl)
  | _ => exact (every_operation rfl).safe hD locked

end

/-- What holds of the rows a process has locked: each is there, and its transaction has
not revived it. -/
def Faithful : Prop :=
  ∀ taskId row', locked taskId = some row' →
    ∃ row, tasks taskId = some row ∧ (row.status = .cancelled → row'.status = .cancelled)

def Process.Apart (p q : Process) : Prop :=
  ∀ taskId, (p.locked taskId).isSome → q.locked taskId = none

variable {p : Process}

theorem Process.Apart.symm (h : p.Apart q) : q.Apart p := by
  intro taskId hq
  by_contra hp
  rw [h taskId (Option.isSome_iff_ne_none.mpr hp)] at hq
  cases hq

/-- No two processes hold a row, and each holds it as it is. -/
structure System.Sound (s : System) : Prop where
  apart : s.processes.Pairwise Process.Apart
  faithful : ∀ p ∈ s.processes, Faithful s.tasks p.locked
  safe : ∀ p ∈ s.processes, p.rest.Safe Allowed (fun t o => o.Demand t) (fun _ _ => True) p.locked

def KeepsCancelled (tasks' : Rows) : Prop :=
  ∀ taskId row, tasks taskId = some row → row.status = .cancelled →
    ∃ row', tasks' taskId = some row' ∧ row'.status = .cancelled

theorem KeepsCancelled.refl : KeepsCancelled tasks tasks :=
  fun _ row hrow hstatus => ⟨row, hrow, hstatus⟩

theorem KeepsCancelled.trans {a b c : Rows} (hab : KeepsCancelled a b)
    (hbc : KeepsCancelled b c) : KeepsCancelled a c := by
  intro taskId row hrow hstatus
  obtain ⟨row', hrow', hstatus'⟩ := hab taskId row hrow hstatus
  exact hbc taskId row' hrow' hstatus'

/-- The next statement of a process, a flush that writes the status of a row it has not
locked, finds the row cancelled. -/
def System.revives (s : System) (p : Process) : Bool :=
  match p.rest with
  | .call (.flush taskId loaded changed) _ =>
    changed.status != loaded.status && (p.locked taskId).isNone &&
      (s.tasks taskId).any (·.status == .cancelled)
  | _ => false

/-- No revision that has read its task without a lock, in another status than running,
writes it after a cancellation. -/
def Undisturbed (s : System) : Event → Bool
  | .proceed i _ => (s.processes[i]?).all fun p => !s.revives p
  | _ => true

theorem not_revived {s : System} {taskId : String} {k : Unit → Operation Unit}
    (h : s.revives p = false) (hrest : p.rest = .call (.flush taskId loaded changed) k)
    (hwrites : changed.status ≠ loaded.status) (hfree : p.locked taskId = none)
    (hrow : s.tasks taskId = some row) : row.status ≠ .cancelled := by
  intro hstatus
  rw [System.revives, hrest] at h
  dsimp only at h
  rw [hfree, hrow, Option.any_some, hstatus, bne_iff_ne.mpr hwrites] at h
  cases h

section

variable {s : System} {i : Nat} {p : Process} {taskId : String} {where_ : TaskRow → Bool}
  {values : TaskRow → TaskRow} {lock : RowLock}

/-- The row a statement of process `i` meets, and can lock. -/
def System.Finds (s : System) (i : Nat) (p : Process) (taskId : String) (row : TaskRow) : Prop :=
  p.locked taskId = some row ∨
    (p.locked taskId = none ∧ s.tasks taskId = some row ∧ s.lockedElsewhere i taskId = false)

theorem write_cases {r : Bool × Rows} (h : s.write i p taskId where_ values = some r) :
    r = (false, p.locked) ∨ ∃ row, r = (true, Function.update p.locked taskId (some (values row))) ∧
        where_ row ∧ s.Finds i p taskId row := by
  unfold System.write at h
  cases hown : p.locked taskId with
  | some row =>
    rw [hown] at h
    dsimp only at h
    split at h
    · rename_i hwhere
      cases h
      exact .inr ⟨row, rfl, hwhere, .inl hown⟩
    · cases h
      exact .inl rfl
  | none =>
    rw [hown] at h
    cases htask : s.tasks taskId with
    | none =>
      rw [htask] at h
      cases h
      exact .inl rfl
    | some row =>
      rw [htask] at h
      dsimp only at h
      split at h
      · cases h
        exact .inl rfl
      rename_i hwhere
      split at h
      · cases h
      · rename_i hfree
        cases h
        exact .inr ⟨row, rfl, by simpa using hwhere, .inr ⟨hown, htask, by simpa using hfree⟩⟩

theorem read_cases {r : Option TaskRow × Rows} (h : s.read i p taskId where_ lock = some r) :
    (r.2 = p.locked ∧ ∀ row, p.locked taskId = some row → ∀ r', r.1 = some r' → r' = row) ∨
      ∃ row, r = (some row, Function.update p.locked taskId (some row)) ∧ lock ≠ .none ∧
        p.locked taskId = none ∧ s.Finds i p taskId row := by
  unfold System.read at h
  cases hown : p.locked taskId with
  | some row =>
    rw [hown] at h
    cases h
    left
    refine ⟨rfl, ?_⟩
    rintro _ ⟨⟩ r' hr'
    split at hr'
    · exact (Option.some.inj hr').symm
    · cases hr'
  | none =>
    rw [hown] at h
    have hnone : ∀ {reply : Option TaskRow}, r = (reply, p.locked) →
        r.2 = p.locked ∧ ∀ row, none = some row → ∀ r', r.1 = some r' → r' = row := by
      rintro reply rfl
      exact ⟨rfl, fun row hrow => by cases hrow⟩
    cases htask : s.tasks taskId with
    | none =>
      rw [htask] at h
      cases h
      exact .inl (hnone rfl)
    | some row =>
      rw [htask] at h
      dsimp only at h
      split at h
      · cases h
        exact .inl (hnone rfl)
      cases lock with
      | none =>
        cases h
        exact .inl (hnone rfl)
      | forUpdate =>
        dsimp only at h
        split at h
        · cases h
        · rename_i hfree
          cases h
          exact .inr ⟨row, rfl, by decide, rfl, .inr ⟨hown, htask, by simpa using hfree⟩⟩
      | skipLocked =>
        dsimp only at h
        split at h
        · cases h
          exact .inl (hnone rfl)
        · rename_i hfree
          cases h
          exact .inr ⟨row, rfl, by decide, rfl, .inr ⟨hown, htask, by simpa using hfree⟩⟩

theorem perform_allowed {answer : Bool} {d : Done o}
    (h : s.perform i p answer o = some d) : Allowed p.locked o d.reply d.locked := by
  cases o with
  | select =>
    obtain ⟨r, hr, rfl⟩ := Option.map_eq_some_iff.mp h
    rcases read_cases hr with ⟨hsame, hown⟩ | ⟨row, rfl, hlock, hnone, -⟩
    · exact ⟨fun _ => hsame, fun row hrow => ⟨hsame, hown row hrow⟩⟩
    · refine ⟨fun hplain => absurd hplain hlock, ?_⟩
      intro row' hrow'
      rw [hnone] at hrow'
      cases hrow'
  | update =>
    obtain ⟨r, hr, rfl⟩ := Option.map_eq_some_iff.mp h
    rcases write_cases hr with rfl | ⟨row, rfl, -, -⟩
    · exact rfl
    · exact ⟨row, rfl⟩
  | flush | commit | rollback => trivial
  | acquirePickLock =>
    rw [System.perform] at h
    split at h
    · cases h
    · cases h
      exact rfl
  | releasePickLock | ask =>
    cases h
    exact rfl

/-- What a statement of one process changes. -/
inductive Change (s : System) (i : Nat) (p : Process) : Rows → Rows → Prop
  | same : Change s i p p.locked s.tasks
  | locks (taskId : String) (row row' : TaskRow) (hfinds : s.Finds i p taskId row)
      (hkeeps : row.status = .cancelled → row'.status = .cancelled) :
      Change s i p (Function.update p.locked taskId (some row')) s.tasks
  | commits : Change s i p (fun _ => none) fun t => (p.locked t).or (s.tasks t)
  | rollsBack : Change s i p (fun _ => none) s.tasks

theorem flushed_status (h : changed.status = loaded.status) :
    (loaded.flushed changed row).status = row.status :=
  if_pos h

theorem perform_change {answer : Bool} {d : Done o} (h : s.perform i p answer o = some d)
    (hdemand : o.Demand p.locked)
    (hundisturbed : ∀ taskId loaded changed, o = .flush taskId loaded changed →
      changed.status ≠ loaded.status → p.locked taskId = none →
        ∀ row, s.tasks taskId = some row → row.status ≠ .cancelled) :
    Change s i p d.locked d.tasks := by
  cases o with
  | select taskId =>
    obtain ⟨r, hr, rfl⟩ := Option.map_eq_some_iff.mp h
    rcases read_cases hr with ⟨hsame, -⟩ | ⟨row, rfl, -, -, hfinds⟩
    · rw [hsame]
      exact .same
    · exact .locks taskId row row hfinds fun hstatus => hstatus
  | update taskId where_ values =>
    obtain ⟨r, hr, rfl⟩ := Option.map_eq_some_iff.mp h
    rcases write_cases hr with rfl | ⟨row, rfl, hwhere, hfinds⟩
    · exact .same
    · exact .locks taskId row (values row) hfinds (hdemand row hwhere)
  | flush taskId loaded changed =>
    obtain ⟨r, hr, rfl⟩ := Option.map_eq_some_iff.mp h
    rcases write_cases hr with rfl | ⟨row, rfl, -, hfinds⟩
    · exact .same
    · refine .locks taskId row (loaded.flushed changed row) hfinds ?_
      intro hcancelled
      by_cases hsame : changed.status = loaded.status
      · rw [flushed_status hsame]
        exact hcancelled
      · exfalso
        rcases hfinds with hown | ⟨hnone, htask, -⟩
        · rcases hdemand with hstatus | hlive
          · exact hsame hstatus
          · exact hlive row hown hcancelled
        · exact hundisturbed taskId loaded changed rfl hsame hnone row htask hcancelled
  | commit =>
    cases h
    exact .commits
  | rollback =>
    cases h
    exact .rollsBack
  | acquirePickLock =>
    rw [System.perform] at h
    split at h
    · cases h
    · cases h
      exact .same
  | releasePickLock | ask =>
    cases h
    exact .same

theorem lockedElsewhere_eq_false (h : s.lockedElsewhere i taskId = false) {j : Nat} (hij : j ≠ i)
    (hj : s.processes[j]? = some q) : q.locked taskId = none := by
  rw [System.lockedElsewhere, System.others, any_eq_false] at h
  have hfree := h (q, j) (mem_zipIdx_iff_getElem?.mpr hj)
  rw [Bool.and_eq_true, not_and] at hfree
  simpa using hfree (decide_eq_true hij)

end

section

variable {s : System} {i : Nat} {p : Process} {locked tasks : Rows}

section

variable (h : Change s i p locked tasks)
include h

theorem Change.apart (hsound : s.Sound)
    (hi : s.processes[i]? = some p) {j : Nat} (hij : j ≠ i) (hj : s.processes[j]? = some q)
    (taskId : String) (hlocked : (locked taskId).isSome) :
    q.locked taskId = none := by
  have hapart := Pool.rel_of_ne (fun _ _ => Process.Apart.symm) hsound.apart (Ne.symm hij) hi hj
  cases h with
  | same => exact hapart taskId hlocked
  | locks changed row row' hfinds =>
    by_cases heq : taskId = changed
    · rw [heq]
      rcases hfinds with hown | ⟨-, -, hfree⟩
      · exact hapart changed (by rw [hown]; rfl)
      · exact lockedElsewhere_eq_false hfree hij hj
    · rw [Function.update_of_ne heq] at hlocked
      exact hapart taskId hlocked
  | commits | rollsBack => cases hlocked

theorem Change.faithful (hp : Faithful s.tasks p.locked) :
    Faithful tasks locked := by
  cases h with
  | same => exact hp
  | locks changed row row' hfinds hkeeps =>
    intro taskId seen hseen
    by_cases heq : taskId = changed
    · subst heq
      rw [Function.update_self] at hseen
      cases hseen
      rcases hfinds with hown | ⟨-, htask, -⟩
      · obtain ⟨committed, hcommitted, hstays⟩ := hp taskId row hown
        exact ⟨committed, hcommitted, fun hstatus => hkeeps (hstays hstatus)⟩
      · exact ⟨row, htask, hkeeps⟩
    · rw [Function.update_of_ne heq] at hseen
      exact hp taskId seen hseen
  | commits | rollsBack =>
    intro taskId row hrow
    cases hrow

theorem Change.faithful_other (hapart : q.Apart p)
    (hq : Faithful s.tasks q.locked) : Faithful tasks q.locked := by
  cases h with
  | same | locks | rollsBack => exact hq
  | commits =>
    intro taskId row hrow
    have hfree := hapart taskId (by rw [hrow]; rfl)
    dsimp only
    rw [hfree, Option.none_or]
    exact hq taskId row hrow

theorem Change.keepsCancelled (hp : Faithful s.tasks p.locked) :
    KeepsCancelled s.tasks tasks := by
  cases h with
  | same | locks | rollsBack => exact .refl _
  | commits =>
    intro taskId row hrow hstatus
    cases hown : p.locked taskId with
    | none =>
      refine ⟨row, ?_, hstatus⟩
      dsimp only
      rw [hown, Option.none_or, hrow]
    | some row' =>
      obtain ⟨committed, hcommitted, hstays⟩ := hp taskId row' hown
      rw [hrow] at hcommitted
      cases hcommitted
      refine ⟨row', ?_, hstays hstatus⟩
      dsimp only
      rw [hown, Option.some_or]

end

theorem System.Sound.become (hsound : s.Sound) (hi : s.processes[i]? = some p)
    (h : Change s i p locked tasks) {x : Option Process} (hx : ∀ q, x = some q → q.locked = locked ∧
      q.rest.Safe Allowed (fun t o => o.Demand t) (fun _ _ => True) locked) :
    ({ s with tasks := tasks }.become i x).Sound where
  apart := by
    refine Pool.pairwise_update (fun _ _ => Process.Apart.symm) hsound.apart ?_
    intro q hq j r hij hj taskId hlocked
    rw [(hx q hq).1] at hlocked
    exact h.apart hsound hi hij hj taskId hlocked
  faithful := by
    intro q hq
    rcases Pool.mem_update hq with hmoved | ⟨j, hij, hj⟩
    · rw [(hx q hmoved).1]
      exact h.faithful (hsound.faithful p (mem_of_getElem? hi))
    · have hapart := Pool.rel_of_ne (fun _ _ => Process.Apart.symm) hsound.apart hij hj hi
      exact h.faithful_other hapart (hsound.faithful q (mem_of_getElem? hj))
  safe := by
    intro q hq
    rcases Pool.mem_update hq with hmoved | ⟨j, -, hj⟩
    · rw [(hx q hmoved).1]
      exact (hx q hmoved).2
    · exact hsound.safe q (mem_of_getElem? hj)

theorem System.Sound.start (hsound : s.Sound) (controller : Nat) (call : Call) :
    (s.start controller call.operation).Sound := by
  have hcases : ∀ p ∈ (s.start controller call.operation).processes,
      p ∈ s.processes ∨ p = ⟨controller, false, fun _ => none, call.operation⟩ := by
    intro p hp
    simpa [System.start] using hp
  constructor
  · rw [System.start, pairwise_append]
    refine ⟨hsound.apart, pairwise_singleton _ _, ?_⟩
    intro p _ q hq taskId _
    obtain rfl : q = ⟨controller, false, fun _ => none, call.operation⟩ := by simpa using hq
    rfl
  · intro p hp
    rcases hcases p hp with hold | rfl
    · exact hsound.faithful p hold
    · intro taskId row hrow
      cases hrow
  · intro p hp
    rcases hcases p hp with hold | rfl
    · exact hsound.safe p hold
    · exact safe_operation call _

theorem System.Sound.step (hsound : s.Sound) {e : Event} (h : Undisturbed s e) :
    (step s e).Sound ∧ KeepsCancelled s.tasks (step s e).tasks := by
  cases e with
  | start controller call => exact ⟨hsound.start controller call, .refl _⟩
  | kill i =>
    cases hi : s.processes[i]? with
    | none =>
      have hlen := List.getElem?_eq_none_iff.mp hi
      have hsame : Lifecycle.step s (.kill i) = s := by
        rw [Lifecycle.step, System.become, Pool.update, eraseIdx_of_length_le hlen]
      rw [hsame]
      exact ⟨hsound, .refl _⟩
    | some p => exact ⟨hsound.become hi .same fun q hq => (by cases hq), .refl _⟩
  | proceed i answer =>
    cases hi : s.processes[i]? with
    | none =>
      have hsame : Lifecycle.step s (.proceed i answer) = s := by
        rw [Lifecycle.step, hi]
      rw [hsame]
      exact ⟨hsound, .refl _⟩
    | some p =>
      have hstep : Lifecycle.step s (.proceed i answer) = s.proceed i answer p := by
        rw [Lifecycle.step, hi]
      rw [hstep]
      have hsafe := hsound.safe p (mem_of_getElem? hi)
      have hquiet : s.revives p = false := by
        rw [Undisturbed, hi] at h
        simpa using h
      unfold System.proceed
      cases hrest : p.rest with
      | done _ => exact ⟨hsound.become hi .same fun q hq => (by cases hq), .refl _⟩
      | call o k =>
        rw [hrest] at hsafe
        dsimp only
        cases hperform : s.perform i p answer o with
        | none => exact ⟨hsound, .refl _⟩
        | some d =>
          have hchange := perform_change hperform hsafe.1 ?_
          · refine ⟨hsound.become hi hchange ?_, ?_⟩
            · rintro q ⟨⟩
              exact ⟨rfl, hsafe.2 _ _ (perform_allowed hperform)⟩
            · exact hchange.keepsCancelled (hsound.faithful p (mem_of_getElem? hi))
          · rintro taskId loaded changed rfl hwrites hfree row hrow
            exact not_revived hquiet hrest hwrites hfree hrow

theorem sound_fresh (tasks : Rows) : (System.fresh tasks).Sound := by
  constructor
  · exact List.Pairwise.nil
  · exact fun p hp => nomatch hp
  · exact fun p hp => nomatch hp

theorem System.Sound.run (hsound : s.Sound) {es : List Event}
    (h : Meets Lifecycle.step (fun s e => Undisturbed s e = true) s es) :
    (Runs.run Lifecycle.step s es).Sound ∧
      KeepsCancelled s.tasks (Runs.run Lifecycle.step s es).tasks := by
  induction es generalizing s with
  | nil => exact ⟨hsound, .refl _⟩
  | cons e es ih =>
    obtain ⟨hnext, hkeeps⟩ := hsound.step h.1
    obtain ⟨hlast, hkeeps'⟩ := ih hnext h.2
    exact ⟨hlast, hkeeps.trans hkeeps'⟩

end

/-- No revision without an attempt is started. -/
def Fenced (_ : System) : Event → Prop
  | .start _ c => c.unfenced = false
  | _ => True

theorem not_revives (s : System)
    (h : p.rest.Safe Allowed (fun t o => o.Owned t) (fun _ _ => True) p.locked) :
    s.revives p = false := by
  unfold System.revives
  split
  · rename_i hrest
    rw [hrest] at h
    obtain hsame | hlocked := h.1
    · rw [hsame, bne_self_eq_false, Bool.false_and, Bool.false_and]
    · rw [Option.isNone_eq_false_iff.mpr hlocked, Bool.and_false, Bool.false_and]
  · rfl

theorem mem_become {s : System} {i : Nat} {x : Option Process}
    (h : q ∈ (s.become i x).processes) : x = some q ∨ q ∈ s.processes := by
  refine (Pool.mem_update (show q ∈ Pool.update s.processes i x from h)).imp_right ?_
  rintro ⟨j, -, hj⟩
  exact mem_of_getElem? hj

theorem owned_step {s : System} {e : Event}
    (h : ∀ p ∈ s.processes, p.rest.Safe Allowed (fun t o => o.Owned t) (fun _ _ => True) p.locked)
    (he : Fenced s e) : ∀ p ∈ (step s e).processes,
      p.rest.Safe Allowed (fun t o => o.Owned t) (fun _ _ => True) p.locked := by
  intro p hp
  cases e with
  | start =>
    obtain hold | hnew := mem_append.mp hp
    · exact h p hold
    · rw [mem_singleton.mp hnew]
      exact owned_operation he _
  | kill => exact h p ((mem_become hp).resolve_left (by simp))
  | proceed i answer =>
    unfold step at hp
    dsimp only at hp
    split at hp
    · exact h p hp
    rename_i moved hi
    have hmoved := h moved (mem_of_getElem? hi)
    unfold System.proceed at hp
    split at hp
    · exact h p ((mem_become hp).resolve_left (by simp))
    rename_i o k hrest
    rw [hrest] at hmoved
    split at hp
    · exact h p hp
    · rename_i d hperform
      obtain hnext | hold := mem_become hp
      · rw [← Option.some.inj hnext]
        exact hmoved.2 _ _ (perform_allowed hperform)
      · exact h p hold

/-- A run is disturbed by revisions without an attempt only. -/
theorem undisturbed_of_fenced (tasks : Rows) {es : List Event}
    (h : Meets step Fenced (.fresh tasks) es) :
    Meets step (fun s e => Undisturbed s e = true) (.fresh tasks) es := by
  refine meets_iff_forall_prefix.mpr ?_
  rintro pre e ⟨rest, rfl⟩
  rw [append_assoc, meets_append] at h
  have howned := run_invariant_of_meets _ (fun _ _ => owned_step) (fun p hp => nomatch hp) h.1
  cases e with
  | proceed i =>
    cases hi : (run step (.fresh tasks) pre).processes[i]? with
    | none => simp [Undisturbed, hi]
    | some p => simp [Undisturbed, hi, not_revives _ (howned p (mem_of_getElem? hi))]
  | _ => rfl

/-- In an undisturbed run a task once cancelled stays cancelled. -/
theorem cancelled_stays (tasks : Rows) (es : List Event)
    (h : Meets step (fun s e => Undisturbed s e = true) (.fresh tasks) es)
    (before later : List Event) (hrun : before ++ later <+: es) :
    KeepsCancelled (run step (.fresh tasks) before).tasks
      (run step (.fresh tasks) (before ++ later)).tasks := by
  obtain ⟨rest, rfl⟩ := hrun
  have hboth := (meets_append.mp h).1
  rw [meets_append] at hboth
  have hsound := ((sound_fresh tasks).run hboth.1).1
  rw [run_append]
  exact (hsound.run hboth.2).2

def pausedTask : TaskRow where
  status := .paused
  attemptNumber := 1
  workflowState := some { status := .paused, pendingPauseType := some .gate, pauseId := some "g" }
  workflowId := some "w"
  startedAt := some 0
  completedAt := none
  scheduledFor := none
  resultSummary := none

def onePaused : Rows := fun taskId => if taskId = "t" then some pausedTask else none

def cancelling (i : Nat) : List Event :=
  .start 1 (.cancelTask "t" 5 none) :: replicate 5 (.proceed i true)

def revisedMeanwhile : List Event :=
  [.start 0 (.requestRevision "t" none "again" none), .proceed 0 true, .proceed 0 true] ++
    cancelling 1

/-- A revision that starts after the cancellation is refused. -/
theorem cancelled_stays_revised_later :
    ∃ row, (run step (.fresh onePaused) (cancelling 0 ++ [.start 0
      (.requestRevision "t" none "again" none), .proceed 1 true, .proceed 1 true,
      .proceed 1 true])).tasks "t" = some row ∧ row.status = .cancelled := by
  have hquiet : Meets step (fun s e => Undisturbed s e = true) (.fresh onePaused)
      (cancelling 0 ++ [.start 0 (.requestRevision "t" none "again" none), .proceed 1 true,
        .proceed 1 true, .proceed 1 true]) := by
    decide +kernel
  obtain ⟨row, hrow, hstatus⟩ : ∃ row,
      (run step (.fresh onePaused) (cancelling 0)).tasks "t" = some row ∧
        row.status = .cancelled := ⟨_, rfl, rfl⟩
  exact cancelled_stays onePaused _ hquiet (cancelling 0) _ (prefix_refl _) "t" row hrow hstatus

/-- The revision writes back the status of the task that was cancelled meanwhile. -/
theorem cancelled_revived : ¬ ∀ tasks es before later, before ++ later <+: es →
      KeepsCancelled (run step (.fresh tasks) before).tasks
        (run step (.fresh tasks) (before ++ later)).tasks := by
  intro hclaim
  have hkeeps := hclaim onePaused _ revisedMeanwhile
    [.proceed 0 true, .proceed 0 true, .proceed 0 true] (prefix_refl _)
  obtain ⟨row, hrow, hstatus⟩ : ∃ row,
      (run step (.fresh onePaused) revisedMeanwhile).tasks "t" = some row ∧
        row.status = .cancelled := ⟨_, rfl, rfl⟩
  obtain ⟨row', hrow', hstatus'⟩ := hkeeps "t" row hrow hstatus
  have hrevived : ((run step (.fresh onePaused) (revisedMeanwhile ++
      [.proceed 0 true, .proceed 0 true, .proceed 0 true])).tasks "t").map (·.status) =
        some .running := by
    decide +kernel
  rw [hrow', Option.map_some, hstatus'] at hrevived
  cases hrevived

end Cognis.Tasks.Lifecycle
