import Cognis.Tasks.Queue

namespace Cognis.Tasks.Queue

open List Runs

variable {new st : Status} {b : Activity} {x : Option Activity}

variable (deps : List Dependency) (status : Statuses) (taskId : String)

def Doomed : Prop :=
  ∃ d ∈ deps, d.taskId = taskId ∧ d.required = true ∧
    (status d.dependsOn = some .failed ∨ status d.dependsOn = some .cancelled)

def Waiting : Prop :=
  ∃ d ∈ deps, d.taskId = taskId ∧ d.required = true ∧
    ∃ st, status d.dependsOn = some st ∧ st ∉ [.completed, .failed, .cancelled]

/-- Every task still queued waits for one it requires, and none requires one that
failed or was cancelled: that one would have been paused. -/
def Resolved : Prop :=
  ∀ taskId, status taskId = some .queued → Waiting deps status taskId ∧ ¬ Doomed deps status taskId

def Unneeded : Prop :=
  ∀ d ∈ deps, d.dependsOn = taskId → d.required = true → status d.taskId ≠ some .queued

instance (deps : List Dependency) (status : Statuses) (taskId : String) :
    Decidable (Doomed deps status taskId) :=
  inferInstanceAs (Decidable (∃ d ∈ deps, _ ∧ _ ∧ (_ ∨ _)))

instance (deps : List Dependency) (status : Statuses) (taskId : String) :
    Decidable (Unneeded deps status taskId) :=
  inferInstanceAs (Decidable (∀ d ∈ deps, _ → _ → _ ≠ _))

/-- No task ends failed or cancelled while a queued one requires it, none is queued
that requires a failed or cancelled one, and no operation fails but a run in its
workflow. -/
def undisturbed (s : System) : Event → Bool
  | .submit _ => true
  | .claim _ => true
  | .advance i =>
    match s.activities[i]? with
    | some (.submitting taskId) => ¬ Doomed deps s.status taskId
    | _ => true
  | .finish i outcome =>
    match s.activities[i]? with
    | some (.running taskId) =>
      outcome = .completed ∨ allows (s.status taskId) outcome.status = false ∨
        Unneeded deps s.status taskId
    | _ => true
  | .raise i =>
    match s.activities[i]? with
    | some (.running taskId) => Unneeded deps s.status taskId
    | some _ => false
    | none => true
  | .cancel taskId =>
    allows (s.status taskId) .cancelled = false ∨ Unneeded deps s.status taskId

def Activity.WillReady : Activity → Prop
  | .submitted id | .readying id => id = taskId
  | .resolving completedTaskId => taskId ∈ getDependentTasks deps completedTaskId
  | .checking todo edits | .judging _ _ todo edits | .pausing _ todo edits =>
    taskId ∈ todo ∨ taskId ∈ edits.map Prod.fst
  | .marking depId todo edits => depId = taskId ∨ taskId ∈ todo ∨ taskId ∈ edits.map Prod.fst
  | .submitting _ | .running _ => False

def Blocked : Prop :=
  getUnmetDependencies deps status taskId ≠ []

/-- Two transactions have not written the same row. -/
def Activity.Apart (a b : Activity) : Prop :=
  ∀ taskId, taskId ∈ a.edits.map Prod.fst → taskId ∉ b.edits.map Prod.fst

def EditsSound (edits : StatusEdits) : Prop :=
  ∀ p ∈ edits, (p.2 = .ready ∨ p.2 = .paused) ∧ allows (status p.1) p.2 = true

structure System.Sound (deps : List Dependency) (s : System) : Prop where
  edits : ∀ a ∈ s.activities, EditsSound s.status a.edits
  apart : s.activities.Pairwise Activity.Apart
  /-- A queued task that nothing blocks is about to be made ready. -/
  duty : ∀ taskId, s.status taskId = some .queued →
    Blocked deps s.status taskId ∨ ∃ a ∈ s.activities, a.WillReady deps taskId

section

variable {deps : List Dependency} {status : Statuses} {edits : StatusEdits} {taskId : String}

theorem overlay_cases (edits : StatusEdits) (status : Statuses) (taskId : String) :
    (∃ st, (taskId, st) ∈ edits ∧ overlay edits status taskId = some st) ∨
      (taskId ∉ edits.map Prod.fst ∧ overlay edits status taskId = status taskId) := by
  rw [overlay]
  cases hlookup : edits.lookup taskId with
  | some st =>
    obtain ⟨l₁, l₂, hsplit, -⟩ := List.lookup_eq_some_iff.mp hlookup
    refine .inl ⟨st, ?_, rfl⟩
    rw [hsplit]
    simp
  | none =>
    rw [lookup_eq_none_iff] at hlookup
    refine .inr ⟨?_, rfl⟩
    intro hmem
    obtain ⟨p, hp, rfl⟩ := mem_map.mp hmem
    exact absurd (hlookup p hp) (by simp)

theorem allows_cases {current : Option Status} (h : allows current new)
    (hnew : new = .ready ∨ new = .paused) :
    current = some .queued ∧ new = .ready ∨ current = some .running ∧ new = .paused := by
  obtain ⟨c, rfl, hc⟩ := (Option.any_eq_true _ _).mp h
  rcases hnew with rfl | rfl <;> cases c <;> revert hc <;> decide

section

variable (hedits : EditsSound status edits)
include hedits

/-- A write that the transaction's own view allows is one the committed status
allows, and the transaction has not written the row before. -/
theorem allows_of_overlay (hnew : new = .ready ∨ new = .paused)
    (h : allows (overlay edits status taskId) new) : allows (status taskId) new := by
  rcases overlay_cases edits status taskId with ⟨st, hst, hview⟩ | ⟨-, hview⟩
  · rw [hview] at h
    rcases (hedits _ hst).1 with hready | hpaused
    · dsimp only at hready
      rw [hready] at h
      rcases hnew with rfl | rfl <;> cases h
    · dsimp only at hpaused
      rw [hpaused] at h
      rcases hnew with rfl | rfl <;> cases h
  · rwa [hview] at h

theorem overlay_completed (taskId : String) :
    (overlay edits status taskId).any (· ≠ .completed) = (status taskId).any (· ≠ .completed) := by
  rcases overlay_cases edits status taskId with ⟨st, hst, hview⟩ | ⟨-, hview⟩
  · obtain ⟨hnew, hallows⟩ := hedits _ hst
    rw [hview]
    rcases allows_cases hallows hnew with ⟨hstatus, rfl⟩ | ⟨hstatus, rfl⟩ <;> rw [hstatus] <;> rfl
  · rw [hview]

theorem getUnmetDependencies_overlay (taskId : String) :
    getUnmetDependencies deps (overlay edits status) taskId =
      getUnmetDependencies deps status taskId := by
  rw [getUnmetDependencies, getUnmetDependencies]
  congr 1
  funext d
  rw [overlay_completed hedits]

end

theorem blocked_iff :
    Blocked deps status taskId ↔ ∃ d ∈ deps, d.taskId = taskId ∧ d.required ∧
      (status d.dependsOn).any (· ≠ .completed) := by
  rw [Blocked, getUnmetDependencies, ne_eq, filter_eq_nil_iff]
  push Not
  simp only [Bool.and_eq_true, decide_eq_true_eq, and_assoc]

theorem Blocked.update (h : Blocked deps status taskId) {id : String}
    (hst : st = .completed → taskId ∉ getDependentTasks deps id) :
    Blocked deps (Function.update status id (some st)) taskId := by
  rw [blocked_iff] at h ⊢
  obtain ⟨d, hd, hown, hrequired, hopen⟩ := h
  refine ⟨d, hd, hown, hrequired, ?_⟩
  by_cases hid : d.dependsOn = id
  · rw [hid, Function.update_self]
    refine decide_eq_true ?_
    intro hcompleted
    apply hst hcompleted
    rw [getDependentTasks, mem_map]
    exact ⟨d, mem_filter.mpr ⟨hd, decide_eq_true hid⟩, hown⟩
  · rwa [Function.update_of_ne hid]

end

section

variable {deps : List Dependency} {s : System} {i : Nat} {a : Activity} {taskId : String}

theorem Activity.Apart.symm {a : Activity} (h : a.Apart b) : b.Apart a :=
  fun id hb ha => h id ha hb

theorem not_locked (h : s.locked i taskId = false) {j : Nat} (hij : j ≠ i)
    (hj : s.activities[j]? = some b) : taskId ∉ b.edits.map Prod.fst := by
  intro hmem
  rw [System.locked, any_eq_false] at h
  apply h (b, j) (mem_zipIdx_iff_getElem?.mpr hj)
  rw [Bool.and_eq_true]
  exact ⟨decide_eq_true hij, contains_iff_mem.mpr hmem⟩

theorem System.Sound.become (h : s.Sound deps) (hi : s.activities[i]? = some a)
    (hedits : ∀ b ∈ x, EditsSound s.status b.edits)
    (hapart : ∀ b ∈ x, ∀ j c, j ≠ i → s.activities[j]? = some c → b.Apart c)
    (hduty : ∀ taskId, s.status taskId = some .queued → a.WillReady deps taskId →
      Blocked deps s.status taskId ∨ ∃ b ∈ x, b.WillReady deps taskId) :
    (s.become i x).Sound deps where
  edits b hb := by
    rcases Pool.mem_update hb with hx | ⟨j, -, hj⟩
    · exact hedits b hx
    · exact h.edits b (mem_of_getElem? hj)
  apart := Pool.pairwise_update (fun _ _ => Activity.Apart.symm) h.apart hapart
  duty id hid := by
    rcases h.duty id hid with hblocked | ⟨b, hb, hready⟩
    · exact .inl hblocked
    · obtain ⟨j, hj⟩ := mem_iff_getElem?.mp hb
      by_cases hij : j = i
      · rw [hij, hi] at hj
        cases hj
        rcases hduty id hid hready with hblocked | ⟨c, hc, hready'⟩
        · exact .inl hblocked
        · refine .inr ⟨c, ?_, hready'⟩
          rw [hc]
          obtain ⟨hlt, -⟩ := List.getElem?_eq_some_iff.mp hi
          exact Pool.mem_update_self hlt
      · exact .inr ⟨b, Pool.mem_update_of_ne hij hj, hready⟩

theorem System.Sound.write (h : s.Sound deps)
    (hopen : ∀ a ∈ s.activities, taskId ∉ a.edits.map Prod.fst)
    (hqueued : st = .queued → ∃ a ∈ s.activities, a.WillReady deps taskId)
    (hcompleted : st = .completed → ∀ id ∈ getDependentTasks deps taskId,
      ∃ a ∈ s.activities, a.WillReady deps id) : (s.write taskId st).Sound deps := by
  unfold System.write
  split
  · refine ⟨?_, h.apart, ?_⟩
    · intro a ha p hp
      have hne : p.1 ≠ taskId := by
        rintro rfl
        exact hopen a ha (mem_map_of_mem hp)
      dsimp only
      rw [Function.update_of_ne hne]
      exact h.edits a ha p hp
    · intro id hid
      dsimp only at hid ⊢
      by_cases hself : id = taskId
      · rw [hself, Function.update_self] at hid
        rw [hself]
        exact .inr (hqueued (Option.some.inj hid))
      · rw [Function.update_of_ne hself] at hid
        rcases h.duty id hid with hblocked | hready
        · by_cases hdone : st = .completed ∧ id ∈ getDependentTasks deps taskId
          · exact .inr (hcompleted hdone.1 id hdone.2)
          · exact .inl (hblocked.update fun hst hmem => hdone ⟨hst, hmem⟩)
        · exact .inr hready
  · exact h

variable {edits : StatusEdits}

/-- The transaction of `resolve_dependencies` commits. -/
theorem System.Sound.commit (h : s.Sound deps) (hi : s.activities[i]? = some (.checking [] edits)) :
    ({ s with status := overlay edits s.status }.become i none).Sound deps := by
  have hown : EditsSound s.status edits := h.edits _ (mem_of_getElem? hi)
  have hother : ∀ b ∈ Pool.update s.activities i none, ∃ j, j ≠ i ∧ s.activities[j]? = some b := by
    intro b hb
    rcases Pool.mem_update hb with hnone | hj
    · cases hnone
    · exact hj
  refine ⟨?_, ?_, ?_⟩
  · intro b hb p hp
    obtain ⟨j, hij, hj⟩ := hother b hb
    have happart : Activity.Apart b (.checking [] edits) :=
      Pool.rel_of_ne (fun _ _ => Activity.Apart.symm) h.apart hij hj hi
    have hsame : overlay edits s.status p.1 = s.status p.1 := by
      rcases overlay_cases edits s.status p.1 with ⟨st, hst, -⟩ | ⟨-, hview⟩
      · exact absurd (mem_map_of_mem hst) (happart p.1 (mem_map_of_mem hp))
      · exact hview
    change _ ∧ allows (overlay edits s.status p.1) p.2
    rw [hsame]
    exact h.edits b (mem_of_getElem? hj) p hp
  · change (Pool.update s.activities i none).Pairwise Activity.Apart
    apply Pool.pairwise_update (fun _ _ => Activity.Apart.symm) h.apart
    intro a ha
    cases ha
  · intro id hid
    change overlay edits s.status id = some .queued at hid
    rcases overlay_cases edits s.status id with ⟨st, hst, hview⟩ | ⟨hkey, hview⟩
    · -- a task that was written is ready or paused now
      rw [hview] at hid
      cases hid
      rcases (hown _ hst).1 with hfalse | hfalse <;> cases hfalse
    · rw [hview] at hid
      rcases h.duty id hid with hblocked | ⟨b, hb, hready⟩
      · refine .inl ?_
        change getUnmetDependencies deps (overlay edits s.status) id ≠ []
        rwa [getUnmetDependencies_overlay hown]
      · obtain ⟨j, hj⟩ := mem_iff_getElem?.mp hb
        by_cases hij : j = i
        · rw [hij, hi] at hj
          cases hj
          rcases hready with htodo | hwritten
          · cases htodo
          · exact absurd hwritten hkey
        · have hstays : b ∈ Pool.update s.activities i none := Pool.mem_update_of_ne hij hj
          exact .inr ⟨b, hstays, hready⟩

theorem write_become (s : System) (i : Nat) (x : Option Activity) (taskId : String) (st : Status) :
    (s.write taskId st).become i x = (s.become i x).write taskId st := by
  unfold System.write
  rw [show (s.become i x).status = s.status from rfl]
  split <;> rfl

theorem System.Sound.become_plain (h : s.Sound deps) (hi : s.activities[i]? = some a)
    (hplain : ∀ b ∈ x, b.edits = [])
    (hduty : ∀ taskId, s.status taskId = some .queued → a.WillReady deps taskId →
      Blocked deps s.status taskId ∨ ∃ b ∈ x, b.WillReady deps taskId) :
    (s.become i x).Sound deps := by
  apply h.become hi _ _ hduty
  · intro b hb p hp
    rw [hplain b hb] at hp
    cases hp
  · intro b hb j c _ _ id hid
    rw [hplain b hb] at hid
    cases hid

theorem System.Sound.become_same (h : s.Sound deps) (hi : s.activities[i]? = some a)
    (hsame : b.edits = a.edits)
    (hduty : ∀ taskId, s.status taskId = some .queued → a.WillReady deps taskId →
      Blocked deps s.status taskId ∨ b.WillReady deps taskId) :
    (s.become i (some b)).Sound deps := by
  apply h.become hi
  · intro b' hb'
    cases hb'
    rw [hsame]
    exact h.edits a (mem_of_getElem? hi)
  · intro b' hb' j c hij hj
    cases hb'
    rw [Activity.Apart, hsame]
    exact Pool.rel_of_ne (fun _ _ => Activity.Apart.symm) h.apart (Ne.symm hij) hi hj
  · intro id hid hready
    rcases hduty id hid hready with hblocked | hb
    · exact .inl hblocked
    · exact .inr ⟨b, rfl, hb⟩

/-- A row is free of writes after the operation that found it unlocked is replaced by
one without writes. -/
theorem unwritten_of_not_locked (hlocked : s.locked i taskId = false)
    (hplain : ∀ b ∈ x, b.edits = []) :
    ∀ a ∈ (s.become i x).activities, taskId ∉ a.edits.map Prod.fst := by
  intro b hb
  rcases Pool.mem_update hb with hx | ⟨j, hij, hj⟩
  · rw [hplain b hx]
    exact not_mem_nil
  · exact not_locked hlocked hij hj

/-- A write of `resolve_dependencies` on a row nobody else holds. -/
theorem System.Sound.edit (h : s.Sound deps) {todo : List String}
    (hnew : new = .ready ∨ new = .paused) (hi : s.activities[i]? = some a) (hown : a.edits = edits)
    (hlocked : s.locked i taskId = false)
    (hduty : ∀ id, s.status id = some .queued → a.WillReady deps id →
      id ∈ todo ∨ id ∈ edits.map Prod.fst ∨ (id = taskId ∧ new = .ready)) :
    (s.become i (some (.checking todo (editStatus s.status edits taskId new)))).Sound deps := by
  have hsound : EditsSound s.status edits := by
    rw [← hown]
    exact h.edits a (mem_of_getElem? hi)
  have hkeep : ∀ id ∈ edits.map Prod.fst,
      id ∈ (editStatus s.status edits taskId new).map Prod.fst := by
    intro id hid
    unfold editStatus
    split
    · exact mem_cons_of_mem _ hid
    · exact hid
  apply h.become hi
  · intro b hb
    cases hb
    unfold editStatus
    split
    · rename_i hallows
      intro p hp
      rcases mem_cons.mp hp with rfl | hp
      · exact ⟨hnew, allows_of_overlay hsound hnew hallows⟩
      · exact hsound p hp
    · exact hsound
  · intro b hb j c hij hj id hid
    cases hb
    have hrest := Pool.rel_of_ne (fun _ _ => Activity.Apart.symm) h.apart (Ne.symm hij) hi hj
    unfold editStatus at hid
    split at hid
    · rcases mem_cons.mp hid with rfl | hid
      · exact not_locked hlocked hij hj
      · exact hrest id (by rw [hown]; exact hid)
    · exact hrest id (by rw [hown]; exact hid)
  · intro id hid hready
    refine .inr ⟨_, rfl, ?_⟩
    rcases hduty id hid hready with htodo | hwritten | ⟨rfl, rfl⟩
    · exact .inl htodo
    · exact .inr (hkeep id hwritten)
    · rcases overlay_cases edits s.status id with ⟨st, hst, -⟩ | ⟨-, hview⟩
      · exact .inr (hkeep id (mem_map_of_mem hst))
      · refine .inr ?_
        rw [editStatus, if_pos]
        · exact mem_cons_self
        · rw [hview, hid]
          rfl

theorem System.Sound.advance (h : s.Sound deps) (hi : s.activities[i]? = some a) :
    (s.advance deps i a).Sound deps := by
  obtain ⟨hlt, -⟩ := List.getElem?_eq_some_iff.mp hi
  cases a with
  | submitting id =>
    rw [System.advance]
    split
    · exact h
    · rename_i hlocked
      rw [Bool.not_eq_true] at hlocked
      have hplain : ∀ b ∈ some (Activity.submitted id), b.edits = [] := by
        intro b hb
        cases hb
        rfl
      split
      · rw [write_become]
        apply System.Sound.write
        · exact h.become_plain hi hplain fun _ _ hfalse => hfalse.elim
        · exact unwritten_of_not_locked hlocked hplain
        · intro _
          exact ⟨.submitted id, Pool.mem_update_self hlt, rfl⟩
        · intro hfalse
          cases hfalse
      · refine h.become_plain hi ?_ fun _ _ hfalse => hfalse.elim
        intro b hb
        cases hb
  | submitted id =>
    rw [System.advance]
    split
    · apply h.become_plain hi
      · intro b hb
        cases hb
        rfl
      · intro id' _ hready
        exact .inr ⟨_, rfl, hready⟩
    · rename_i hunmet
      apply h.become_plain hi
      · intro b hb
        cases hb
      · intro id' _ hready
        obtain rfl : id = id' := hready
        exact .inl hunmet
  | readying id =>
    rw [System.advance]
    split
    · exact h
    · rename_i hlocked
      rw [Bool.not_eq_true] at hlocked
      have hopen : ∀ b ∈ s.activities, id ∉ b.edits.map Prod.fst := by
        intro b hb
        obtain ⟨j, hj⟩ := mem_iff_getElem?.mp hb
        by_cases hij : j = i
        · rw [hij, hi] at hj
          cases hj
          exact not_mem_nil
        · exact not_locked hlocked hij hj
      have hwritten : (s.write id .ready).Sound deps :=
        h.write hopen (fun hfalse => by cases hfalse) fun hfalse => by cases hfalse
      have hsame : (s.write id .ready).activities = s.activities := by
        unfold System.write
        split <;> rfl
      apply hwritten.become_plain (by rw [hsame]; exact hi)
      · intro b hb
        cases hb
      · intro id' hqueued hready
        obtain rfl : id = id' := hready
        unfold System.write at hqueued
        split at hqueued
        · dsimp only at hqueued
          rw [Function.update_self] at hqueued
          cases hqueued
        · rename_i hallows
          rw [hqueued] at hallows
          exact absurd rfl hallows
  | running id => exact h
  | resolving id =>
    apply h.become_plain hi
    · intro b hb
      cases hb
      rfl
    · intro id' _ hready
      exact .inr ⟨_, rfl, .inl hready⟩
  | checking todo edits =>
    cases todo with
    | nil => exact h.commit hi
    | cons =>
      have hown : EditsSound s.status edits := h.edits _ (mem_of_getElem? hi)
      rw [System.advance, getUnmetDependencies_overlay hown]
      split
      · refine h.become_same hi ?_ ?_
        · rfl
        · rintro id _ (htodo | hwritten)
          · rcases mem_cons.mp htodo with rfl | htodo
            · exact .inr (.inl rfl)
            · exact .inr (.inr (.inl htodo))
          · exact .inr (.inr (.inr hwritten))
      · rename_i hunmet
        refine h.become_same hi ?_ ?_
        · rfl
        · rintro id _ (htodo | hwritten)
          · rcases mem_cons.mp htodo with rfl | htodo
            · exact .inl hunmet
            · exact .inr (.inl htodo)
          · exact .inr (.inr hwritten)
  | marking =>
    rw [System.advance]
    split
    · exact h
    · rename_i hlocked
      rw [Bool.not_eq_true] at hlocked
      apply h.edit (.inl rfl) hi rfl hlocked
      rintro id _ (rfl | htodo | hwritten)
      · exact .inr (.inr ⟨rfl, rfl⟩)
      · exact .inl htodo
      · exact .inr (.inl hwritten)
  | judging depId failedRequired =>
    cases failedRequired with
    | nil => exact h.become_same hi rfl fun _ _ hready => .inr hready
    | cons =>
      rw [System.advance]
      split
      · exact h.become_same hi rfl fun _ _ hready => .inr hready
      · exact h.become_same hi rfl fun _ _ hready => .inr hready
  | pausing =>
    rw [System.advance]
    split
    · exact h
    · rename_i hlocked
      rw [Bool.not_eq_true] at hlocked
      apply h.edit (.inr rfl) hi rfl hlocked
      rintro id _ (htodo | hwritten)
      · exact .inl htodo
      · exact .inr (.inl hwritten)

theorem System.Sound.start (h : s.Sound deps) (hplain : a.edits = []) : (s.start a).Sound deps := by
  refine ⟨?_, ?_, ?_⟩
  · intro b hb
    rcases mem_append.mp hb with hold | hnew
    · exact h.edits b hold
    · rw [mem_singleton.mp hnew, hplain]
      intro p hp
      cases hp
  · change (s.activities ++ [a]).Pairwise Activity.Apart
    rw [pairwise_append]
    refine ⟨h.apart, pairwise_singleton _ _, ?_⟩
    intro b _ c hc
    rw [mem_singleton.mp hc, Activity.Apart, hplain]
    intro id _
    exact not_mem_nil
  · intro id hid
    rcases h.duty id hid with hblocked | ⟨b, hb, hready⟩
    · exact .inl hblocked
    · exact .inr ⟨b, mem_append_left _ hb, hready⟩

theorem unwritten_of_not_locked_length (hlocked : s.locked s.activities.length taskId = false) :
    ∀ a ∈ s.activities, taskId ∉ a.edits.map Prod.fst := by
  intro a ha
  obtain ⟨j, hj⟩ := mem_iff_getElem?.mp ha
  obtain ⟨hlt, -⟩ := List.getElem?_eq_some_iff.mp hj
  exact not_locked hlocked (Nat.ne_of_lt hlt) hj

theorem System.Sound.step (h : s.Sound deps) {e : Event} (he : undisturbed deps s e) :
    (step deps s e).Sound deps := by
  cases e with
  | submit id =>
    rw [Queue.step]
    split
    · exact h.start rfl
    · exact h
  | claim id =>
    rw [Queue.step]
    split
    · rename_i hready
      apply System.Sound.start _ rfl
      exact h.write (unwritten_of_not_locked_length hready.2) (fun hfalse => by cases hfalse)
        fun hfalse => by cases hfalse
    · exact h
  | advance i =>
    rw [Queue.step]
    split
    · rename_i a hi
      exact h.advance hi
    · exact h
  | finish i outcome =>
    rw [Queue.step]
    split
    · rename_i id hi
      obtain ⟨hlt, -⟩ := List.getElem?_eq_some_iff.mp hi
      split
      · exact h
      · rename_i hlocked
        rw [Bool.not_eq_true] at hlocked
        have hplain : ∀ b ∈ some (Activity.resolving id), b.edits = [] := by
          intro b hb
          cases hb
          rfl
        split
        · rw [write_become]
          apply System.Sound.write
          · exact h.become_plain hi hplain fun _ _ hfalse => hfalse.elim
          · exact unwritten_of_not_locked hlocked hplain
          · intro hfalse
            cases outcome <;> cases hfalse
          · intro _ id' hid'
            exact ⟨.resolving id, Pool.mem_update_self hlt, hid'⟩
        · refine h.become_plain hi ?_ fun _ _ hfalse => hfalse.elim
          intro b hb
          cases hb
    · exact h
  | raise i =>
    rw [Queue.step]
    split
    · rename_i id hi
      split
      · exact h
      · rename_i hlocked
        rw [Bool.not_eq_true] at hlocked
        rw [write_become]
        have hplain : ∀ b ∈ (none : Option Activity), b.edits = [] := by
          intro b hb
          cases hb
        apply System.Sound.write
        · exact h.become_plain hi hplain fun _ _ hfalse => hfalse.elim
        · exact unwritten_of_not_locked hlocked hplain
        · intro hfalse
          cases hfalse
        · intro hfalse
          cases hfalse
    · rename_i a hnot hi
      rw [undisturbed, hi] at he
      cases a with
      | running id => exact absurd rfl (hnot id)
      | _ => cases he
    · exact h
  | cancel id =>
    rw [Queue.step]
    split
    · exact h
    · rename_i hlocked
      rw [Bool.not_eq_true] at hlocked
      exact h.write (unwritten_of_not_locked_length hlocked) (fun hfalse => by cases hfalse)
        fun hfalse => by cases hfalse

end

def Clear (deps : List Dependency) (status : Statuses) : Prop :=
  ∀ taskId, status taskId = some .queued → ¬ Doomed deps status taskId

section

variable {deps : List Dependency} {s : System} {i : Nat} {a : Activity} {taskId : String}

theorem Clear.write (h : Clear deps s.status)
    (hqueued : st = .queued → ¬ Doomed deps s.status taskId)
    (hended : allows (s.status taskId) st → st = .failed ∨ st = .cancelled →
      Unneeded deps s.status taskId) : Clear deps (s.write taskId st).status := by
  unfold System.write
  split
  · rename_i hallows
    rintro id hid ⟨d, hd, rfl, hrequired, hdoom⟩
    dsimp only at hid hdoom
    by_cases hdep : d.dependsOn = taskId
    · rw [hdep, Function.update_self, Option.some.injEq, Option.some.injEq] at hdoom
      have hne : d.taskId ≠ taskId := by
        intro hself
        rw [hself, Function.update_self] at hid
        cases hid
        rcases hdoom with hfalse | hfalse <;> cases hfalse
      rw [Function.update_of_ne hne] at hid
      exact hended hallows hdoom d hd hdep hrequired hid
    · rw [Function.update_of_ne hdep] at hdoom
      by_cases hself : d.taskId = taskId
      · rw [hself, Function.update_self] at hid
        exact hqueued (Option.some.inj hid) ⟨d, hd, hself, hrequired, hdoom⟩
      · rw [Function.update_of_ne hself] at hid
        exact h d.taskId hid ⟨d, hd, rfl, hrequired, hdoom⟩
  · exact h

theorem Clear.commit (h : Clear deps s.status)
    (hedits : EditsSound s.status edits) : Clear deps (overlay edits s.status) := by
  have hplain : ∀ id st, st ≠ .ready → st ≠ .paused → overlay edits s.status id = some st →
      s.status id = some st := by
    intro id st hready hpaused hview
    rcases overlay_cases edits s.status id with ⟨st', hst', hview'⟩ | ⟨-, hview'⟩
    · rw [hview] at hview'
      cases hview'
      rcases (hedits _ hst').1 with heq | heq
      · exact absurd heq hready
      · exact absurd heq hpaused
    · rwa [hview'] at hview
  rintro id hid ⟨d, hd, hown, hrequired, hdoom⟩
  have hqueued := hplain id .queued (by decide) (by decide) hid
  apply h id hqueued
  refine ⟨d, hd, hown, hrequired, ?_⟩
  rcases hdoom with hfailed | hcancelled
  · exact .inl (hplain _ _ (by decide) (by decide) hfailed)
  · exact .inr (hplain _ _ (by decide) (by decide) hcancelled)

theorem Clear.advance (hsound : s.Sound deps) (h : Clear deps s.status)
    (hi : s.activities[i]? = some a) (he : ∀ id, a = .submitting id → ¬ Doomed deps s.status id) :
    Clear deps (s.advance deps i a).status := by
  cases a with
  | submitting id =>
    rw [System.advance]
    split
    · exact h
    · split
      · refine h.write (fun _ => he id rfl) fun _ hfalse => ?_
        rcases hfalse with hfalse | hfalse <;> cases hfalse
      · exact h
  | readying id =>
    rw [System.advance]
    split
    · exact h
    · refine h.write (fun hfalse => by cases hfalse) fun _ hfalse => ?_
      rcases hfalse with hfalse | hfalse <;> cases hfalse
  | checking todo =>
    cases todo with
    | nil => exact h.commit (hsound.edits _ (mem_of_getElem? hi))
    | cons =>
      rw [System.advance]
      split <;> exact h
  | submitted | marking | pausing =>
    rw [System.advance]
    split <;> exact h
  | judging depId failedRequired =>
    cases failedRequired with
    | nil => exact h
    | cons =>
      rw [System.advance]
      split <;> exact h
  | running | resolving => exact h

theorem Clear.step (hsound : s.Sound deps) (h : Clear deps s.status) {e : Event}
    (he : undisturbed deps s e) : Clear deps (step deps s e).status := by
  cases e with
  | submit id =>
    rw [Queue.step]
    split <;> exact h
  | claim id =>
    rw [Queue.step]
    split
    · refine h.write (fun hfalse => by cases hfalse) fun _ hfalse => ?_
      rcases hfalse with hfalse | hfalse <;> cases hfalse
    · exact h
  | advance i =>
    rw [Queue.step]
    split
    · rename_i a hi
      apply Clear.advance hsound h hi
      rintro id rfl
      rw [undisturbed, hi] at he
      exact of_decide_eq_true he
    · exact h
  | finish i outcome =>
    rw [Queue.step]
    split
    · rename_i id hi
      rw [undisturbed, hi] at he
      have hcond := of_decide_eq_true he
      split
      · exact h
      · split
        · apply h.write
          · intro hfalse
            cases outcome <;> cases hfalse
          · intro hallows hended
            rcases hcond with rfl | hfalse | hunneeded
            · rcases hended with hfalse | hfalse <;> cases hfalse
            · rw [hallows] at hfalse
              cases hfalse
            · exact hunneeded
        · exact h
    · exact h
  | raise i =>
    rw [Queue.step]
    split
    · rename_i id hi
      rw [undisturbed, hi] at he
      split
      · exact h
      · exact h.write (fun hfalse => by cases hfalse) fun _ _ => of_decide_eq_true he
    · exact h
    · exact h
  | cancel id =>
    have hcond := of_decide_eq_true he
    rw [Queue.step]
    split
    · exact h
    · refine h.write (fun hfalse => by cases hfalse) fun hallows _ => ?_
      rcases hcond with hfalse | hunneeded
      · rw [hallows] at hfalse
        cases hfalse
      · exact hunneeded

end

/-- However submissions, runs, cancellations and the resolution of dependencies
interleave: once they are all over, every queued task waits for one it requires and
that has not ended, and requires none that failed or was cancelled, as long as no
step meets the conditions under which nothing resolves a dependency. -/
theorem dependencies_resolved (deps : List Dependency) (tasks : List String) (es : List Event)
    (h : Meets (step deps) (fun s e => undisturbed deps s e = true) (.drafts tasks) es)
    (hover : (run (step deps) (.drafts tasks) es).activities = []) :
    Resolved deps (run (step deps) (.drafts tasks) es).status := by
  have hdraft : ∀ id, (System.drafts tasks).status id ≠ some .queued := by
    intro id
    rw [System.drafts]
    dsimp only
    split <;> intro hfalse <;> cases hfalse
  have hstart : (System.drafts tasks).Sound deps := by
    refine ⟨?_, List.Pairwise.nil, ?_⟩
    · intro a ha
      cases ha
    · intro id hid
      exact absurd hid (hdraft id)
  have hclear : Clear deps (System.drafts tasks).status := fun id hid => absurd hid (hdraft id)
  obtain ⟨hsound, hdone⟩ := run_invariant_of_meets (fun s => s.Sound deps ∧ Clear deps s.status)
    (fun s e hs he => ⟨hs.1.step he, hs.2.step hs.1 he⟩) ⟨hstart, hclear⟩ h
  intro id hid
  have hnot := hdone id hid
  refine ⟨?_, hnot⟩
  rcases hsound.duty id hid with hblocked | ⟨a, ha, -⟩
  · obtain ⟨d, hd, hown, hrequired, hopen⟩ := blocked_iff.mp hblocked
    obtain ⟨st, hst, hne⟩ := (Option.any_eq_true _ _).mp hopen
    refine ⟨d, hd, hown, hrequired, st, hst, ?_⟩
    rw [mem_cons, mem_cons, mem_singleton]
    rintro (rfl | rfl | rfl)
    · cases hne
    · exact hnot ⟨d, hd, hown, hrequired, .inl hst⟩
    · exact hnot ⟨d, hd, hown, hrequired, .inr hst⟩
  · rw [hover] at ha
    cases ha

/-- `b` requires `a`, and `c` requires `b`. -/
def chain : List Dependency := [⟨"b", "a", true⟩, ⟨"c", "b", true⟩]

/-- The three tasks are submitted, the last one first, and `a` is run. -/
def chainRun : List Event :=
  [.submit "c", .advance 0, .advance 0, .submit "b", .advance 0, .advance 0,
    .submit "a", .advance 0, .advance 0, .advance 0, .claim "a"]

/-- After `a` is completed and its dependents are resolved, `b` is ready and `c`
waits for it. -/
theorem dependencies_resolved_chain :
    let es := chainRun ++ [.finish 0 .completed, .advance 0, .advance 0, .advance 0, .advance 0]
    (run (step chain) (.drafts ["a", "b", "c"]) es).status "b" = some .ready ∧
      (run (step chain) (.drafts ["a", "b", "c"]) es).status "c" = some .queued ∧
      Resolved chain (run (step chain) (.drafts ["a", "b", "c"]) es).status := by
  intro es
  refine ⟨by decide +kernel, by decide +kernel, ?_⟩
  exact dependencies_resolved chain ["a", "b", "c"] es (by decide +kernel) (by decide +kernel)

/-- After `a` has failed and its dependents are resolved, `b` is still queued: the
status table lets no queued task be paused. -/
theorem failed_dependency_leaves_queued :
    let es := chainRun ++ [.finish 0 .failed, .advance 0, .advance 0, .advance 0, .advance 0,
      .advance 0]
    (run (step chain) (.drafts ["a", "b", "c"]) es).activities = [] ∧
      ¬ Resolved chain (run (step chain) (.drafts ["a", "b", "c"]) es).status := by
  intro es
  refine ⟨by decide +kernel, ?_⟩
  intro hresolved
  have hqueued : (run (step chain) (.drafts ["a", "b", "c"]) es).status "b" = some .queued := by
    decide +kernel
  have hdoomed : Doomed chain (run (step chain) (.drafts ["a", "b", "c"]) es).status "b" := by
    decide +kernel
  exact (hresolved "b" hqueued).2 hdoomed

end Cognis.Tasks.Queue
