import Cognis.Tasks.Queue

namespace Cognis.Tasks

open DepthFirst List Runs

/-- A transaction that inserted rows commits only if no other one has committed an
insertion since it began. -/
def Serialised (s : System) : Event → Prop
  | .commit i =>
    ∀ t ∈ s.active i, t.edits.any Edit.inserts = true → t.seen = s.insertions
  | _ => True

instance (s : System) (e : Event) : Decidable (Serialised s e) :=
  match e with
  | .commit i =>
    match h : s.active i with
    | some t =>
      decidable_of_iff (t.edits.any Edit.inserts = true → t.seen = s.insertions)
        (by simp [Serialised, h])
    | none => isTrue (by simp [Serialised, h])
  | .add .. | .remove .. | .proceed _ | .rollback _ => inferInstanceAs (Decidable True)

section

variable {rows rows' : List Dependency} {a b : String} {t : Transaction}

theorem dependsOn_iff_key : DependsOn rows a b ↔ (a, b) ∈ rows.map Dependency.key := by
  rw [mem_map]
  constructor
  · rintro ⟨d, hd, rfl, rfl⟩
    exact ⟨d, hd, rfl⟩
  · rintro ⟨d, hd, heq⟩
    obtain ⟨rfl, rfl⟩ := Prod.mk.inj heq
    exact ⟨d, hd, rfl, rfl⟩

theorem dependsOn_insert {row : Dependency} : DependsOn (Edit.apply rows (.insert row)) a b ↔
      DependsOn rows a b ∨ (a = row.taskId ∧ b = row.dependsOn) := by
  rw [Edit.apply, dependsOn_iff_key, dependsOn_iff_key]
  split
  · rename_i htaken
    constructor
    · exact .inl
    · rintro (hrow | ⟨rfl, rfl⟩)
      · exact hrow
      · exact contains_iff_mem.mp htaken
  · rw [map_append, mem_append, map_singleton, mem_singleton]
    rw [Dependency.key, Prod.mk.injEq]

variable {key : String × String}

theorem dependsOn_delete :
    DependsOn (Edit.apply rows (.delete key)) a b ↔ DependsOn rows a b ∧ (a, b) ≠ key := by
  constructor
  · rintro ⟨d, hd, rfl, rfl⟩
    rw [Edit.apply, mem_filter, decide_eq_true_eq] at hd
    exact ⟨⟨d, hd.1, rfl, rfl⟩, hd.2⟩
  · rintro ⟨⟨d, hd, rfl, rfl⟩, hkey⟩
    refine ⟨d, ?_, rfl, rfl⟩
    rw [Edit.apply, mem_filter, decide_eq_true_eq]
    exact ⟨hd, hkey⟩

theorem dependsOn_apply_mono (h : ∀ a b, DependsOn rows' a b → DependsOn rows a b) (e : Edit)
    (a b : String) : DependsOn (e.apply rows') a b → DependsOn (e.apply rows) a b := by
  cases e with
  | insert row =>
    rw [dependsOn_insert, dependsOn_insert]
    exact Or.imp_left (h a b)
  | delete key =>
    rw [dependsOn_delete, dependsOn_delete]
    exact And.imp_left (h a b)

theorem dependsOn_view_mono (h : ∀ a b, DependsOn rows' a b → DependsOn rows a b) (a b : String) :
    DependsOn (t.view rows') a b → DependsOn (t.view rows) a b := by
  rw [Transaction.view, Transaction.view]
  generalize t.edits = edits
  induction edits generalizing rows rows' with
  | nil => exact h a b
  | cons e _ ih => exact ih (dependsOn_apply_mono h e)

theorem view_append (t : Transaction) (e : Edit) (stage : Stage) (rows : List Dependency) :
    Transaction.view ⟨t.edits ++ [e], stage, t.seen⟩ rows = e.apply (t.view rows) := by
  rw [Transaction.view, foldl_append]
  rfl

theorem dependsOn_of_view (hdeletes : t.edits.any Edit.inserts = false) :
    DependsOn (t.view rows) a b → DependsOn rows a b := by
  rw [Transaction.view]
  revert hdeletes
  generalize t.edits = edits
  intro hdeletes
  induction edits generalizing rows with
  | nil => exact id
  | cons e edits ih =>
    rw [any_cons, Bool.or_eq_false_iff] at hdeletes
    intro hview
    have hrest := ih hdeletes.2 hview
    cases e with
    | insert row => cases hdeletes.1
    | delete key => exact (dependsOn_delete.mp hrest).1

theorem mem_dependenciesOf : b ∈ dependenciesOf rows a ↔ DependsOn rows a b := by
  rw [dependenciesOf, mem_map]
  constructor
  · rintro ⟨d, hd, rfl⟩
    rw [mem_filter, decide_eq_true_eq] at hd
    exact ⟨d, hd.1, hd.2, rfl⟩
  · rintro ⟨d, hd, hown, rfl⟩
    exact ⟨d, mem_filter.mpr ⟨hd, decide_eq_true hown⟩, rfl⟩

end

/-- What a transaction sees has no cycle, and its search has lost nothing that the
new dependency reaches. -/
structure Transaction.Sound (t : Transaction) (rows : List Dependency) : Prop where
  acyclic : Acyclic (DependsOn (t.view rows))
  search : ∀ row search, t.stage = .searching row search →
    search.Covers (DependsOn (t.view rows)) row.dependsOn ∧ row.taskId ∉ search.visited

/-- The committed table has no cycle, and every transaction that nothing was
inserted behind is sound. -/
structure System.Sound (s : System) : Prop where
  acyclic : Acyclic (DependsOn s.rows)
  seen : ∀ i, ∀ t ∈ s.active i, t.seen ≤ s.insertions
  current : ∀ i, ∀ t ∈ s.active i, t.seen = s.insertions → t.Sound s.rows

section

variable {t t' : Transaction} {rows rows' : List Dependency} {row : Dependency}

theorem Transaction.Sound.mono (h : t.Sound rows)
    (hsub : ∀ a b, DependsOn rows' a b → DependsOn rows a b) : t.Sound rows' where
  acyclic := h.acyclic.mono (dependsOn_view_mono hsub)
  search row search hstage :=
    ⟨(h.search row search hstage).1.mono (dependsOn_view_mono hsub), (h.search row search hstage).2⟩

theorem Transaction.Sound.add (h : t.Sound rows)
    (hadd : (t.addTaskDependency row).1 = some t') : t'.Sound rows := by
  unfold Transaction.addTaskDependency at hadd
  split at hadd
  · cases hadd
  · cases hadd
    refine ⟨h.acyclic, ?_⟩
    intro row' search hstage
    injection hstage with hrow hsearch
    rw [← hrow, ← hsearch]
    exact ⟨covers_start _ _, not_mem_nil⟩

theorem Transaction.Sound.remove (h : t.Sound rows) (hidle : t.stage = .idle)
    (hremove : (t.removeTaskDependency rows key).1 = some t') :
    t'.Sound rows := by
  cases hremove
  refine ⟨?_, ?_⟩
  · rw [view_append]
    exact h.acyclic.mono fun a b hedge => (dependsOn_delete.mp hedge).1
  · intro row search hstage
    rw [hidle] at hstage
    cases hstage

/-- One pass of the search: what is popped is skipped or expanded, and when nothing
is left the new dependency closes no cycle. -/
theorem Transaction.Sound.proceed (h : t.Sound rows) (hproceed : (t.proceed rows).1 = some t') :
    t'.Sound rows := by
  unfold Transaction.proceed at hproceed
  split at hproceed
  · cases hproceed
    exact h
  · rename_i row visited hstage
    obtain ⟨hcovers, htarget⟩ := h.search row _ hstage
    split at hproceed
    · cases hproceed
    · cases hproceed
      refine ⟨?_, ?_⟩
      · rw [view_append]
        have hinsert := h.acyclic.insert fun hpath => htarget (hcovers.mem_visited hpath)
        exact hinsert.mono fun a b hedge => dependsOn_insert.mp hedge
      · intro row' search hidle
        cases hidle
  · rename_i row visited current stack hstage
    obtain ⟨hcovers, htarget⟩ := h.search row _ hstage
    split at hproceed
    · cases hproceed
    · rename_i hother
      split at hproceed
      · rename_i hvisited
        cases hproceed
        refine ⟨h.acyclic, ?_⟩
        intro row' search hstage'
        injection hstage' with hrow hsearch
        rw [← hrow, ← hsearch]
        exact ⟨hcovers.skip (contains_iff_mem.mp hvisited), htarget⟩
      · cases hproceed
        refine ⟨h.acyclic, ?_⟩
        intro row' search hstage'
        injection hstage' with hrow hsearch
        rw [← hrow, ← hsearch]
        constructor
        · apply hcovers.expand
          intro w hedge
          rw [mem_reverse]
          exact mem_dependenciesOf.mpr hedge
        · rw [mem_cons, not_or]
          exact ⟨Ne.symm hother, htarget⟩

theorem seen_addTaskDependency (h : (t.addTaskDependency row).1 = some t') : t'.seen = t.seen := by
  unfold Transaction.addTaskDependency at h
  split at h
  · cases h
  · cases h
    rfl

theorem seen_proceed (h : (t.proceed rows).1 = some t') : t'.seen = t.seen := by
  unfold Transaction.proceed at h
  split at h
  · cases h
    rfl
  · split at h
    · cases h
    · cases h
      rfl
  · split at h
    · cases h
    · split at h
      · cases h
        rfl
      · cases h
        rfl

end

section

variable {s : System} {i : Nat} {t : Transaction} {x : Option Transaction}

variable (h : s.Sound)
include h

theorem System.Sound.put (hseen : ∀ t ∈ x, t.seen ≤ s.insertions)
    (hcurrent : ∀ t ∈ x, t.seen = s.insertions → t.Sound s.rows) : (s.put i x).Sound where
  acyclic := h.acyclic
  seen j t ht := by
    by_cases hij : j = i
    · rw [hij, s.put_active_self] at ht
      exact hseen t ht
    · rw [s.put_active_of_ne x hij] at ht
      exact h.seen j t ht
  current j t ht := by
    by_cases hij : j = i
    · rw [hij, s.put_active_self] at ht
      exact hcurrent t ht
    · rw [s.put_active_of_ne x hij] at ht
      exact h.current j t ht

theorem System.Sound.transaction (i : Nat) : (s.transaction i).seen ≤ s.insertions ∧
      ((s.transaction i).seen = s.insertions → (s.transaction i).Sound s.rows) := by
  rw [System.transaction]
  cases hactive : s.active i with
  | some t => exact ⟨h.seen i t hactive, h.current i t hactive⟩
  | none =>
    refine ⟨Nat.le_refl _, fun _ => ⟨h.acyclic, ?_⟩⟩
    intro row search hidle
    cases hidle

theorem System.Sound.put_next (hseen : t.seen ≤ s.insertions)
    (hcurrent : t.seen = s.insertions → t.Sound s.rows)
    (hnext : ∀ t' ∈ x, t'.seen = t.seen ∧ (t.Sound s.rows → t'.Sound s.rows)) :
    (s.put i x).Sound := by
  apply h.put
  · intro t' ht'
    rw [(hnext t' ht').1]
    exact hseen
  · intro t' ht' heq
    rw [(hnext t' ht').1] at heq
    exact (hnext t' ht').2 (hcurrent heq)

theorem System.Sound.commit (ht : s.active i = some t)
    (hserial : t.edits.any Edit.inserts = true → t.seen = s.insertions) : (s.commit i t).Sound := by
  have hactive : ∀ j, ∀ t' ∈ (s.commit i t).active j, t' ∈ s.active j := by
    intro j t' ht'
    rw [show (s.commit i t).active = (s.put i none).active from rfl] at ht'
    by_cases hij : j = i
    · rw [hij, s.put_active_self] at ht'
      cases ht'
    · rwa [s.put_active_of_ne none hij] at ht'
  cases hinserts : t.edits.any Edit.inserts with
  | true =>
    have hnext : (s.commit i t).insertions = s.insertions + 1 := by
      rw [System.commit, hinserts]
      rfl
    refine ⟨(h.current i t ht (hserial hinserts)).acyclic, ?_, ?_⟩
    · intro j t' ht'
      rw [hnext]
      exact Nat.le_succ_of_le (h.seen j t' (hactive j t' ht'))
    · intro j t' ht' heq
      have hseen := h.seen j t' (hactive j t' ht')
      omega
  | false =>
    have hnext : (s.commit i t).insertions = s.insertions := by
      rw [System.commit, hinserts]
      rfl
    have hsub : ∀ a b, DependsOn (t.view s.rows) a b → DependsOn s.rows a b :=
      fun a b => dependsOn_of_view hinserts
    refine ⟨h.acyclic.mono hsub, ?_, ?_⟩
    · intro j t' ht'
      rw [hnext]
      exact h.seen j t' (hactive j t' ht')
    · intro j t' ht' heq
      rw [hnext] at heq
      exact (h.current j t' (hactive j t' ht') heq).mono hsub

theorem System.Sound.step {e : Event} (hserial : Serialised s e) :
    (step s e).Sound := by
  cases e with
  | add i row =>
    rw [Tasks.step]
    split
    · obtain ⟨hseen, hcurrent⟩ := h.transaction i
      apply h.put_next hseen hcurrent
      intro t' ht'
      exact ⟨seen_addTaskDependency ht', fun hsound => hsound.add ht'⟩
    · exact h
  | remove i key =>
    rw [Tasks.step]
    split
    · rename_i hidle
      obtain ⟨hseen, hcurrent⟩ := h.transaction i
      apply h.put_next hseen hcurrent
      intro t' ht'
      refine ⟨?_, fun hsound => hsound.remove hidle ht'⟩
      cases ht'
      rfl
    · exact h
  | proceed i =>
    rw [Tasks.step]
    split
    · rename_i t ht
      apply h.put_next (h.seen i t ht) (h.current i t ht)
      intro t' ht'
      exact ⟨seen_proceed ht', fun hsound => hsound.proceed ht'⟩
    · exact h
  | commit i =>
    rw [Tasks.step]
    split
    · rename_i t ht
      split
      · exact h.commit ht (hserial t ht)
      · exact h
    · exact h
  | rollback i =>
    apply h.put
    · intro t ht
      cases ht
    · intro t ht
      cases ht

end

/-- However adds and removes interleave: in every state they commit, no task depends
on itself through others, as long as no transaction commits a dependency behind
which another one was committed. -/
theorem dependencies_stay_acyclic (es : List Event)
    (hserial : Meets step Serialised System.empty es) :
    ∀ a, ¬ Relation.TransGen (DependsOn (run step System.empty es).rows) a a := by
  have hempty : System.empty.Sound := by
    refine ⟨?_, ?_, ?_⟩
    · intro a hcycle
      obtain ⟨b, ⟨d, hd, -⟩, -⟩ := Relation.TransGen.head'_iff.mp hcycle
      cases hd
    · intro i t ht
      cases ht
    · intro i t ht
      cases ht
  exact (run_invariant_of_meets System.Sound (fun s e h he => h.step he) hempty hserial).acyclic

/-- A dependency is added and another one after it; the way back is refused. -/
theorem dependencies_stay_acyclic_chain :
    let es := [.add 0 ⟨"a", "b", true⟩, .proceed 0, .proceed 0, .commit 0,
      .add 1 ⟨"b", "c", true⟩, .proceed 1, .proceed 1, .commit 1,
      .add 2 ⟨"c", "a", true⟩, .proceed 2, .proceed 2, .proceed 2, .commit 2]
    (run step System.empty es).rows = [⟨"a", "b", true⟩, ⟨"b", "c", true⟩] ∧
      ∀ a, ¬ Relation.TransGen (DependsOn (run step System.empty es).rows) a a :=
  ⟨by decide, dependencies_stay_acyclic _ (by decide)⟩

/-- Two tasks are made to depend on each other by two transactions that both search
before either commits. -/
theorem concurrent_adds_close_cycle :
    ∃ es, ∃ a, Relation.TransGen (DependsOn (run step System.empty es).rows) a a := by
  refine ⟨[.add 0 ⟨"a", "b", true⟩, .add 1 ⟨"b", "a", true⟩, .proceed 0, .proceed 1, .proceed 0,
    .proceed 1, .commit 0, .commit 1], "a", ?_⟩
  have hrows : ∀ x y, (x, y) ∈ [("a", "b"), ("b", "a")] →
      DependsOn (run step System.empty [.add 0 ⟨"a", "b", true⟩, .add 1 ⟨"b", "a", true⟩,
        .proceed 0, .proceed 1, .proceed 0, .proceed 1, .commit 0, .commit 1]).rows x y := by
    intro x y hxy
    rw [dependsOn_iff_key]
    exact (show _ ∈ [("a", "b"), ("b", "a")] from hxy)
  exact .tail (.single (hrows "a" "b" (by decide))) (hrows "b" "a" (by decide))

end Cognis.Tasks
