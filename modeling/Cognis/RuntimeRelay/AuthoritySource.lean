import Cognis.Library.Runs
import Cognis.RuntimeRelay.Queue

namespace Cognis.RuntimeRelay

open List Runs

/-- The key of a generation, but for the epoch, which is the source's. -/
structure SourceKey where
  conversationId : String
  sessionId : String
  turnId : String
  directRequestId : String
  ownerControllerId : String
  ownerIncarnationId : String
  fencingToken : Int
  deriving DecidableEq

/-- `retiredRevisionFloor` is the highest counter of a generation that is no longer retained. -/
structure RuntimeAuthoritySource where
  maxEntries : Nat
  revisions : List (SourceKey × Nat) := []
  retiredRevisionFloor : Nat := 0
  deriving DecidableEq

def retire (floor : Nat) (entries : List (SourceKey × Nat)) : Nat :=
  entries.foldl (fun floor entry => max floor entry.2) floor

namespace RuntimeAuthoritySource

variable (s : RuntimeAuthoritySource) (key : SourceKey)

/-- What `revisions.pop` returns. -/
def current : Nat := ((s.revisions.find? (·.1 == key)).map (·.2)).getD s.retiredRevisionFloor

def others : List (SourceKey × Nat) := s.revisions.filter (·.1 ≠ key)

/-- The revision, or none where it raises; `popitem` takes the entries that are too many from
the front. -/
def nextRevision : Option Nat × RuntimeAuthoritySource :=
  if maxRedisSafeInteger ≤ s.current key then
    (none, { s with revisions := s.others key ++ [(key, s.current key)] })
  else
    let entries := s.others key ++ [(key, s.current key + 1)]
    let surplus := entries.length - s.maxEntries
    (some (s.current key + 1),
      { s with
        revisions := entries.drop surplus
        retiredRevisionFloor := retire s.retiredRevisionFloor (entries.take surplus) })

def invalidate (conversationId : String) : RuntimeAuthoritySource :=
  { s with
    revisions := s.revisions.filter (·.1.conversationId ≠ conversationId)
    retiredRevisionFloor := retire s.retiredRevisionFloor
      (s.revisions.filter (·.1.conversationId = conversationId)) }

end RuntimeAuthoritySource

open RuntimeAuthoritySource

inductive SourceCall where
  | nextRevision (key : SourceKey)
  | invalidate (conversationId : String)

def call (s : RuntimeAuthoritySource) : SourceCall → RuntimeAuthoritySource
  | .nextRevision key => (s.nextRevision key).2
  | .invalidate conversationId => s.invalidate conversationId

/-- The revisions that the calls return, with their generations. -/
def issued : RuntimeAuthoritySource → List SourceCall → List (SourceKey × Nat)
  | _, [] => []
  | s, .nextRevision key :: calls =>
    ((s.nextRevision key).1.map (key, ·)).toList ++ issued (s.nextRevision key).2 calls
  | s, .invalidate conversationId :: calls => issued (s.invalidate conversationId) calls

/-- A call that raises finds its generation retained, or fewer than may be. -/
def HasRoom (s : RuntimeAuthoritySource) : SourceCall → Prop
  | .nextRevision key =>
    maxRedisSafeInteger ≤ s.current key → (s.others key).length < s.maxEntries
  | .invalidate _ => True

variable {entries kept : List (SourceKey × Nat)} {key other : SourceKey}
  {floor floor' revision value : Nat} {s : RuntimeAuthoritySource} {calls : List SourceCall}

/-- The counter of the generation is no lower than the revision. -/
def Covers (entries : List (SourceKey × Nat)) (floor : Nat) (key : SourceKey)
    (revision : Nat) : Prop :=
  (∀ e ∈ entries, e.1 = key → revision ≤ e.2) ∧ ((∀ e ∈ entries, e.1 ≠ key) → revision ≤ floor)

theorem nextRevision_raises (h : maxRedisSafeInteger ≤ s.current key) :
    s.nextRevision key = (none, { s with revisions := s.others key ++ [(key, s.current key)] }) :=
  if_pos h

theorem nextRevision_issues (h : s.current key < maxRedisSafeInteger) :
    (s.nextRevision key).1 = some (s.current key + 1) ∧
      ∃ n, (s.nextRevision key).2.revisions = (s.others key ++ [(key, s.current key + 1)]).drop n ∧
        (s.nextRevision key).2.retiredRevisionFloor = retire s.retiredRevisionFloor
          ((s.others key ++ [(key, s.current key + 1)]).take n) := by
  unfold nextRevision
  rw [if_neg (not_le.mpr h)]
  exact ⟨rfl, _, rfl, rfl⟩

theorem le_retire : floor ≤ retire floor entries ∧ ∀ e ∈ entries, e.2 ≤ retire floor entries := by
  induction entries generalizing floor with
  | nil => exact ⟨le_rfl, by simp⟩
  | cons e entries ih =>
    obtain ⟨hfloor, hentries⟩ := @ih (max floor e.2)
    refine ⟨(le_max_left _ _).trans hfloor, ?_⟩
    intro e' he'
    rcases mem_cons.mp he' with rfl | he'
    · exact (le_max_right _ _).trans hfloor
    · exact hentries e' he'

/-- Entries that the floor makes up for may be given up. -/
theorem Covers.discard (h : Covers entries floor key revision) (hsub : kept ⊆ entries)
    (hfloor : floor ≤ floor') (hgone : ∀ e ∈ entries, e ∈ kept ∨ e.2 ≤ floor') :
    Covers kept floor' key revision := by
  refine ⟨fun e he hkey => h.1 e (hsub he) hkey, ?_⟩
  intro hnone
  by_cases hsome : ∃ e ∈ entries, e.1 = key
  · obtain ⟨e, he, hkey⟩ := hsome
    rcases hgone e he with hkept | hle
    · exact absurd hkey (hnone e hkept)
    · exact (h.1 e he hkey).trans hle
  · push Not at hsome
    exact (h.2 hsome).trans hfloor

theorem Covers.put (h : Covers s.revisions floor key revision)
    (hvalue : key = other → revision ≤ value) :
    Covers (s.others other ++ [(other, value)]) floor key revision := by
  constructor
  · intro e he hkey
    rcases mem_append.mp he with he | he
    · exact h.1 e (mem_filter.mp he).1 hkey
    · obtain rfl := mem_singleton.mp he
      exact hvalue hkey.symm
  · intro hnone
    apply h.2
    intro e he hkey
    have hother : e.1 ≠ other := by
      rintro rfl
      exact hnone (e.1, value) (by simp) hkey
    exact hnone e (mem_append_left _ (mem_filter.mpr ⟨he, by simpa using hother⟩)) hkey

theorem Covers.le_current (h : Covers s.revisions s.retiredRevisionFloor key revision) :
    revision ≤ s.current key := by
  unfold current
  cases hfind : s.revisions.find? (·.1 == key) with
  | none =>
    apply h.2
    intro e he
    simpa using find?_eq_none.mp hfind e he
  | some e => exact h.1 e (mem_of_find?_eq_some hfind) (by simpa using find?_some hfind)

theorem covers_issued (h : s.current key < maxRedisSafeInteger)
    (hcovers : Covers (s.others key ++ [(key, s.current key + 1)]) s.retiredRevisionFloor other
      revision) :
    Covers (s.nextRevision key).2.revisions (s.nextRevision key).2.retiredRevisionFloor other
      revision := by
  obtain ⟨-, n, hrevisions, hfloor⟩ := nextRevision_issues h
  rw [hrevisions, hfloor]
  refine hcovers.discard (drop_subset _ _) le_retire.1 ?_
  intro e he
  rw [← take_append_drop n (s.others key ++ _), mem_append] at he
  exact he.symm.imp_right (le_retire.2 e)

section

variable (h : Covers s.revisions s.retiredRevisionFloor key revision)
include h

theorem Covers.call (c : SourceCall) :
    Covers (call s c).revisions (call s c).retiredRevisionFloor key revision := by
  cases c with
  | nextRevision other =>
    change Covers (s.nextRevision other).2.revisions (s.nextRevision other).2.retiredRevisionFloor
      key revision
    by_cases hraises : maxRedisSafeInteger ≤ s.current other
    · rw [nextRevision_raises hraises]
      exact h.put fun hsame => hsame ▸ h.le_current
    · refine covers_issued (not_le.mp hraises) (h.put ?_)
      rintro rfl
      exact h.le_current.trans (Nat.le_succ _)
  | invalidate conversationId =>
    refine h.discard (filter_subset_self _) le_retire.1 ?_
    intro e he
    by_cases hsame : e.1.conversationId = conversationId
    · exact .inr (le_retire.2 e (mem_filter.mpr ⟨he, by simpa using hsame⟩))
    · exact .inl (mem_filter.mpr ⟨he, by simpa using hsame⟩)

theorem lt_of_mem_issued :
    ∀ e ∈ issued s calls, e.1 = key → revision < e.2 := by
  induction calls generalizing s with
  | nil => simp [issued]
  | cons c calls ih =>
    have hrest := ih (h.call c)
    cases c with
    | invalidate => exact hrest
    | nextRevision other =>
      intro e he hkey
      rcases mem_append.mp he with he | he
      · by_cases hraises : maxRedisSafeInteger ≤ s.current other
        · simp [nextRevision_raises hraises] at he
        · obtain rfl : e = (other, s.current other + 1) := by
            simpa [(nextRevision_issues (not_le.mp hraises)).1] using he
          cases hkey
          exact Nat.lt_succ_of_le h.le_current
      · exact hrest e he hkey

end

theorem issued_sound : (issued s calls).Pairwise (fun a b => a.1 = b.1 → a.2 < b.2) ∧
    ∀ e ∈ issued s calls, 1 ≤ e.2 ∧ e.2 ≤ maxRedisSafeInteger := by
  induction calls generalizing s with
  | nil => simp [issued]
  | cons c calls ih =>
    cases c with
    | invalidate => exact ih
    | nextRevision key =>
      obtain ⟨hpairwise, hrange⟩ := ih (s := (s.nextRevision key).2)
      by_cases hraises : maxRedisSafeInteger ≤ s.current key
      · unfold issued
        rw [nextRevision_raises hraises]
        exact ih
      · unfold issued
        rw [(nextRevision_issues (not_le.mp hraises)).1]
        have hcovers : Covers (s.nextRevision key).2.revisions _ key (s.current key + 1) :=
          covers_issued (not_le.mp hraises) ⟨?_, ?_⟩
        · refine ⟨pairwise_cons.mpr ⟨?_, hpairwise⟩, ?_⟩
          · intro e he hkey
            exact lt_of_mem_issued hcovers e he hkey.symm
          · refine forall_mem_cons.mpr ⟨⟨Nat.le_add_left _ _, not_le.mp hraises⟩, hrange⟩
        · intro e he hkey
          rcases mem_append.mp he with he | he
          · have hne := (mem_filter.mp he).2
            simp [hkey] at hne
          · rw [mem_singleton.mp he]
        · intro hnone
          exact absurd rfl (hnone (key, s.current key + 1) (by simp))

/-- The revisions of a generation grow strictly whatever is evicted or invalidated between them,
and at most `maxEntries` generations are retained as long as no call raises for one that is not
retained while the map is full. -/
theorem revisions_never_go_back (maxEntries : Nat) (calls : List SourceCall) :
    (issued { maxEntries } calls).Pairwise (fun a b => a.1 = b.1 → a.2 < b.2) ∧
    (∀ e ∈ issued { maxEntries } calls, 1 ≤ e.2 ∧ e.2 ≤ maxRedisSafeInteger) ∧
    ((∀ pre, pre <+: calls → (run call { maxEntries } pre).revisions.length ≤
        (run call { maxEntries } pre).maxEntries) ↔ Meets call HasRoom { maxEntries } calls) := by
  refine ⟨issued_sound.1, issued_sound.2, ?_⟩
  refine forall_prefix_iff_meets
    (fun s : RuntimeAuthoritySource => s.revisions.length ≤ s.maxEntries) ?_ (Nat.zero_le _) calls
  intro s c hfits
  cases c with
  | nextRevision key =>
    change (s.nextRevision key).2.revisions.length ≤ (s.nextRevision key).2.maxEntries ↔ _
    unfold HasRoom nextRevision
    split_ifs with hraises
    · simp only [length_append, length_singleton, hraises, true_imp_iff]
      exact Nat.succ_le_iff
    · simp only [length_drop, hraises, false_imp_iff, iff_true]
      omega
  | invalidate =>
    exact iff_of_true ((length_filter_le _ _).trans hfits) trivial

theorem run_same_generation (key : SourceKey) {n : Nat} (hn : n < maxRedisSafeInteger) :
    run call { maxEntries := 1 } (replicate (n + 1) (.nextRevision key)) =
      { maxEntries := 1, revisions := [(key, n + 1)] } := by
  have hstep (s : RuntimeAuthoritySource) (h : s.current key < maxRedisSafeInteger)
      (hothers : s.others key = []) (hmax : s.maxEntries = 1) : call s (.nextRevision key) =
        { s with revisions := [(key, s.current key + 1)] } := by
    change (s.nextRevision key).2 = _
    unfold nextRevision
    rw [if_neg (not_le.mpr h), hothers, hmax]
    rfl
  induction n with
  | zero => exact hstep _ (show 0 < maxRedisSafeInteger by decide) rfl rfl
  | succ n ih =>
    rw [replicate_succ', run_append, ih (by omega), run_cons, run_nil, hstep]
    all_goals simp [current, others, hn]

def firstTurn : SourceKey := ⟨"c", "s", "t1", "r1", "o", "i", 1⟩

def secondTurn : SourceKey := ⟨"c", "s", "t2", "r2", "o", "i", 2⟩

/-- The first generation has used up the revisions and is evicted. Its next call raises and puts an
entry back beside the other generation's, though one is the maximum. -/
theorem raising_call_retains_two : ¬ ∀ pre, pre <+: replicate maxRedisSafeInteger
      (.nextRevision firstTurn) ++ [.nextRevision secondTurn, .nextRevision firstTurn] →
    (run call { maxEntries := 1 } pre).revisions.length ≤
      (run call { maxEntries := 1 } pre).maxEntries := by
  intro h
  have hlast := h _ (prefix_refl _)
  have hrun := run_same_generation firstTurn (n := maxRedisSafeInteger - 1) (by decide)
  rw [show maxRedisSafeInteger - 1 + 1 = maxRedisSafeInteger from rfl] at hrun
  rw [run_append, hrun] at hlast
  exact absurd hlast (by decide)

end Cognis.RuntimeRelay
