import Cognis.SessionCache.NoSkip
import Cognis.SessionCache.Synced

namespace Cognis.SessionCache

open List Option

open Memory (MemoryAliasState)
open SortByKey LateInsert CachedSessionState

variable {entry : CachedSessionState} {e : CachedEvent}

/-- A late load that is retained supersedes nothing, else the loop of a refresh does not notice
that it has to sort. -/
def Noticed (entry : CachedSessionState) (e : CachedEvent) : Prop :=
  (∃ x ∈ entry.events, e.seq < x.seq) → retains e = true → entry.lastCompactionSeq < e.seq →
    e.legacySkillId ≠ none → ∀ x ∈ entry.events, x.legacySkillId ≠ e.legacySkillId

def OrderlyRead (entry : CachedSessionState) (e : CachedEvent) : Prop :=
  Orderly entry e ∧ Noticed entry e

/-- What a summary that the controller applies must meet: it comes after the other summaries,
brings no aliases, and no decisions are held that it cuts. -/
structure OrderlySummary (entry : CachedSessionState) (e : CachedEvent) : Prop where
  summary : entry.lastCompactionSeq ≤ e.seq
  aliases : e ∈ entry.applied ∨ e.aliasDelta = none
  decisions : ∀ f ∈ entry.applied, entry.lastCompactionSeq < f.seq → f.seq < e.seq →
    f.decisions = []

/-- The decisions that a full read finds are cut by a summary, or the ones that the log decides
first. -/
def ResetKeeps (log : List CachedEvent) (held : Decisions) : Prop :=
  (∃ e ∈ log, e.isCompaction = true) ∨ ∀ callId items, held.get? callId = some items →
    ∃ all, (log.foldl decideEvent .empty).get? callId = some all ∧ items <+: all

def heldAfter (decisions : Decisions) (e : CachedEvent) : Decisions :=
  if e.isCompaction then .empty else decideEvent decisions e

theorem Synced.congr (hs : Synced entry) {entry' : CachedSessionState}
    (happlied : entry'.applied = entry.applied) (hevents : entry'.events.Perm entry.events)
    (hsummary : entry'.lastCompactionSeq = entry.lastCompactionSeq)
    (hdecisions : Decisions.Same entry'.projectionDecisions entry.projectionDecisions)
    (haliases : entry'.memoryAliases = entry.memoryAliases) : Synced entry' where
  distinct := by
    rw [happlied]
    exact hs.distinct
  positive := by
    rw [happlied]
    exact hs.positive
  events := by
    intro x
    rw [hevents.mem_iff, happlied, hsummary]
    exact hs.events x
  nodup := ((hevents.map CachedEvent.seq).nodup_iff).mpr hs.nodup
  summary_le := by
    rw [happlied, hsummary]
    exact hs.summary_le
  summary_mem := by
    rw [happlied, hsummary]
    exact hs.summary_mem
  decisions := by
    rw [happlied, hsummary]
    exact hdecisions.trans hs.decisions
  aliases := by
    rw [happlied, haliases]
    exact hs.aliases

theorem synced_fresh (entry : CachedSessionState) (hevents : entry.events = [])
    (happlied : entry.applied = []) (hsummary : entry.lastCompactionSeq = 0)
    (hdecisions : entry.projectionDecisions = .empty) (haliases : entry.memoryAliases = {}) :
    Synced entry where
  distinct := by
    rw [happlied]
    intro e he
    cases he
  positive := by
    rw [happlied]
    intro e he
    cases he
  events := by
    intro x
    rw [hevents, happlied]
    exact iff_of_false not_mem_nil fun h => absurd h.1 not_mem_nil
  nodup := by
    rw [hevents]
    exact nodup_nil
  summary_le := by
    rw [happlied]
    intro e he
    cases he
  summary_mem := .inl hsummary
  decisions := by
    rw [happlied, hdecisions]
    exact Decisions.Same.refl _
  aliases := by
    rw [happlied, haliases]
    exact MemoryAliasState.Same.refl _

variable {log : List SessionEvent} {events batch read : List CachedEvent} {x : CachedEvent}

theorem logged_applyCachedEvent
    (hlogged : ∀ f ∈ entry.applied, f ∈ eventsAfter log 0) (he : e ∈ eventsAfter log 0) :
    ∀ f ∈ (entry.applyCachedEvent e).applied, f ∈ eventsAfter log 0 := by
  intro f hf
  rw [applyCachedEvent_eq] at hf
  rcases mem_append.mp hf with hold | hself
  · exact hlogged f hold
  · rw [mem_singleton.mp hself]
    exact he

theorem Synced.replay (hs : Synced entry) (hlogged : ∀ f ∈ entry.applied, f ∈ eventsAfter log 0)
    (hevents : ∀ f ∈ events, f ∈ eventsAfter log 0)
    (ho : Runs.Meets CachedSessionState.applyCachedEvent Orderly entry events) :
      Synced (entry.replay events) := by
  induction events generalizing entry with
  | nil => exact hs
  | cons e events ih =>
    have he := hevents e mem_cons_self
    have hdistinct : ∀ f ∈ entry.applied, f.seq = e.seq → f = e :=
      fun f hf hseq => seq_inj (hlogged f hf) he hseq
    apply ih (hs.applyCachedEvent hdistinct (CacheRun.seq_pos he) ho.1)
    · exact logged_applyCachedEvent hlogged he
    · exact fun f hf => hevents f (mem_cons_of_mem _ hf)
    · exact ho.2

theorem Synced.orderlyRead_of_last (hs : Synced entry) (hpos : 1 ≤ e.seq)
    (hlast : ∀ f ∈ entry.applied, f.seq < e.seq) : OrderlyRead entry e := by
  have hsummary : entry.lastCompactionSeq < e.seq := by
    rcases hs.summary_mem with hzero | ⟨f, hf, -, hseq⟩
    · omega
    · exact hseq ▸ hlast f hf
  have hnone : ∀ f ∈ entry.applied, ¬ e.seq < f.seq :=
    fun f hf hlater => absurd (hlast f hf) (Nat.lt_asymm hlater)
  refine ⟨⟨?_, ?_, ?_, ?_, ?_, ?_, ?_⟩, ?_⟩
  · intro hmem
    exact absurd (hlast e hmem) (Nat.lt_irrefl _)
  · exact fun _ => hsummary.le
  · exact fun _ f hf hlater => absurd hlater (hnone f hf)
  · exact fun _ hcovered => absurd hsummary (Nat.not_lt.mpr hcovered)
  · exact fun _ _ f hf hlater => absurd hlater (hnone f hf)
  · exact fun f hf hlater => absurd hlater (hnone f hf)
  · exact fun f hf hlater => absurd hlater (hnone f hf)
  · rintro ⟨x, hx, hlater⟩
    exact absurd hlater (hnone x ((hs.events x).mp hx).1)

theorem Synced.meets_ascending
    (hs : Synced entry) (hlogged : ∀ f ∈ entry.applied, f ∈ eventsAfter log 0)
    (hevents : ∀ f ∈ events, f ∈ eventsAfter log 0) (hascending : Ascending CachedEvent.seq events)
    (hlast : ∀ f ∈ entry.applied, ∀ e ∈ events, f.seq < e.seq) :
    Runs.Meets CachedSessionState.applyCachedEvent OrderlyRead entry events := by
  induction events generalizing entry with
  | nil => trivial
  | cons e events ih =>
    have he := hevents e mem_cons_self
    have hread := hs.orderlyRead_of_last (CacheRun.seq_pos he)
      fun f hf => hlast f hf e mem_cons_self
    have hdistinct : ∀ f ∈ entry.applied, f.seq = e.seq → f = e :=
      fun f hf hseq => seq_inj (hlogged f hf) he hseq
    obtain ⟨hfirst, hrest⟩ := pairwise_cons.mp hascending
    refine ⟨hread, ih (hs.applyCachedEvent hdistinct (CacheRun.seq_pos he) hread.1) ?_ ?_ hrest ?_⟩
    · exact logged_applyCachedEvent hlogged he
    · exact fun f hf => hevents f (mem_cons_of_mem _ hf)
    · intro f hf g hg
      rw [applyCachedEvent_eq] at hf
      rcases mem_append.mp hf with hold | hself
      · exact hlast f hold g (mem_cons_of_mem _ hg)
      · rw [mem_singleton.mp hself]
        exact hfirst g hg

def Sorted (entry : CachedSessionState) : Prop := Ascending CachedEvent.seq entry.events

theorem events_applyCachedEvent (entry : CachedSessionState) (e : CachedEvent) :
    (entry.applyCachedEvent e).events.Sublist entry.events ∨
      (retains e ∧ entry.lastCompactionSeq < e.seq ∧
        (entry.applyCachedEvent e).events = supersede entry.events e ++ [e]) := by
  rw [applyCachedEvent_eq]
  split_ifs with hcompaction hretained
  · exact .inl (filter_sublist.trans (supersede_sublist _ _))
  · exact .inr ⟨hretained.1, hretained.2, rfl⟩
  · exact .inl (supersede_sublist _ _)

theorem Sorted.applyCachedEvent (h : Sorted entry) (hlast : ∀ x ∈ entry.events, x.seq < e.seq) :
    Sorted (entry.applyCachedEvent e) := by
  rcases events_applyCachedEvent entry e with hsublist | ⟨-, -, happended⟩
  · exact h.sublist hsublist
  · unfold Sorted
    rw [happended]
    refine pairwise_append.mpr ⟨h.sublist (supersede_sublist _ _), pairwise_singleton _ _, ?_⟩
    intro x hx y hy
    rw [mem_singleton.mp hy]
    exact hlast x ((supersede_sublist _ _).subset hx)

theorem mem_events_applyCachedEvent
    (h : x ∈ (entry.applyCachedEvent e).events) : x ∈ entry.events ∨ x = e := by
  rcases events_applyCachedEvent entry e with hsublist | ⟨-, -, happended⟩
  · exact .inl (hsublist.subset h)
  · rw [happended] at h
    rcases mem_append.mp h with hold | hself
    · exact .inl ((supersede_sublist _ _).subset hold)
    · exact .inr (mem_singleton.mp hself)

theorem Sorted.replay (h : Sorted entry) (hascending : Ascending CachedEvent.seq events)
    (hlast : ∀ x ∈ entry.events, ∀ e ∈ events, x.seq < e.seq) : Sorted (entry.replay events) := by
  induction events generalizing entry with
  | nil => exact h
  | cons e events ih =>
    obtain ⟨hfirst, hrest⟩ := pairwise_cons.mp hascending
    apply ih (h.applyCachedEvent fun x hx => hlast x hx e mem_cons_self) hrest
    intro x hx f hf
    rcases mem_events_applyCachedEvent hx with hold | rfl
    · exact hlast x hold f (mem_cons_of_mem _ hf)
    · exact hfirst f hf

theorem Sorted.le_tailSeq (h : Sorted entry) (hx : x ∈ entry.events) :
    x.seq ≤ entry.tailSeq := by
  unfold tailSeq
  unfold Sorted at h
  rcases eq_nil_or_concat entry.events with hnil | ⟨front, last, hconcat⟩
  · rw [hnil] at hx
    cases hx
  · rw [concat_eq_append] at hconcat
    rw [hconcat] at h hx ⊢
    rw [getLast?_concat, map_some, getD_some]
    rw [mem_append] at hx
    rcases hx with hfront | hlast
    · have hbefore := (pairwise_append.mp h).2.2 x hfront last (mem_singleton.mpr rfl)
      exact hbefore.le
    · rw [mem_singleton.mp hlast]

theorem sorted_sortEvents (h : (entry.events.map CachedEvent.seq).Nodup) :
    Sorted entry.sortEvents :=
  ascending_sortBy h

theorem events_appendRecordedEvents
    (hascending : Ascending CachedEvent.seq batch) (firstSeq lastSeq : Nat) :
    (entry.appendRecordedEvents batch firstSeq lastSeq).events =
      if ((entry.recordedEvents batch).head?.any fun e => decide (e.seq < entry.tailSeq))
      then (entry.replay (entry.recordedEvents batch)).sortEvents.events
      else (entry.replay (entry.recordedEvents batch)).events := by
  unfold appendRecordedEvents
  dsimp only
  rw [appendNew_eq (nodup_seqs hascending)]
  split
  · rfl
  · rfl

theorem Sorted.appendRecordedEvents (h : Sorted entry)
    (hascending : Ascending CachedEvent.seq batch)
    (hnew : ∀ e ∈ entry.recordedEvents batch, ∀ x ∈ entry.events, x.seq ≠ e.seq)
    (hafter : Synced (entry.replay (entry.recordedEvents batch))) (firstSeq lastSeq : Nat) :
    Sorted (entry.appendRecordedEvents batch firstSeq lastSeq) := by
  unfold Sorted
  rw [events_appendRecordedEvents hascending]
  have hrecorded : Ascending CachedEvent.seq (entry.recordedEvents batch) :=
    hascending.sublist filter_sublist
  split_ifs with houtOfOrder
  · exact sorted_sortEvents hafter.nodup
  · apply h.replay hrecorded
    intro x hx e he
    have htail := h.le_tailSeq hx
    have hne := hnew e he x hx
    have hfirst : entry.tailSeq ≤ e.seq := by
      cases hlist : entry.recordedEvents batch with
      | nil =>
        rw [hlist] at he
        cases he
      | cons =>
        rw [hlist] at houtOfOrder hrecorded he
        simp only [head?_cons, any_some, decide_eq_true_eq, Nat.not_lt] at houtOfOrder
        rcases mem_cons.mp he with rfl | hrest
        · exact houtOfOrder
        · have hbefore := (pairwise_cons.mp hrecorded).1 e hrest
          omega
    omega

theorem meets_withLast (n : Nat)
    (h : Runs.Meets CachedSessionState.applyCachedEvent OrderlyRead entry events) :
    Runs.Meets CachedSessionState.applyCachedEvent OrderlyRead
      { entry with lastEventSeq := n } events := by
  induction events generalizing entry n with
  | nil => trivial
  | cons e events ih =>
    obtain ⟨⟨ho, hnoticed⟩, hrest⟩ := h
    have hstep : CachedSessionState.applyCachedEvent { entry with lastEventSeq := n } e =
        { entry.applyCachedEvent e with lastEventSeq := max n e.seq } := by
      rw [applyCachedEvent_eq, applyCachedEvent_eq]
    refine ⟨⟨⟨ho.repeated, ho.summary, ho.summaryDecisions, ho.summarised, ho.decisions,
      ho.aliases, ho.loads⟩, hnoticed⟩, ?_⟩
    rw [hstep]
    exact ih _ hrest

theorem Synced.isCompaction_of_mem (hs : Synced entry) (hx : x ∈ entry.events) :
    x.isCompaction = false := by
  obtain ⟨-, hretained, -⟩ := (hs.events x).mp hx
  by_contra hcompaction
  rw [Bool.not_eq_false] at hcompaction
  rw [retains_of_compaction hcompaction] at hretained
  cases hretained

theorem Synced.ne_of_orderly (hs : Synced entry)
    (hdistinct : ∀ f ∈ entry.applied, f.seq = e.seq → f = e) (ho : Orderly entry e) :
    ∀ x ∈ entry.events, x.seq ≠ e.seq := by
  intro x hx hseq
  have happlied := ((hs.events x).mp hx).1
  have hplain := hs.isCompaction_of_mem hx
  have hsame := hdistinct x happlied hseq
  rw [hsame] at happlied hplain
  rw [(ho.repeated happlied).1] at hplain
  cases hplain

theorem isCompaction_of_meets
    (ho : Runs.Meets CachedSessionState.applyCachedEvent Orderly entry events)
    (he : e ∈ events) (happlied : e ∈ entry.applied) : e.isCompaction := by
  induction events generalizing entry with
  | nil => cases he
  | cons first events ih =>
    rcases mem_cons.mp he with rfl | hrest
    · exact (ho.1.repeated happlied).1
    · apply ih ho.2 hrest
      rw [applyCachedEvent_eq]
      exact mem_append_left _ happlied

theorem Noticed.supersede_eq (h : Noticed entry e) (hlate : ∃ x ∈ entry.events, e.seq < x.seq)
    (hretained : retains e) (hafter : entry.lastCompactionSeq < e.seq) :
    supersede entry.events e = entry.events := by
  unfold supersede
  cases hskill : e.legacySkillId with
  | none => rfl
  | some skillId =>
    have hloads : e.legacySkillId ≠ none := by simp [hskill]
    have hnone : entry.events.filter (fun existing => existing.legacySkillId == some skillId) =
        [] := by
      rw [filter_eq_nil_iff]
      intro x hx
      have hother := h hlate hretained hafter hloads x hx
      rw [hskill] at hother
      simpa using hother
    dsimp only
    rw [hnone, filter_eq_self]
    intro x _
    rfl

theorem Sorted.applyIntarisEvent {flag : Bool} (h : flag ∨ Sorted entry)
    (hnoticed : Noticed entry e) (hnew : ∀ x ∈ entry.events, x.seq ≠ e.seq)
    (hfresh : ¬ entry.eventSeqs.contains e.seq) :
    (CachedSessionState.applyIntarisEvent (entry, flag) e).2 ∨
      Sorted (entry.applyCachedEvent e) := by
  have hflag : (CachedSessionState.applyIntarisEvent (entry, flag) e).2 =
      (flag || (decide (entry.events.length < (entry.applyCachedEvent e).events.length) &&
        decide (e.seq < entry.tailSeq))) := by
    unfold CachedSessionState.applyIntarisEvent
    dsimp only
    rw [if_neg hfresh]
  rcases h with hset | h
  · left
    rw [hflag, hset, Bool.true_or]
  rcases events_applyCachedEvent entry e with hsublist | ⟨hretained, hafter, happended⟩
  · exact .inr (h.sublist hsublist)
  · by_cases hlate : ∃ x ∈ entry.events, e.seq < x.seq
    · left
      have hkept := hnoticed.supersede_eq hlate hretained hafter
      obtain ⟨x, hx, hlater⟩ := hlate
      have htail := h.le_tailSeq hx
      have hgrown : entry.events.length < (entry.applyCachedEvent e).events.length := by
        rw [happended, hkept, length_append, length_singleton]
        omega
      have hbefore : e.seq < entry.tailSeq := by omega
      rw [hflag, decide_eq_true hgrown, decide_eq_true hbefore, Bool.and_true, Bool.or_true]
    · right
      apply h.applyCachedEvent
      intro x hx
      have hne := hnew x hx
      have hnot : ¬ e.seq < x.seq := fun hlater => hlate ⟨x, hx, hlater⟩
      omega

theorem Sorted.foldl_applyIntarisEvent
    {flag : Bool} (hs : Synced entry) (h : flag ∨ Sorted entry)
    (hlogged : ∀ f ∈ entry.applied, f ∈ eventsAfter log 0)
    (hread : ∀ f ∈ read, f ∈ eventsAfter log 0) (hnodup : (read.map CachedEvent.seq).Nodup)
    (ho : Runs.Meets CachedSessionState.applyCachedEvent OrderlyRead entry
      (entry.recordedEvents read)) :
    (read.foldl CachedSessionState.applyIntarisEvent (entry, flag)).2 ∨
      Sorted (read.foldl CachedSessionState.applyIntarisEvent (entry, flag)).1 := by
  induction read generalizing entry flag with
  | nil => exact h
  | cons e read ih =>
    rw [map_cons, nodup_cons] at hnodup
    have he := hread e mem_cons_self
    have hrest : ∀ f ∈ read, f ∈ eventsAfter log 0 :=
      fun f hf => hread f (mem_cons_of_mem _ hf)
    rw [foldl_cons]
    by_cases hknown : entry.eventSeqs.contains e.seq
    · rw [applyIntarisEvent_known hknown]
      have hrecorded : entry.recordedEvents (e :: read) = entry.recordedEvents read :=
        filter_cons_of_neg (by simpa using hknown)
      rw [hrecorded] at ho
      have hadvanced : Synced (entry.advance e) :=
        hs.congr rfl (Perm.refl _) rfl (Decisions.Same.refl _) rfl
      exact ih hadvanced h hlogged hrest hnodup.2 (meets_withLast _ ho)
    · have hrecorded : entry.recordedEvents (e :: read) = e :: entry.recordedEvents read :=
        filter_cons_of_pos (by simpa using hknown)
      rw [hrecorded] at ho
      have hdistinct : ∀ f ∈ entry.applied, f.seq = e.seq → f = e :=
        fun f hf hseq => seq_inj (hlogged f hf) he hseq
      have hafter := hs.applyCachedEvent hdistinct (CacheRun.seq_pos he) ho.1.1
      have hsame : (entry.applyCachedEvent e).recordedEvents read = entry.recordedEvents read :=
        recordedEvents_applyCachedEvent hnodup.1
      have hnext : (CachedSessionState.applyIntarisEvent (entry, flag) e).1 =
          entry.applyCachedEvent e := applyIntarisEvent_new hknown
      rw [← Prod.mk.eta (p := CachedSessionState.applyIntarisEvent (entry, flag) e), hnext]
      apply ih hafter ?_ (logged_applyCachedEvent hlogged he) hrest hnodup.2
      · rw [hsame]
        exact ho.2
      · exact Sorted.applyIntarisEvent h ho.1.2 (hs.ne_of_orderly hdistinct ho.1.1) hknown

theorem OrderlyRead.orderly_of_meets
    (h : Runs.Meets CachedSessionState.applyCachedEvent OrderlyRead entry events) :
    Runs.Meets CachedSessionState.applyCachedEvent Orderly entry events :=
  h.mono fun _ _ hread => hread.1

theorem Synced.of_loop (hascending : Ascending CachedEvent.seq read)
    (hreplayed : Synced (entry.replay (entry.recordedEvents read)))
    (hsorted : (read.foldl CachedSessionState.applyIntarisEvent (entry, false)).2 ∨
      Sorted (read.foldl CachedSessionState.applyIntarisEvent (entry, false)).1) :
    Synced (entry.applyIntarisEvents read) ∧ Sorted (entry.applyIntarisEvents read) := by
  have hloop : (read.foldl CachedSessionState.applyIntarisEvent (entry, false)).1 = _ :=
    applyIntarisEvents_loop (nodup_seqs hascending)
  unfold CachedSessionState.applyIntarisEvents
  dsimp only
  rw [sortBy_eq_self hascending]
  split_ifs with hflag
  · rw [hloop]
    refine ⟨hreplayed.congr rfl (sortBy_perm _ _) rfl (Decisions.Same.refl _) rfl, ?_⟩
    exact sorted_sortEvents hreplayed.nodup
  · rw [hloop] at hsorted ⊢
    refine ⟨hreplayed.congr rfl (Perm.refl _) rfl (Decisions.Same.refl _) rfl, ?_⟩
    exact hsorted.resolve_left hflag

theorem Synced.applyIntarisEvents
    (hs : Synced entry) (h : Sorted entry) (hlogged : ∀ f ∈ entry.applied, f ∈ eventsAfter log 0)
    (hread : ∀ f ∈ read, f ∈ eventsAfter log 0) (hascending : Ascending CachedEvent.seq read)
    (ho : Runs.Meets CachedSessionState.applyCachedEvent OrderlyRead entry
      (entry.recordedEvents read)) :
    Synced (entry.applyIntarisEvents read) ∧ Sorted (entry.applyIntarisEvents read) := by
  have hreplayed : Synced (entry.replay (entry.recordedEvents read)) :=
    hs.replay hlogged (fun f hf => hread f (CacheRun.mem_recordedEvents hf))
      (OrderlyRead.orderly_of_meets ho)
  have hstart : false ∨ Sorted entry := .inr h
  exact Synced.of_loop hascending hreplayed
    (Sorted.foldl_applyIntarisEvent hs hstart hlogged hread (nodup_seqs hascending) ho)

theorem Synced.appendRecordedEvents
    (hs : Synced entry) (h : Sorted entry) (hlogged : ∀ f ∈ entry.applied, f ∈ eventsAfter log 0)
    (hbatch : ∀ f ∈ batch, f ∈ eventsAfter log 0) (hascending : Ascending CachedEvent.seq batch)
    (ho : Runs.Meets CachedSessionState.applyCachedEvent Orderly entry
      (entry.recordedEvents batch)) (firstSeq lastSeq : Nat) :
    Synced (entry.appendRecordedEvents batch firstSeq lastSeq) ∧
      Sorted (entry.appendRecordedEvents batch firstSeq lastSeq) := by
  have hrecorded : ∀ f ∈ entry.recordedEvents batch, f ∈ eventsAfter log 0 :=
    fun f hf => hbatch f (CacheRun.mem_recordedEvents hf)
  have hreplayed : Synced (entry.replay (entry.recordedEvents batch)) :=
    hs.replay hlogged hrecorded ho
  constructor
  · have hnew : entry.appendNew batch = _ := appendNew_eq (nodup_seqs hascending)
    unfold CachedSessionState.appendRecordedEvents
    dsimp only
    rw [hnew]
    split
    · exact hreplayed.congr rfl (sortBy_perm _ _) rfl (Decisions.Same.refl _) rfl
    · exact hreplayed.congr rfl (Perm.refl _) rfl (Decisions.Same.refl _) rfl
  · apply h.appendRecordedEvents hascending ?_ hreplayed
    intro e he x hx hseq
    have happlied := ((hs.events x).mp hx).1
    have hplain := hs.isCompaction_of_mem hx
    have hsame := seq_inj (hlogged x happlied) (hrecorded e he) hseq
    rw [hsame] at happlied hplain
    rw [isCompaction_of_meets ho he happlied] at hplain
    cases hplain

end Cognis.SessionCache
