import Cognis.SessionCache.Applied

namespace Cognis.SessionCache

open CachedSessionState List SortByKey

variable {log : List SessionEvent} {e : CachedEvent} {entry : CachedSessionState}

namespace CacheRun

def Covered (log : List SessionEvent) (entry : CachedSessionState) : Prop :=
  ∀ e ∈ eventsAfter log 0, entry.lastCompactionSeq < e.seq → e.seq ≤ entry.lastEventSeq →
    e ∈ entry.applied

def NeverSkips (s : CacheRun) : Prop :=
  s.entry.initialized = true → s.entry.canonicalStale = false → Covered s.log s.entry

def summaryAfter (s : CacheRun) (firstSeq count : Nat) : Nat :=
  compactionAfter s.entry.lastCompactionSeq (s.entry.recordedEvents (s.batch firstSeq count))

/-- The condition on a batch that is appended. -/
structure BatchFollows (s : CacheRun) (firstSeq count : Nat) : Prop where
  /-- An entry that was loaded empty learns the first event, or a summary of what it skips. -/
  first : s.entry.initialized = true → s.entry.lastEventSeq = 0 →
    firstSeq ≤ 1 ∨ ∃ e ∈ s.batch firstSeq count, e.isCompaction = true
  /-- The batch with the first event does not open an entry that misses later ones. -/
  opens : s.entry.initialized = false → firstSeq ≤ 1 → ∀ e ∈ eventsAfter s.log 0,
    count < e.seq → s.summaryAfter firstSeq count < e.seq → e.seq ≤ s.entry.lastEventSeq →
      e ∈ s.entry.applied
  /-- A late summary does not replace a later one that covered missing events. -/
  summary : s.entry.initialized = true → 0 < s.entry.lastEventSeq →
    firstSeq ≤ s.entry.lastEventSeq + 1 → ∀ e ∈ eventsAfter s.log 0,
      s.summaryAfter firstSeq count < e.seq → e.seq ≤ s.entry.lastCompactionSeq →
        e.seq ≤ s.entry.lastEventSeq → e ∈ s.entry.applied ∨ e ∈ s.batch firstSeq count

/-- The condition on a step. -/
def Follows (s : CacheRun) : CacheEvent → Prop
  | .appendRecorded firstSeq count =>
    s.entry.canonicalStale = false → 1 ≤ firstSeq → 1 ≤ count →
      firstSeq + count ≤ s.log.length + 1 → s.BatchFollows firstSeq count
  | .applyCompaction seq =>
    s.entry.initialized = true → s.entry.canonicalStale = false →
      (∃ e ∈ eventsAfter s.log 0, e.seq = seq ∧ e.isCompaction = true) →
        ∀ e ∈ eventsAfter s.log 0, seq < e.seq → e.seq ≤ s.entry.lastCompactionSeq →
          e.seq ≤ s.entry.lastEventSeq → e ∈ s.entry.applied
  | _ => True

/-- What is known was applied, and what was applied is in the log. -/
structure Sound (s : CacheRun) : Prop where
  empty : s.entry.lastEventSeq = 0 → s.entry.applied = [] ∧ s.entry.lastCompactionSeq = 0
  known : s.entry.canonicalStale = false →
    ∀ seq ∈ s.entry.eventSeqs, ∃ e ∈ s.entry.applied, e.seq = seq
  logged : ∀ e ∈ s.entry.applied, e ∈ eventsAfter s.log 0
  bounded : s.entry.lastEventSeq ≤ s.log.length

variable {s : CacheRun}

theorem seq_pos (h : e ∈ eventsAfter log 0) :
    1 ≤ e.seq := (mem_eventsAfter.mp h).2.1

theorem seq_le_length {n : Nat} (h : e ∈ eventsAfter log n) : e.seq ≤ log.length := by
  obtain ⟨-, hpos, hget⟩ := mem_eventsAfter.mp h
  obtain ⟨hlt, -⟩ := List.getElem?_eq_some_iff.mp hget
  omega

theorem exists_logged {seq : Nat} (hpos : 1 ≤ seq)
    (hle : seq ≤ log.length) : ∃ e ∈ eventsAfter log 0, e.seq = seq := by
  have hlt : seq - 1 < log.length := by omega
  refine ⟨⟨seq, (log[seq - 1]).type, (log[seq - 1]).data⟩, ?_, rfl⟩
  rw [mem_eventsAfter]
  exact ⟨hpos, hpos, getElem?_eq_getElem hlt⟩

theorem eventsAfter_append (log : List SessionEvent) (recorded : SessionEvent) (n : Nat) :
    eventsAfter (log ++ [recorded]) n = eventsAfter log n ++
        if n < log.length + 1 then [⟨log.length + 1, recorded.type, recorded.data⟩] else [] := by
  unfold eventsAfter
  rw [zipIdx_append, filterMap_append, zipIdx_singleton]
  have hlast : 1 + log.length = log.length + 1 := Nat.add_comm _ _
  rw [hlast]
  split_ifs with hafter
  · rw [filterMap_cons_some (b := ⟨log.length + 1, recorded.type, recorded.data⟩)
      (by rw [if_pos hafter]), filterMap_nil]
  · rw [filterMap_cons_none (by rw [if_neg hafter]), filterMap_nil]

theorem mem_batch {firstSeq count : Nat} (hfirst : 1 ≤ firstSeq) : e ∈ s.batch firstSeq count ↔
      e ∈ eventsAfter s.log 0 ∧ firstSeq ≤ e.seq ∧ e.seq < firstSeq + count := by
  unfold batch
  rw [mem_filter, mem_eventsAfter_zero, decide_eq_true_iff]
  constructor
  · rintro ⟨⟨hafter, hlogged⟩, hbefore⟩
    exact ⟨hlogged, by omega, hbefore⟩
  · rintro ⟨hlogged, hafter, hbefore⟩
    exact ⟨⟨by omega, hlogged⟩, hbefore⟩

theorem ascending_batch (s : CacheRun) (firstSeq count : Nat) :
    Ascending CachedEvent.seq (s.batch firstSeq count) :=
  (ascending_eventsAfter s.log (firstSeq - 1)).sublist filter_sublist

theorem highest_le {n bound : Nat} {events : List CachedEvent} (hn : n ≤ bound)
    (h : ∀ e ∈ events, e.seq ≤ bound) : highest n events ≤ bound := by
  rcases highest_cases n events with hsame | ⟨e, he, hlast⟩
  · rw [hsame]
    exact hn
  · rw [hlast]
    exact h e he

theorem Sound.applied_of_known (hs : s.Sound) (hstale : s.entry.canonicalStale = false)
    (he : e ∈ eventsAfter s.log 0) (hknown : e.seq ∈ s.entry.eventSeqs) :
    e ∈ s.entry.applied := by
  obtain ⟨e', he', hseq⟩ := hs.known hstale e.seq hknown
  obtain rfl := seq_inj he (hs.logged e' he') hseq.symm
  exact he'

variable {read : List CachedEvent}

theorem Sound.applied_or_recorded (hs : s.Sound) (hstale : s.entry.canonicalStale = false)
    (he : e ∈ eventsAfter s.log 0) (hread : e ∈ read) :
    e ∈ s.entry.applied ++ s.entry.recordedEvents read := by
  by_cases hknown : e.seq ∈ s.entry.eventSeqs
  · exact mem_append_left _ (hs.applied_of_known hstale he hknown)
  · apply mem_append_right
    unfold recordedEvents
    rw [mem_filter]
    exact ⟨hread, by simpa using hknown⟩

theorem mem_recordedEvents (h : e ∈ entry.recordedEvents read) : e ∈ read :=
  mem_of_mem_filter h

theorem Sound.write (hs : s.Sound) (recorded : SessionEvent) :
    (s.step (.write recorded)).Sound := by
  refine ⟨hs.empty, hs.known, ?_, ?_⟩
  · intro e he
    change e ∈ eventsAfter (s.log ++ [recorded]) 0
    rw [eventsAfter_append]
    exact mem_append_left _ (hs.logged e he)
  · change s.entry.lastEventSeq ≤ (s.log ++ [recorded]).length
    have hle := hs.bounded
    rw [length_append, length_singleton]
    omega

theorem Sound.covered_write (hs : s.Sound) (recorded : SessionEvent) :
    Covered (s.log ++ [recorded]) s.entry ↔ Covered s.log s.entry := by
  constructor
  · intro h e he
    apply h e
    rw [eventsAfter_append]
    exact mem_append_left _ he
  · intro h e he hafter hle
    rw [eventsAfter_append, mem_append] at he
    rcases he with he | he
    · exact h e he hafter hle
    · rw [if_pos (Nat.succ_pos _), mem_singleton] at he
      have hbound := hs.bounded
      rw [he] at hle
      dsimp only at hle
      omega

theorem refreshed_cases (log : List SessionEvent) (entry : CachedSessionState)
    (replies : ReadReplies) :
    refreshed log entry replies = failed entry ∨ (entry.canonicalStale = false ∧
        refreshed log entry replies =
          failed (entry.applyIntarisEvents (eventsAfter log entry.lastEventSeq))) ∨
      (∃ before, refreshed log entry replies =
        completed (replaceFromIntarisEvents before (eventsAfter log 0))) ∨
      (entry.initialized ∧ entry.canonicalStale = false ∧ refreshed log entry replies =
          completed (entry.applyIntarisEvents (eventsAfter log entry.lastEventSeq))) := by
  unfold refreshed
  dsimp only
  split_ifs with hcold hfails hfails hrebuilds hrebuildFails
  · exact .inl rfl
  · refine .inr (.inr (.inl ⟨entry, ?_⟩))
    have hinitialized : (entry.replaceFromIntarisEvents (eventsAfter log 0)).initialized :=
      rfl
    rw [← hinitialized]
  · exact .inl rfl
  all_goals
    have hstate : entry.initialized ∧ entry.canonicalStale = false := by
      simpa using hcold
  · exact .inr (.inl ⟨hstate.2, rfl⟩)
  · exact .inr (.inr (.inl ⟨_, rfl⟩))
  · exact .inr (.inr (.inr ⟨hstate.1, hstate.2, rfl⟩))

theorem replaced_sound (log : List SessionEvent) (before : CachedSessionState) :
    let entry := completed (replaceFromIntarisEvents before (eventsAfter log 0))
    Sound ⟨log, entry⟩ ∧ Covered log entry := by
  intro entry
  obtain ⟨happlied, hseqs, hlast, hcompaction, -, -⟩ :=
    replaceFromIntarisEvents_fields before (ascending_eventsAfter log 0)
  have happlied' : entry.applied = eventsAfter log 0 := happlied
  refine ⟨⟨?_, ?_, ?_, ?_⟩, ?_⟩
  · intro hempty
    have hzero : highest 0 (eventsAfter log 0) = 0 := hlast.symm.trans hempty
    have hnone : eventsAfter log 0 = [] := by
      apply eq_nil_iff_forall_not_mem.mpr
      intro e he
      have hpos := seq_pos he
      have hle := seq_le_highest (n := 0) he
      omega
    refine ⟨happlied'.trans hnone, ?_⟩
    rw [show entry.lastCompactionSeq = _ from hcompaction, hnone]
    rfl
  · intro _ seq hseq
    obtain ⟨e, he, rfl⟩ := (hseqs seq).mp hseq
    exact ⟨e, happlied' ▸ he, rfl⟩
  · intro e he
    exact happlied' ▸ he
  · rw [show entry.lastEventSeq = _ from hlast]
    exact highest_le (Nat.zero_le _) fun e he => seq_le_length he
  · intro e he _ _
    rw [happlied']
    exact he

theorem Sound.applyIntarisEvents (hs : s.Sound) (hstale : s.entry.canonicalStale = false) :
    Sound ⟨s.log, s.entry.applyIntarisEvents (eventsAfter s.log s.entry.lastEventSeq)⟩ := by
  obtain ⟨happlied, hseqs, hlast, hcompaction, -, -⟩ :=
    applyIntarisEvents_fields s.entry (ascending_eventsAfter s.log s.entry.lastEventSeq)
  refine ⟨?_, ?_, ?_, ?_⟩
  · intro hempty
    rw [hlast] at hempty
    have hzero : s.entry.lastEventSeq = 0 := Nat.le_zero.mp (hempty ▸ le_highest)
    have hnone : s.entry.recordedEvents (eventsAfter s.log s.entry.lastEventSeq) = [] := by
      apply eq_nil_iff_forall_not_mem.mpr
      intro e he
      have hread := mem_recordedEvents he
      have hpos := seq_pos (mem_eventsAfter_zero.mp hread).2
      have hle := seq_le_highest (n := s.entry.lastEventSeq) hread
      omega
    obtain ⟨hnothing, hsummary⟩ := hs.empty hzero
    rw [happlied, hcompaction, hnone, hnothing, hsummary]
    exact ⟨rfl, rfl⟩
  · intro _ seq hseq
    rw [hseqs, mem_eventSeqs_replay] at hseq
    rw [happlied]
    rcases hseq with hold | ⟨e, he, rfl⟩
    · obtain ⟨e, he, rfl⟩ := hs.known hstale seq hold
      exact ⟨e, mem_append_left _ he, rfl⟩
    · exact ⟨e, mem_append_right _ he, rfl⟩
  · intro e he
    rw [happlied] at he
    rcases mem_append.mp he with hold | hnew
    · exact hs.logged e hold
    · exact (mem_eventsAfter_zero.mp (mem_recordedEvents hnew)).2
  · rw [hlast]
    exact highest_le hs.bounded fun e he => seq_le_length he

theorem Sound.covered_applyIntarisEvents (hs : s.Sound) (hstale : s.entry.canonicalStale = false)
    (hcovered : Covered s.log s.entry) :
    Covered s.log (s.entry.applyIntarisEvents (eventsAfter s.log s.entry.lastEventSeq)) := by
  obtain ⟨happlied, -, -, hcompaction, -, -⟩ :=
    applyIntarisEvents_fields s.entry (ascending_eventsAfter s.log s.entry.lastEventSeq)
  intro e he hafter _
  rw [happlied]
  by_cases hread : s.entry.lastEventSeq < e.seq
  · exact hs.applied_or_recorded hstale he (mem_eventsAfter_zero.mpr ⟨hread, he⟩)
  · apply mem_append_left
    rw [hcompaction] at hafter
    rcases compactionAfter_cases s.entry.lastCompactionSeq
      (s.entry.recordedEvents (eventsAfter s.log s.entry.lastEventSeq)) with
      ⟨hsame, -⟩ | ⟨summary, hsummary, -, hlast⟩
    · rw [hsame] at hafter
      exact hcovered e he hafter (Nat.le_of_not_lt hread)
    · have hbehind := (mem_eventsAfter_zero.mp (mem_recordedEvents hsummary)).1
      omega

theorem Sound.failed (hs : Sound ⟨log, entry⟩) : Sound ⟨log, failed entry⟩ :=
  ⟨hs.empty, fun h => absurd h (by simp [CacheRun.failed]), hs.logged, hs.bounded⟩

theorem Sound.refreshed (hs : s.Sound) (replies : ReadReplies) :
    Sound ⟨s.log, refreshed s.log s.entry replies⟩ := by
  rcases refreshed_cases s.log s.entry replies with
    hfailed | ⟨hstale, hfailed⟩ | ⟨before, hreplaced⟩ | ⟨-, hstale, hwarm⟩
  · rw [hfailed]
    exact hs.failed
  · rw [hfailed]
    exact (hs.applyIntarisEvents hstale).failed
  · rw [hreplaced]
    exact (replaced_sound s.log before).1
  · rw [hwarm]
    obtain ⟨-, -, -, -, hsame, -⟩ :=
      applyIntarisEvents_fields s.entry (ascending_eventsAfter s.log s.entry.lastEventSeq)
    have hread := hs.applyIntarisEvents hstale
    exact ⟨hread.empty, fun _ => hread.known (hsame.trans hstale), hread.logged, hread.bounded⟩

theorem Sound.neverSkips_refreshed (hs : s.Sound) (hskips : s.NeverSkips) (replies : ReadReplies) :
    NeverSkips ⟨s.log, CacheRun.refreshed s.log s.entry replies⟩ := by
  rcases refreshed_cases s.log s.entry replies with
    hfailed | ⟨-, hfailed⟩ | ⟨before, hreplaced⟩ | ⟨hinitialized, hstale, hwarm⟩
  · rw [hfailed]
    exact fun _ h => absurd h (by simp [CacheRun.failed])
  · rw [hfailed]
    exact fun _ h => absurd h (by simp [CacheRun.failed])
  · rw [hreplaced]
    exact fun _ _ => (replaced_sound s.log before).2
  · rw [hwarm]
    exact fun _ _ => hs.covered_applyIntarisEvents hstale (hskips hinitialized hstale)

variable {firstSeq count : Nat}

theorem mem_batch_of_gap (hfirst : 1 ≤ firstSeq)
    (h : e ∈ s.entry.recordedEvents (s.batch firstSeq count)) :
    e ∈ eventsAfter s.log 0 ∧ firstSeq ≤ e.seq ∧ e.seq < firstSeq + count :=
  (mem_batch hfirst).mp (mem_recordedEvents h)

def appended (s : CacheRun) (firstSeq count : Nat) : CachedSessionState :=
  s.entry.appendRecordedEvents (s.batch firstSeq count) firstSeq (firstSeq + count - 1)

theorem Sound.appended (hs : s.Sound) (hfirst : 1 ≤ firstSeq) (hcount : 1 ≤ count)
    (hlength : firstSeq + count ≤ s.log.length + 1) :
    Sound ⟨s.log, s.appended firstSeq count⟩ := by
  obtain ⟨happlied, hseqs, hlast, -, hstale, -⟩ :=
    appendRecordedEvents_fields s.entry (ascending_batch s firstSeq count) firstSeq
      (firstSeq + count - 1)
  refine ⟨?_, ?_, ?_, ?_⟩
  · intro hempty
    have hempty' := hlast.symm.trans hempty
    split_ifs at hempty' with hgap
    · simp [CachedSessionState.hasGap, hempty'] at hgap
    · omega
  · intro hfresh seq hseq
    have hseq' := (hseqs ▸ hseq : seq ∈ _)
    rw [mem_eventSeqs_replay] at hseq'
    rw [show (s.appended firstSeq count).applied = _ from happlied]
    rcases hseq' with hold | ⟨e, he, rfl⟩
    · obtain ⟨e, he, rfl⟩ := hs.known (hstale.symm.trans hfresh) seq hold
      exact ⟨e, mem_append_left _ he, rfl⟩
    · exact ⟨e, mem_append_right _ he, rfl⟩
  · intro e he
    rw [show (CacheRun.mk s.log (s.appended firstSeq count)).entry.applied = _ from happlied] at he
    rcases mem_append.mp he with hold | hnew
    · exact hs.logged e hold
    · exact (mem_batch_of_gap hfirst hnew).1
  · change (s.appended firstSeq count).lastEventSeq ≤ s.log.length
    rw [show (s.appended firstSeq count).lastEventSeq = _ from hlast]
    split_ifs
    · exact hs.bounded
    · apply Nat.max_le.mpr
      refine ⟨highest_le hs.bounded fun e he => seq_le_length (mem_batch_of_gap hfirst he).1, ?_⟩
      omega

theorem Sound.covered_appended_iff (hs : s.Sound) (hfresh : s.entry.canonicalStale = false)
    (hfirst : 1 ≤ firstSeq) (hcount : 1 ≤ count) :
    Covered s.log (s.appended firstSeq count) ↔
      ∀ e ∈ eventsAfter s.log 0, s.summaryAfter firstSeq count < e.seq →
        e.seq ≤ (if s.entry.hasGap firstSeq then s.entry.lastEventSeq
          else max s.entry.lastEventSeq (firstSeq + count - 1)) →
          e ∈ s.entry.applied ∨ e ∈ s.batch firstSeq count := by
  obtain ⟨happlied, -, hlast, hcompaction, -, -⟩ :=
    appendRecordedEvents_fields s.entry (ascending_batch s firstSeq count) firstSeq
      (firstSeq + count - 1)
  have hlast' : (s.appended firstSeq count).lastEventSeq =
      if s.entry.hasGap firstSeq then s.entry.lastEventSeq
      else max s.entry.lastEventSeq (firstSeq + count - 1) := by
    rw [show (s.appended firstSeq count).lastEventSeq = _ from hlast]
    split_ifs
    · rfl
    · rcases highest_cases s.entry.lastEventSeq
        (s.entry.recordedEvents (s.batch firstSeq count)) with hsame | ⟨e, he, hhighest⟩
      · rw [hsame]
      · obtain ⟨-, -, hbefore⟩ := mem_batch_of_gap hfirst he
        have hle : s.entry.lastEventSeq ≤
          highest s.entry.lastEventSeq (s.entry.recordedEvents (s.batch firstSeq count)) :=
        le_highest
        omega
  unfold Covered
  rw [show (s.appended firstSeq count).applied = _ from happlied, hlast',
    show (s.appended firstSeq count).lastCompactionSeq = _ from hcompaction]
  have hmem : ∀ e ∈ eventsAfter s.log 0,
      (e ∈ s.entry.applied ++ s.entry.recordedEvents (s.batch firstSeq count) ↔
        e ∈ s.entry.applied ∨ e ∈ s.batch firstSeq count) := by
    intro e he
    constructor
    · intro h
      rcases mem_append.mp h with hold | hnew
      · exact .inl hold
      · exact .inr (mem_recordedEvents hnew)
    · rintro (hold | hbatch)
      · exact mem_append_left _ hold
      · exact hs.applied_or_recorded hfresh he hbatch
  constructor
  · intro h e he hafter hle
    exact (hmem e he).mp (h e he hafter hle)
  · intro h e he hafter hle
    exact (hmem e he).mpr (h e he hafter hle)

theorem hasGap_eq_true_iff : entry.hasGap firstSeq ↔
      entry.initialized ∧ 0 < entry.lastEventSeq ∧ entry.lastEventSeq + 1 < firstSeq := by
  simp [CachedSessionState.hasGap, and_assoc]

theorem summaryAfter_cases (s : CacheRun) (hfirst : 1 ≤ firstSeq) :
    s.summaryAfter firstSeq count = s.entry.lastCompactionSeq ∨
      firstSeq ≤ s.summaryAfter firstSeq count := by
  rcases compactionAfter_cases s.entry.lastCompactionSeq
    (s.entry.recordedEvents (s.batch firstSeq count)) with ⟨hsame, -⟩ | ⟨e, he, -, hlast⟩
  · exact .inl hsame
  · right
    unfold summaryAfter
    rw [hlast]
    exact (mem_batch_of_gap hfirst he).2.1

/-- An entry that was loaded empty skips nothing after a batch that starts the log, or that holds
a summary. -/
theorem Sound.covered_empty_iff (hs : s.Sound) (hfresh : s.entry.canonicalStale = false)
    (hempty : s.entry.lastEventSeq = 0) (hfirst : 1 ≤ firstSeq) (hcount : 1 ≤ count)
    (hlength : firstSeq + count ≤ s.log.length + 1) :
    Covered s.log (s.appended firstSeq count) ↔
      firstSeq ≤ 1 ∨ ∃ e ∈ s.batch firstSeq count, e.isCompaction := by
  obtain ⟨hnothing, hsummary⟩ := hs.empty hempty
  have hgap : ¬ s.entry.hasGap firstSeq := by
    rw [hasGap_eq_true_iff]
    omega
  rw [hs.covered_appended_iff hfresh hfirst hcount, if_neg hgap, hempty, hnothing]
  constructor
  · intro h
    by_contra hneither
    rw [not_or, not_exists] at hneither
    obtain ⟨hlater, hplain⟩ := hneither
    have hbefore : s.summaryAfter firstSeq count = 0 := by
      rcases compactionAfter_cases s.entry.lastCompactionSeq
        (s.entry.recordedEvents (s.batch firstSeq count)) with
        ⟨hsame, -⟩ | ⟨e, he, hcompaction, -⟩
      · exact hsame.trans hsummary
      · exact absurd ⟨mem_recordedEvents he, hcompaction⟩ (hplain e)
    have hpositive : 1 ≤ s.log.length := by omega
    obtain ⟨e, he, hseq⟩ := exists_logged (Nat.le_refl 1) hpositive
    rcases h e he (by omega) (by omega) with hold | hbatch
    · cases hold
    · have hafter := ((mem_batch hfirst).mp hbatch).2.1
      omega
  · intro h e he hafter hle
    right
    apply (mem_batch hfirst).mpr
    have hpos := seq_pos he
    refine ⟨he, ?_, by omega⟩
    rcases h with hone | ⟨summary, hmem, hcompaction⟩
    · omega
    · have hnew : summary ∈ s.entry.recordedEvents (s.batch firstSeq count) := by
        have hall := hs.applied_or_recorded hfresh ((mem_batch hfirst).mp hmem).1 hmem
        rw [hnothing, nil_append] at hall
        exact hall
      rcases compactionAfter_cases s.entry.lastCompactionSeq
        (s.entry.recordedEvents (s.batch firstSeq count)) with
        ⟨-, hnone⟩ | ⟨last, hlast, -, hsame⟩
      · rw [hnone summary hnew] at hcompaction
        cases hcompaction
      · have hbatch := (mem_batch_of_gap hfirst hlast).2.1
        unfold summaryAfter at hafter
        omega

theorem Sound.neverSkips_appended_iff (hs : s.Sound) (hskips : s.NeverSkips)
    (hfresh : s.entry.canonicalStale = false) (hfirst : 1 ≤ firstSeq) (hcount : 1 ≤ count)
    (hlength : firstSeq + count ≤ s.log.length + 1) :
    NeverSkips ⟨s.log, s.appended firstSeq count⟩ ↔ s.BatchFollows firstSeq count := by
  obtain ⟨-, -, -, -, hstale, hinitialized⟩ :=
    appendRecordedEvents_fields s.entry (ascending_batch s firstSeq count) firstSeq
      (firstSeq + count - 1)
  have hstale' : (s.appended firstSeq count).canonicalStale = false := hstale.trans hfresh
  have hserves : NeverSkips ⟨s.log, s.appended firstSeq count⟩ ↔
      ((s.entry.initialized || decide (firstSeq ≤ 1)) →
        Covered s.log (s.appended firstSeq count)) := by
    unfold NeverSkips
    rw [show (CacheRun.mk s.log (s.appended firstSeq count)).entry.initialized = _ from
      hinitialized]
    exact ⟨fun h hopen => h hopen hstale', fun h hopen _ => h hopen⟩
  rw [hserves]
  by_cases hopen : s.entry.initialized
  · have hcovered := hskips hopen hfresh
    rw [hopen, Bool.true_or]
    by_cases hempty : s.entry.lastEventSeq = 0
    · rw [hs.covered_empty_iff hfresh hempty hfirst hcount hlength]
      constructor
      · intro h
        refine ⟨fun _ _ => h rfl, fun hclosed => ?_, fun _ hpos => ?_⟩
        · rw [hopen] at hclosed
          cases hclosed
        · omega
      · intro h _
        exact h.first hopen hempty
    · rw [hs.covered_appended_iff hfresh hfirst hcount]
      by_cases hgap : s.entry.hasGap firstSeq
      · -- The watermark stays where it is, so nothing that is missing comes below it.
        rw [if_pos hgap]
        obtain ⟨-, -, hjump⟩ := hasGap_eq_true_iff.mp hgap
        constructor
        · intro _
          refine ⟨fun _ h => absurd h hempty, fun hclosed => ?_, fun _ _ hnext => ?_⟩
          · rw [hopen] at hclosed
            cases hclosed
          · omega
        · intro _ _ e he hafter hle
          have hcases : s.summaryAfter firstSeq count = s.entry.lastCompactionSeq ∨
              firstSeq ≤ s.summaryAfter firstSeq count := summaryAfter_cases s hfirst
          rcases hcases with hsame | hlater
          · rw [hsame] at hafter
            exact .inl (hcovered e he hafter hle)
          · omega
      · rw [if_neg hgap]
        have hnext : firstSeq ≤ s.entry.lastEventSeq + 1 := by
          by_contra hjump
          exact hgap (hasGap_eq_true_iff.mpr ⟨hopen, by omega, by omega⟩)
        constructor
        · intro h
          refine ⟨fun _ hzero => absurd hzero hempty, fun hclosed => ?_, ?_⟩
          · rw [hopen] at hclosed
            cases hclosed
          · intro _ _ _ e he hafter _ hle
            exact h rfl e he hafter (hle.trans (Nat.le_max_left _ _))
        · intro h _ e he hafter hle
          by_cases hold : e.seq ≤ s.entry.lastEventSeq
          · by_cases hsummary : e.seq ≤ s.entry.lastCompactionSeq
            · exact h.summary hopen (Nat.pos_of_ne_zero hempty) hnext e he hafter hsummary hold
            · exact .inl (hcovered e he (Nat.lt_of_not_le hsummary) hold)
          · exact .inr ((mem_batch hfirst).mpr ⟨he, by omega, by omega⟩)
  · rw [Bool.not_eq_true] at hopen
    rw [hopen, Bool.false_or]
    have hgap : ¬ s.entry.hasGap firstSeq := by
      rw [hasGap_eq_true_iff, hopen]
      simp
    constructor
    · intro h
      refine ⟨fun hyes => ?_, ?_, fun hyes => ?_⟩
      · rw [hopen] at hyes
        cases hyes
      · intro _ hone e he hbehind hafter hle
        have hall := (hs.covered_appended_iff hfresh hfirst hcount).mp (h (by simpa using hone))
        rw [if_neg hgap] at hall
        rcases hall e he hafter (hle.trans (Nat.le_max_left _ _)) with hold | hbatch
        · exact hold
        · have hlast := ((mem_batch hfirst).mp hbatch).2.2
          omega
      · rw [hopen] at hyes
        cases hyes
    · intro h hone
      rw [decide_eq_true_iff] at hone
      rw [hs.covered_appended_iff hfresh hfirst hcount, if_neg hgap]
      intro e he hafter hle
      have hpos := seq_pos he
      by_cases hbatch : e.seq ≤ count
      · exact .inr ((mem_batch hfirst).mpr ⟨he, by omega, by omega⟩)
      · exact .inl (h.opens hopen hone e he (Nat.lt_of_not_le hbatch) hafter (by omega))

theorem step_applyCompaction (s : CacheRun) (seq : Nat) :
    (∃ e ∈ eventsAfter s.log 0, e.seq = seq ∧ e.isCompaction ∧
        s.step (.applyCompaction seq) = { s with entry := s.entry.applyCompaction e }) ∨
      ((¬ ∃ e ∈ eventsAfter s.log 0, e.seq = seq ∧ e.isCompaction) ∧
        s.step (.applyCompaction seq) = s) := by
  by_cases hsummary : ∃ e ∈ eventsAfter s.log 0, e.seq = seq ∧ e.isCompaction
  · obtain ⟨e, he, rfl, hcompaction⟩ := hsummary
    refine .inl ⟨e, he, rfl, hcompaction, ?_⟩
    have hpos := seq_pos he
    have hmem : e ∈ s.batch e.seq 1 := (mem_batch hpos).mpr ⟨he, by omega, by omega⟩
    have hhead : (s.batch e.seq 1).head? = some e := by
      cases hbatch : s.batch e.seq 1 with
      | nil =>
        rw [hbatch] at hmem
        cases hmem
      | cons first =>
        have hfirst : first ∈ s.batch e.seq 1 := by
          rw [hbatch]
          exact mem_cons_self
        obtain ⟨hlogged, hle, hlt⟩ := (mem_batch hpos).mp hfirst
        rw [head?_cons, seq_inj hlogged he (by omega)]
    simp only [step, hhead]
    rw [if_pos ⟨hpos, hcompaction⟩]
  · refine .inr ⟨hsummary, ?_⟩
    simp only [step]
    cases hhead : (s.batch seq 1).head? with
    | none => rfl
    | some e =>
      dsimp only
      split_ifs with hconfirmed
      · obtain ⟨hpos, hcompaction⟩ := hconfirmed
        obtain ⟨hlogged, hle, hlt⟩ := (mem_batch hpos).mp (mem_of_mem_head? hhead)
        exact absurd ⟨e, hlogged, by omega, hcompaction⟩ hsummary
      · rfl

theorem Sound.applyCompaction (hs : s.Sound) (he : e ∈ eventsAfter s.log 0) :
    Sound ⟨s.log, s.entry.applyCompaction e⟩ := by
  have hpos := seq_pos he
  refine ⟨?_, ?_, ?_, ?_⟩
  · intro hempty
    change max s.entry.lastEventSeq e.seq = 0 at hempty
    omega
  · intro hfresh seq hseq
    obtain ⟨e', he', hsame⟩ := hs.known hfresh seq hseq
    exact ⟨e', mem_append_left _ he', hsame⟩
  · intro e' he'
    rcases mem_append.mp he' with hold | hnew
    · exact hs.logged e' hold
    · rw [mem_singleton.mp hnew]
      exact he
  · exact Nat.max_le.mpr ⟨hs.bounded, seq_le_length he⟩

theorem neverSkips_applyCompaction_iff (hskips : s.NeverSkips) :
    NeverSkips ⟨s.log, s.entry.applyCompaction e⟩ ↔
      (s.entry.initialized → s.entry.canonicalStale = false →
        ∀ e' ∈ eventsAfter s.log 0, e.seq < e'.seq → e'.seq ≤ s.entry.lastCompactionSeq →
          e'.seq ≤ s.entry.lastEventSeq → e' ∈ s.entry.applied) := by
  constructor
  · intro h hopen hfresh e' he' hafter _ hle
    have happlied := h hopen hfresh e' he' hafter (hle.trans (Nat.le_max_left _ _))
    rcases mem_append.mp happlied with hold | hnew
    · exact hold
    · rw [mem_singleton.mp hnew] at hafter
      exact absurd hafter (Nat.lt_irrefl _)
  · intro h hopen hfresh e' he' hafter hle
    apply mem_append_left
    change e.seq < e'.seq at hafter
    have hold : e'.seq ≤ s.entry.lastEventSeq := by
      rcases Nat.le_total s.entry.lastEventSeq e.seq with hlow | hlow
      · rw [show (CacheRun.mk s.log (s.entry.applyCompaction e)).entry.lastEventSeq =
          max s.entry.lastEventSeq e.seq from rfl] at hle
        omega
      · exact hle.trans (Nat.max_eq_left hlow).le
    by_cases hsummary : e'.seq ≤ s.entry.lastCompactionSeq
    · exact h hopen hfresh e' he' hafter hsummary hold
    · exact hskips hopen hfresh e' he' (Nat.lt_of_not_le hsummary) hold

theorem Sound.step (hs : s.Sound) (event : CacheEvent) : (s.step event).Sound := by
  cases event with
  | write recorded => exact hs.write recorded
  | refresh replies => exact hs.refreshed replies
  | acquireContextSnapshot replies =>
    simp only [CacheRun.step]
    split_ifs
    · exact hs
    · exact hs.refreshed replies
  | appendRecorded =>
    simp only [CacheRun.step]
    split_ifs with hacknowledged
    · exact hs.appended hacknowledged.1 hacknowledged.2.1 hacknowledged.2.2
    · exact hs
  | applyCompaction seq =>
    rcases step_applyCompaction s seq with ⟨e, he, -, -, hstep⟩ | ⟨-, hstep⟩
    · rw [hstep]
      exact hs.applyCompaction he
    · rw [hstep]
      exact hs
  | invalidateCanonical =>
    exact ⟨fun _ => ⟨rfl, rfl⟩, fun h => absurd h (by simp [CacheRun.step,
      CachedSessionState.invalidateCanonical]), fun e he => absurd he not_mem_nil,
      Nat.zero_le _⟩

theorem Sound.neverSkips_step_iff (hs : s.Sound) (hskips : s.NeverSkips) (event : CacheEvent) :
    (s.step event).NeverSkips ↔ s.Follows event := by
  cases event with
  | write recorded =>
    refine iff_of_true ?_ trivial
    intro hopen hfresh
    exact (hs.covered_write recorded).mpr (hskips hopen hfresh)
  | refresh replies => exact iff_of_true (hs.neverSkips_refreshed hskips replies) trivial
  | acquireContextSnapshot replies =>
    simp only [CacheRun.step]
    split_ifs
    · exact iff_of_true hskips trivial
    · exact iff_of_true (hs.neverSkips_refreshed hskips replies) trivial
  | appendRecorded firstSeq count =>
    simp only [CacheRun.step]
    split_ifs with hacknowledged
    · obtain ⟨hfirst, hcount, hlength⟩ := hacknowledged
      by_cases hfresh : s.entry.canonicalStale = false
      · have hiff := hs.neverSkips_appended_iff hskips hfresh hfirst hcount hlength
        exact hiff.trans ⟨fun h _ _ _ _ => h, fun h => h hfresh hfirst hcount hlength⟩
      · obtain ⟨-, -, -, -, hstale, -⟩ :=
          appendRecordedEvents_fields s.entry (ascending_batch s firstSeq count) firstSeq
            (firstSeq + count - 1)
        refine iff_of_true ?_ fun h => absurd h hfresh
        intro _ h
        exact absurd (hstale.symm.trans h) hfresh
    · refine iff_of_true hskips ?_
      intro _ hfirst hcount hlength
      exact absurd ⟨hfirst, hcount, hlength⟩ hacknowledged
  | applyCompaction seq =>
    rcases step_applyCompaction s seq with ⟨e, he, rfl, hcompaction, hstep⟩ | ⟨hnone, hstep⟩
    · rw [hstep, neverSkips_applyCompaction_iff hskips]
      exact ⟨fun h hopen hfresh _ => h hopen hfresh,
        fun h hopen hfresh => h hopen hfresh ⟨e, he, rfl, hcompaction⟩⟩
    · rw [hstep]
      exact iff_of_true hskips fun _ _ hsome => absurd hsome hnone
  | invalidateCanonical =>
    refine iff_of_true ?_ trivial
    intro hopen
    cases hopen

theorem sound_start : Sound {} :=
  ⟨fun _ => ⟨rfl, rfl⟩, fun _ _ h => absurd h not_mem_nil,
    fun _ h => absurd h not_mem_nil, Nat.le_refl 0⟩

end CacheRun

open CacheRun

/-- In a run from an empty cache the entry skips no event of the log exactly when each batch and
each summary that the controller learns of follows on what the entry has. -/
theorem cache_never_skips_iff (events : List CacheEvent) :
    (∀ pre, pre <+: events → (Runs.run CacheRun.step {} pre).NeverSkips) ↔
      Runs.Meets CacheRun.step Follows {} events := by
  apply Runs.forall_prefix_iff_meets_of_invariant Sound NeverSkips
  · intro s event _ hsound hskips
    exact ⟨hsound.step event, hsound.neverSkips_step_iff hskips event⟩
  · exact sound_start
  · intro h
    cases h

/-- A session is cached while it is empty; then another writer and the controller record an event
each, and the controller learns of its own. -/
def emptySessionEvents : List CacheEvent :=
  [.refresh {}, .write ⟨"user_message", []⟩, .write ⟨"assistant_message", []⟩, .appendRecorded 2 1]

theorem first_event_skipped :
    let s := Runs.run CacheRun.step {} emptySessionEvents
    s.entry.initialized ∧ s.entry.canonicalStale = false ∧
      s.entry.lastCompactionSeq = 0 ∧ s.entry.lastEventSeq = 2 ∧
      s.entry.applied.map CachedEvent.seq = [2] ∧ ¬ s.NeverSkips := by
  refine ⟨by decide, by decide, by decide, by decide, by decide, ?_⟩
  intro h
  have happlied := h (by decide) (by decide) ⟨1, "user_message", []⟩ (by decide) (by decide)
    (by decide)
  revert happlied
  decide

/-- Whatever order a cache learns of the events in, the entry has only events of the log, knows
none that it has not applied, and stands nowhere past its end. -/
theorem cache_holds_logged (events : List CacheEvent) :
    let s := Runs.run CacheRun.step {} events
    (∀ e ∈ s.entry.applied, e ∈ eventsAfter s.log 0) ∧ s.entry.lastEventSeq ≤ s.log.length ∧
      (s.entry.canonicalStale = false →
        ∀ seq ∈ s.entry.eventSeqs, ∃ e ∈ s.entry.applied, e.seq = seq) := by
  intro s
  have h : s.Sound := Runs.run_invariant Sound (fun s e hs => hs.step e) sound_start events
  exact ⟨h.logged, h.bounded, h.known⟩

end Cognis.SessionCache
