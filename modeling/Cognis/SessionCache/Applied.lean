import Cognis.SessionCache.Cache

namespace Cognis.SessionCache

open List SortByKey

variable {log : List SessionEvent} {n : Nat} {batch read : List CachedEvent} {flag : Bool}

theorem mem_eventsAfter {e : CachedEvent} :
    e ∈ eventsAfter log n ↔ n < e.seq ∧ 1 ≤ e.seq ∧ log[e.seq - 1]? = some ⟨e.type, e.data⟩ := by
  unfold eventsAfter
  rw [mem_filterMap]
  constructor
  · rintro ⟨⟨recorded, seq⟩, hmem, hsome⟩
    rw [mk_mem_zipIdx_iff_le_and_getElem?_sub] at hmem
    split_ifs at hsome with hafter
    cases hsome
    exact ⟨hafter, hmem.1, hmem.2⟩
  · rintro ⟨hafter, hpos, hget⟩
    refine ⟨(⟨e.type, e.data⟩, e.seq), ?_, ?_⟩
    · rw [mk_mem_zipIdx_iff_le_and_getElem?_sub]
      exact ⟨hpos, hget⟩
    · rw [if_pos hafter]

theorem ascending_eventsAfter (log : List SessionEvent) (n : Nat) :
    Ascending CachedEvent.seq (eventsAfter log n) := by
  unfold eventsAfter Ascending
  rw [pairwise_filterMap]
  have hindices : ((log.zipIdx 1).map Prod.snd).Pairwise (· < ·) := by
    rw [zipIdx_map_snd]
    exact pairwise_lt_range'
  rw [pairwise_map] at hindices
  refine hindices.imp ?_
  intro p q hlt e he e' he'
  split_ifs at he he'
  cases he
  cases he'
  exact hlt

theorem seq_inj {e e' : CachedEvent}
    (he : e ∈ eventsAfter log n) (he' : e' ∈ eventsAfter log n) (h : e.seq = e'.seq) : e = e' :=
  (ascending_eventsAfter log n).key_injOn he he' h

theorem mem_eventsAfter_zero {e : CachedEvent} :
    e ∈ eventsAfter log n ↔ n < e.seq ∧ e ∈ eventsAfter log 0 := by
  rw [mem_eventsAfter, mem_eventsAfter]
  constructor
  · rintro ⟨hafter, hpos, hget⟩
    exact ⟨hafter, hpos, hpos, hget⟩
  · rintro ⟨hafter, -, hpos, hget⟩
    exact ⟨hafter, hpos, hget⟩

theorem nodup_seqs {events : List CachedEvent} (h : Ascending CachedEvent.seq events) :
    (events.map CachedEvent.seq).Nodup := by
  have hlt : (events.map CachedEvent.seq).Pairwise (· < ·) := pairwise_map.mpr h
  exact hlt.imp Nat.ne_of_lt

namespace CachedSessionState

variable (entry : CachedSessionState) (e : CachedEvent)

theorem not_special_of_compaction (h : e.isCompaction) :
    e.isRetryAdmissionNotice = false ∧ prefixEventTypes.contains e.type = false := by
  have htype : e.type = "compaction_summary" := by simpa [CachedEvent.isCompaction] using h
  constructor
  · simp [CachedEvent.isRetryAdmissionNotice, htype]
  · simp [prefixEventTypes, htype]

/-- Whether an event stays in the history until a summary covers it. -/
def retains (e : CachedEvent) : Bool :=
  e.isRetryAdmissionNotice ||
    if prefixEventTypes.contains e.type then e.isReplayableContext else !e.isCompaction

theorem applyCachedEvent_eq : entry.applyCachedEvent e = { entry with
        events :=
          if e.isCompaction then
            (supersede entry.events e).filter fun existing => e.seq < existing.seq
          else if retains e ∧ entry.lastCompactionSeq < e.seq then
            supersede entry.events e ++ [e]
          else supersede entry.events e
        eventSeqs := entry.eventSeqs.insert e.seq
        lastEventSeq := max entry.lastEventSeq e.seq
        lastCompactionSeq := if e.isCompaction then e.seq else entry.lastCompactionSeq
        lastCompactionSummary :=
          if e.isCompaction then summaryText e.data else entry.lastCompactionSummary
        projectionDecisions :=
          if e.isCompaction then .empty
          else e.decisions.foldl addDecision entry.projectionDecisions
        memoryAliases :=
          e.aliasDelta.elim entry.memoryAliases fun delta => (entry.memoryAliases.apply delta).1
        applied := entry.applied ++ [e] } := by
  have haliases : ∀ entry : CachedSessionState, entry.applyAliases e = { entry with
        memoryAliases :=
          e.aliasDelta.elim entry.memoryAliases fun delta =>
            (entry.memoryAliases.apply delta).1 } := by
    intro entry
    unfold applyAliases
    cases e.aliasDelta <;> rfl
  unfold applyCachedEvent retains
  simp only [haliases, applyDecisions, applyLoadedSkill]
  by_cases hcompaction : e.isCompaction
  · obtain ⟨hretry, hprefix⟩ := not_special_of_compaction e hcompaction
    simp only [hretry, hprefix, hcompaction, Bool.false_eq_true, if_false, if_true, cut, advance]
  · simp only [hcompaction, Bool.false_eq_true, if_false, Bool.not_false]
    by_cases hlater : entry.lastCompactionSeq < e.seq
    · cases e.isRetryAdmissionNotice <;> cases prefixEventTypes.contains e.type <;>
        cases e.isReplayableContext <;> simp [retain, advance, hlater]
    · cases e.isRetryAdmissionNotice <;> cases prefixEventTypes.contains e.type <;>
        cases e.isReplayableContext <;> simp [retain, advance, hlater]

def replay (entry : CachedSessionState) (events : List CachedEvent) : CachedSessionState :=
  events.foldl applyCachedEvent entry

def compactionAfter (seq : Nat) (events : List CachedEvent) : Nat :=
  events.foldl (fun last e => if e.isCompaction then e.seq else last) seq

def highest (seq : Nat) (events : List CachedEvent) : Nat :=
  events.foldl (fun last e => max last e.seq) seq

section

variable {entry : CachedSessionState} {events : List CachedEvent}

@[simp] theorem applied_replay : (entry.replay events).applied = entry.applied ++ events := by
  unfold replay
  induction events generalizing entry with
  | nil => simp
  | cons e events ih =>
    rw [foldl_cons, ih, applyCachedEvent_eq, append_assoc]
    rfl

@[simp] theorem canonicalStale_replay :
    (entry.replay events).canonicalStale = entry.canonicalStale := by
  unfold replay
  induction events generalizing entry with
  | nil => rfl
  | cons e events ih => rw [foldl_cons, ih, applyCachedEvent_eq]

@[simp] theorem lastEventSeq_replay :
    (entry.replay events).lastEventSeq = highest entry.lastEventSeq events := by
  unfold replay highest
  induction events generalizing entry with
  | nil => rfl
  | cons e events ih => rw [foldl_cons, ih, applyCachedEvent_eq, foldl_cons]

@[simp] theorem lastCompactionSeq_replay :
    (entry.replay events).lastCompactionSeq = compactionAfter entry.lastCompactionSeq events := by
  unfold replay compactionAfter
  induction events generalizing entry with
  | nil => rfl
  | cons e events ih => rw [foldl_cons, ih, applyCachedEvent_eq, foldl_cons]

theorem mem_eventSeqs_replay {seq : Nat} : seq ∈ (entry.replay events).eventSeqs ↔
      seq ∈ entry.eventSeqs ∨ ∃ e ∈ events, e.seq = seq := by
  unfold replay
  induction events generalizing entry with
  | nil => simp
  | cons e events ih =>
    rw [foldl_cons, ih, applyCachedEvent_eq]
    simp only [mem_insert_iff, mem_cons]
    constructor
    · rintro ((rfl | hold) | ⟨e', he', rfl⟩)
      · exact .inr ⟨e, .inl rfl, rfl⟩
      · exact .inl hold
      · exact .inr ⟨e', .inr he', rfl⟩
    · rintro (hold | ⟨e', rfl | he', rfl⟩)
      · exact .inl (.inr hold)
      · exact .inl (.inl rfl)
      · exact .inr ⟨e', he', rfl⟩

theorem le_highest : n ≤ highest n events := by
  induction events generalizing n with
  | nil => exact Nat.le_refl n
  | cons e events ih => exact (Nat.le_max_left n e.seq).trans ih

theorem seq_le_highest {e : CachedEvent} (h : e ∈ events) :
    e.seq ≤ highest n events := by
  induction events generalizing n with
  | nil => cases h
  | cons first events ih =>
    rcases mem_cons.mp h with rfl | hrest
    · exact (Nat.le_max_right n e.seq).trans le_highest
    · exact ih hrest

theorem highest_cases (n : Nat) (events : List CachedEvent) :
    highest n events = n ∨ ∃ e ∈ events, highest n events = e.seq := by
  unfold highest
  induction events generalizing n with
  | nil => exact .inl rfl
  | cons e events ih =>
    rw [foldl_cons]
    rcases ih (max n e.seq) with hsame | ⟨e', he', hlast⟩
    · rw [hsame]
      rcases Nat.le_total n e.seq with hle | hle
      · exact .inr ⟨e, mem_cons_self, Nat.max_eq_right hle⟩
      · exact .inl (Nat.max_eq_left hle)
    · exact .inr ⟨e', mem_cons_of_mem _ he', hlast⟩

theorem compactionAfter_cases (n : Nat) (events : List CachedEvent) :
    (compactionAfter n events = n ∧ ∀ e ∈ events, e.isCompaction = false) ∨
      ∃ e ∈ events, e.isCompaction ∧ compactionAfter n events = e.seq := by
  unfold compactionAfter
  induction events generalizing n with
  | nil => exact .inl ⟨rfl, fun e he => by cases he⟩
  | cons e events ih =>
    rw [foldl_cons]
    rcases ih (if e.isCompaction then e.seq else n) with ⟨hsame, hnone⟩ | ⟨e', he', hlast⟩
    · by_cases hcompaction : e.isCompaction
      · rw [if_pos hcompaction] at hsame ⊢
        exact .inr ⟨e, mem_cons_self, hcompaction, hsame⟩
      · rw [if_neg hcompaction] at hsame ⊢
        refine .inl ⟨hsame, ?_⟩
        intro e' he'
        rcases mem_cons.mp he' with rfl | hrest
        · simpa using hcompaction
        · exact hnone e' hrest
    · exact .inr ⟨e', mem_cons_of_mem _ he', hlast⟩

theorem recordedEvents_applyCachedEvent {e : CachedEvent} (h : e.seq ∉ batch.map CachedEvent.seq) :
    (entry.applyCachedEvent e).recordedEvents batch = entry.recordedEvents batch := by
  apply filter_congr
  intro e' he'
  have hne : e'.seq ≠ e.seq := by
    intro heq
    exact h (heq ▸ mem_map_of_mem he')
  rw [applyCachedEvent_eq]
  simp [hne]

theorem appendNew_eq (h : (batch.map CachedEvent.seq).Nodup) :
    entry.appendNew batch = entry.replay (entry.recordedEvents batch) := by
  induction batch generalizing entry with
  | nil => rfl
  | cons e batch ih =>
    rw [map_cons, nodup_cons] at h
    have hrest : (entry.applyCachedEvent e).recordedEvents batch = entry.recordedEvents batch :=
      recordedEvents_applyCachedEvent h.1
    unfold appendNew recordedEvents
    by_cases hknown : entry.eventSeqs.contains e.seq
    · rw [if_pos hknown, filter_cons_of_neg (by simpa using hknown), ih h.2]
      rfl
    · rw [if_neg hknown, filter_cons_of_pos (by simpa using hknown), ih h.2, hrest]
      rfl

theorem replay_withLast (n : Nat) : replay { entry with lastEventSeq := n } events =
      { entry.replay events with lastEventSeq := highest n events } := by
  unfold replay highest
  induction events generalizing entry n with
  | nil => rfl
  | cons e events ih =>
    have hstep : applyCachedEvent { entry with lastEventSeq := n } e =
        { entry.applyCachedEvent e with lastEventSeq := max n e.seq } := by
      rw [applyCachedEvent_eq, applyCachedEvent_eq]
    rw [foldl_cons, foldl_cons, foldl_cons, hstep, ih]

theorem applyIntarisEvent_known {e : CachedEvent} (h : entry.eventSeqs.contains e.seq) :
    applyIntarisEvent (entry, flag) e = (entry.advance e, flag) := by
  unfold applyIntarisEvent
  dsimp only
  rw [if_pos h]

theorem applyIntarisEvent_new {e : CachedEvent} (h : ¬ entry.eventSeqs.contains e.seq) :
    (applyIntarisEvent (entry, flag) e).1 = entry.applyCachedEvent e := by
  unfold applyIntarisEvent
  dsimp only
  rw [if_neg h]

/-- Events that were read change an entry as those among them that it does not have, and move
the watermark past all of them. -/
theorem applyIntarisEvents_loop (h : (read.map CachedEvent.seq).Nodup) :
    (read.foldl applyIntarisEvent (entry, flag)).1 = { entry.replay (entry.recordedEvents read) with
        lastEventSeq := highest entry.lastEventSeq read } := by
  induction read generalizing entry flag with
  | nil => rfl
  | cons e read ih =>
    rw [map_cons, nodup_cons] at h
    have hrest : (entry.applyCachedEvent e).recordedEvents read = entry.recordedEvents read :=
      recordedEvents_applyCachedEvent h.1
    rw [foldl_cons]
    by_cases hknown : entry.eventSeqs.contains e.seq
    · have hrecorded : entry.recordedEvents (e :: read) = entry.recordedEvents read :=
        filter_cons_of_neg (by simpa using hknown)
      have hsame : (entry.advance e).recordedEvents read = entry.recordedEvents read := rfl
      rw [applyIntarisEvent_known hknown, ih h.2, hsame, hrecorded]
      unfold advance
      rw [replay_withLast]
      rfl
    · have hrecorded : entry.recordedEvents (e :: read) = e :: entry.recordedEvents read :=
        filter_cons_of_pos (by simpa using hknown)
      have hlast : (entry.applyCachedEvent e).lastEventSeq = max entry.lastEventSeq e.seq := by
        rw [applyCachedEvent_eq]
      rw [← Prod.mk.eta (p := applyIntarisEvent (entry, flag) e), applyIntarisEvent_new hknown,
        ih h.2, hrest, hrecorded, hlast]
      rfl

variable (entry : CachedSessionState)

theorem applyIntarisEvents_fields
    (h : Ascending CachedEvent.seq read) :
    let after := entry.applyIntarisEvents read
    let recorded := entry.recordedEvents read
    after.applied = entry.applied ++ recorded ∧
      after.eventSeqs = (entry.replay recorded).eventSeqs ∧
      after.lastEventSeq = highest entry.lastEventSeq read ∧
      after.lastCompactionSeq = compactionAfter entry.lastCompactionSeq recorded ∧
      after.canonicalStale = entry.canonicalStale ∧ after.initialized := by
  intro after recorded
  have hloop : (read.foldl applyIntarisEvent (entry, false)).1 = _ :=
    applyIntarisEvents_loop (nodup_seqs h)
  simp only [after, applyIntarisEvents, sortBy_eq_self h]
  rw [hloop]
  split_ifs
  · exact ⟨applied_replay, rfl, rfl, lastCompactionSeq_replay, canonicalStale_replay, trivial⟩
  · exact ⟨applied_replay, rfl, rfl, lastCompactionSeq_replay, canonicalStale_replay, trivial⟩

theorem appendRecordedEvents_fields
    (h : Ascending CachedEvent.seq batch) (firstSeq lastSeq : Nat) :
    let after := entry.appendRecordedEvents batch firstSeq lastSeq
    let recorded := entry.recordedEvents batch
    after.applied = entry.applied ++ recorded ∧
      after.eventSeqs = (entry.replay recorded).eventSeqs ∧
      after.lastEventSeq = (if entry.hasGap firstSeq then entry.lastEventSeq
        else max (highest entry.lastEventSeq recorded) lastSeq) ∧
      after.lastCompactionSeq = compactionAfter entry.lastCompactionSeq recorded ∧
      after.canonicalStale = entry.canonicalStale ∧
      after.initialized = (entry.initialized || decide (firstSeq ≤ 1)) := by
  intro after recorded
  have hnew : entry.appendNew batch = _ := appendNew_eq (nodup_seqs h)
  simp only [after, appendRecordedEvents, hnew, lastEventSeq_replay]
  split_ifs
  all_goals exact ⟨applied_replay, rfl, rfl, lastCompactionSeq_replay, canonicalStale_replay,
    trivial⟩

theorem replaceFromIntarisEvents_fields
    (h : Ascending CachedEvent.seq read) :
    let after := entry.replaceFromIntarisEvents read
    after.applied = read ∧ (∀ seq, seq ∈ after.eventSeqs ↔ ∃ e ∈ read, e.seq = seq) ∧
      after.lastEventSeq = highest 0 read ∧ after.lastCompactionSeq = compactionAfter 0 read ∧
      after.canonicalStale = entry.canonicalStale ∧ after.initialized := by
  intro after
  let cleared : CachedSessionState :=
    { entry with
      events := []
      eventSeqs := []
      lastEventSeq := 0
      lastCompactionSeq := 0
      lastCompactionSummary := none
      memoryAliases := {}
      applied := [] }
  have hrecorded : cleared.recordedEvents read = read := by
    unfold recordedEvents
    rw [filter_eq_self]
    intro e _
    rfl
  obtain ⟨happlied, hseqs, hlast, hcompaction, hstale, hinitialized⟩ :=
    applyIntarisEvents_fields cleared h
  rw [hrecorded] at happlied hseqs hcompaction
  refine ⟨happlied, ?_, hlast, hcompaction, hstale, hinitialized⟩
  intro seq
  rw [show after.eventSeqs = _ from hseqs, mem_eventSeqs_replay]
  exact or_iff_right not_mem_nil

end

end CachedSessionState

end Cognis.SessionCache
