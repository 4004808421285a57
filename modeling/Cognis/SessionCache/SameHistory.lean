import Cognis.SessionCache.History

namespace Cognis.SessionCache

open List Option

open Memory (MemoryAliasState)
open SortByKey LateInsert CachedSessionState

variable {entry : CachedSessionState} {e : CachedEvent}

theorem Synced.applyCompaction (hs : Synced entry)
    (hdistinct : ∀ f ∈ entry.applied, f.seq = e.seq → f = e) (hpos : 1 ≤ e.seq)
    (hcompaction : e.isCompaction) (ho : OrderlySummary entry e) :
    Synced (entry.applyCompaction e) := by
  have hself : e ∈ entry.applied ++ [e] := mem_append_right _ (mem_singleton.mpr rfl)
  have hsame : e ∈ entry.applied → ∀ f, f ∈ entry.applied ++ [e] ↔ f ∈ entry.applied := by
    intro happlied f
    rw [mem_append, mem_singleton]
    exact or_iff_left_of_imp fun h => h ▸ happlied
  have hfresh : e ∉ entry.applied → ∀ f ∈ entry.applied, f.seq ≠ e.seq := by
    intro hnew f hf hseq
    exact hnew (hdistinct f hf hseq ▸ hf)
  refine ⟨hs.distinct.append hdistinct, ?_, ?_, ?_, ?_, .inr ⟨e, hself, hcompaction, rfl⟩, ?_, ?_⟩
  · intro f hf
    rcases mem_append.mp hf with hold | hlast
    · exact hs.positive f hold
    · rw [mem_singleton.mp hlast]
      exact hpos
  · intro x
    change x ∈ entry.events.filter (fun existing => e.seq < existing.seq) ↔ _
    rw [mem_filter, decide_eq_true_iff]
    exact hs.mem_cut ho.summary x
  · exact hs.nodup.sublist (filter_sublist.map _)
  · intro f hf hsummary
    rcases mem_append.mp hf with hold | hlast
    · exact (hs.summary_le f hold hsummary).trans ho.summary
    · rw [mem_singleton.mp hlast]
      exact Nat.le_refl _
  · change Decisions.Same entry.projectionDecisions
      ((behind (entry.applied ++ [e]) e.seq).foldl decideEvent .empty)
    refine hs.decisions.trans ?_
    by_cases happlied : e ∈ entry.applied
    · have hlast := Nat.le_antisymm ho.summary (hs.summary_le e happlied hcompaction)
      rw [behind_congr hs.distinct (hsame happlied), hlast]
      exact Decisions.Same.refl _
    · have hlater : entry.lastCompactionSeq < e.seq := by
        rcases hs.summary_mem with hzero | ⟨f, hf, -, hseq⟩
        · omega
        · have hne := hfresh happlied f hf
          have hle := ho.summary
          omega
      have hnone : ∀ f ∈ (ahead entry.applied e.seq).filter
          (fun f => decide (entry.lastCompactionSeq < f.seq)), f.decisions = [] := by
        intro f hf
        obtain ⟨hahead, hbehind⟩ := mem_filter.mp hf
        obtain ⟨happlied', hbefore⟩ := mem_ahead.mp hahead
        exact ho.decisions f happlied' (of_decide_eq_true hbehind) hbefore
      rw [behind_append_of_le hs.distinct (hfresh happlied) (Nat.le_refl _),
        (behind_append hs.distinct (hfresh happlied) hlater).2, foldl_append,
        foldl_decideEvent_nil hnone]
      exact Decisions.Same.refl _
  · change MemoryAliasState.Same entry.memoryAliases
      ((inOrder (entry.applied ++ [e])).foldl aliasEvent {})
    refine hs.aliases.trans ?_
    by_cases happlied : e ∈ entry.applied
    · rw [inOrder_congr hs.distinct (hsame happlied)]
      exact MemoryAliasState.Same.refl _
    · have hnothing : ∀ aliases, aliasEvent aliases e = aliases := by
        intro aliases
        unfold aliasEvent
        rw [ho.aliases.resolve_left happlied]
        rfl
      rw [inOrder_append hs.distinct (hfresh happlied),
        inOrder_split hs.distinct (hfresh happlied), foldl_append, foldl_append,
        foldl_cons, hnothing]
      exact MemoryAliasState.Same.refl _

theorem replay_withDecisions (entry : CachedSessionState) (held : Decisions)
    (events : List CachedEvent) :
    replay { entry with projectionDecisions := held } events =
      { entry.replay events with projectionDecisions := events.foldl heldAfter held } := by
  unfold replay
  induction events generalizing entry held with
  | nil => rfl
  | cons e events ih =>
    have hstep : CachedSessionState.applyCachedEvent { entry with projectionDecisions := held } e =
        { entry.applyCachedEvent e with projectionDecisions := heldAfter held e } := by
      rw [applyCachedEvent_eq, applyCachedEvent_eq]
      rfl
    rw [foldl_cons, foldl_cons, foldl_cons, hstep, ih]

theorem projectionDecisions_replay (entry : CachedSessionState) (events : List CachedEvent) :
    (entry.replay events).projectionDecisions = events.foldl heldAfter entry.projectionDecisions :=
  congrArg projectionDecisions (replay_withDecisions entry entry.projectionDecisions events)

variable {events : List CachedEvent}

theorem foldl_heldAfter_of_summary (h : ∃ e ∈ events, e.isCompaction) (held held' : Decisions) :
    events.foldl heldAfter held = events.foldl heldAfter held' := by
  induction events generalizing held held' with
  | nil =>
    obtain ⟨e, he, -⟩ := h
    cases he
  | cons first events ih =>
    rw [foldl_cons, foldl_cons]
    by_cases hrest : ∃ e ∈ events, e.isCompaction
    · exact ih hrest _ _
    · obtain ⟨e, he, hcompaction⟩ := h
      have hfirst : first.isCompaction := by
        rcases mem_cons.mp he with rfl | hlater
        · exact hcompaction
        · exact absurd ⟨e, hlater, hcompaction⟩ hrest
      unfold heldAfter
      rw [if_pos hfirst, if_pos hfirst]

theorem foldl_heldAfter_of_plain (h : ∀ e ∈ events, e.isCompaction = false) (held : Decisions) :
    events.foldl heldAfter held = events.foldl decideEvent held := by
  induction events generalizing held with
  | nil => rfl
  | cons e events ih =>
    have hstep : heldAfter held e = decideEvent held e := by
      unfold heldAfter
      rw [h e mem_cons_self]
      rfl
    rw [foldl_cons, foldl_cons, hstep]
    exact ih (fun f hf => h f (mem_cons_of_mem _ hf)) _

theorem get?_foldl_decideEvent (events : List CachedEvent) (held : Decisions) (callId : String) :
    (events.foldl decideEvent held).get? callId =
      if events.flatMap (decisionsOn · callId) = [] then held.get? callId
      else some (LateInsert.appendNew ((held.get? callId).getD [])
        (events.flatMap (decisionsOn · callId))) := by
  induction events generalizing held with
  | nil => rfl
  | cons e events ih =>
    rw [foldl_cons, ih, get?_decideEvent, flatMap_cons]
    by_cases hfirst : decisionsOn e callId = []
    · rw [if_pos hfirst, hfirst, nil_append]
    · rw [if_neg hfirst, if_neg (append_ne_nil_of_left_ne_nil hfirst _), getD_some]
      split_ifs with hrest
      · rw [hrest, append_nil]
      · unfold LateInsert.appendNew
        rw [foldl_append]

theorem foldl_decideEvent_of_prefix {held : Decisions}
    (h : ∀ callId items, held.get? callId = some items →
      ∃ all, (events.foldl decideEvent .empty).get? callId = some all ∧ items <+: all) :
    Decisions.Same (events.foldl decideEvent held) (events.foldl decideEvent .empty) := by
  intro callId
  have hempty : (OrderedMap.empty : Decisions).get? callId = none := rfl
  cases hheld : held.get? callId with
  | none => rw [get?_foldl_decideEvent, get?_foldl_decideEvent, hheld, hempty]
  | some items =>
    obtain ⟨all, hall, hprefix⟩ := h callId items hheld
    rw [get?_foldl_decideEvent, hempty] at hall
    rw [get?_foldl_decideEvent, get?_foldl_decideEvent, hheld, hempty]
    split_ifs at hall ⊢ with hnone
    rw [some.injEq] at hall
    rw [← hall, getD_none] at hprefix
    rw [getD_some, getD_none, appendNew_of_prefix List.nil_prefix hprefix]

theorem ResetKeeps.same {held : Decisions} (h : ResetKeeps events held) :
    Decisions.Same (events.foldl heldAfter held) (events.foldl heldAfter .empty) := by
  by_cases hsummary : ∃ e ∈ events, e.isCompaction
  · rw [foldl_heldAfter_of_summary hsummary held .empty]
    exact Decisions.Same.refl _
  · have hplain : ∀ e ∈ events, e.isCompaction = false := by
      intro e he
      rw [← Bool.not_eq_true]
      exact fun hcompaction => hsummary ⟨e, he, hcompaction⟩
    rw [foldl_heldAfter_of_plain hplain, foldl_heldAfter_of_plain hplain]
    exact foldl_decideEvent_of_prefix (h.resolve_left hsummary)

variable {read : List CachedEvent}

theorem synced_replaceFromIntarisEvents {log : List SessionEvent} (entry : CachedSessionState)
    (hread : ∀ f ∈ read, f ∈ eventsAfter log 0) (hascending : Ascending CachedEvent.seq read)
    (hkeeps : ResetKeeps read entry.projectionDecisions) :
    Synced (entry.replaceFromIntarisEvents read) ∧
      Sorted (entry.replaceFromIntarisEvents read) := by
  let cleared : CachedSessionState :=
    { entry with
      events := []
      eventSeqs := []
      lastEventSeq := 0
      lastCompactionSeq := 0
      lastCompactionSummary := none
      memoryAliases := {}
      applied := [] }
  let fresh : CachedSessionState := { cleared with projectionDecisions := .empty }
  have hfresh : Synced fresh := synced_fresh fresh rfl rfl rfl rfl rfl
  have hnothing : ∀ f ∈ fresh.applied, f ∈ eventsAfter log 0 := fun f hf => absurd hf not_mem_nil
  have hmeets := hfresh.meets_ascending hnothing hread hascending fun f hf => absurd hf not_mem_nil
  have hreplayed := hfresh.replay hnothing hread (OrderlyRead.orderly_of_meets hmeets)
  have hcleared : cleared.replay read = { fresh.replay read with
        projectionDecisions := read.foldl heldAfter entry.projectionDecisions } :=
    replay_withDecisions fresh entry.projectionDecisions read
  have hheld : (fresh.replay read).projectionDecisions = read.foldl heldAfter .empty :=
    projectionDecisions_replay fresh read
  have hsame : Decisions.Same (read.foldl heldAfter entry.projectionDecisions)
      (fresh.replay read).projectionDecisions := by
    rw [hheld]
    exact hkeeps.same
  have hsynced : Synced (cleared.replay read) := by
    rw [hcleared]
    exact hreplayed.congr rfl (Perm.refl _) rfl hsame rfl
  have hrecorded : cleared.recordedEvents read = read := by
    unfold recordedEvents
    rw [filter_eq_self]
    intro e _
    rfl
  have hempty : Sorted cleared := List.Pairwise.nil
  have hsorted : Sorted (cleared.replay read) :=
    hempty.replay hascending fun x hx => absurd hx not_mem_nil
  refine Synced.of_loop hascending (hrecorded.symm ▸ hsynced) (.inr ?_)
  rw [applyIntarisEvents_loop (nodup_seqs hascending), hrecorded]
  exact hsorted

theorem projectionDecisions_applyIntarisEvents (entry : CachedSessionState)
    (hascending : Ascending CachedEvent.seq read) :
    (entry.applyIntarisEvents read).projectionDecisions =
      (entry.recordedEvents read).foldl heldAfter entry.projectionDecisions := by
  have hloop : (read.foldl CachedSessionState.applyIntarisEvent (entry, false)).1 = _ :=
    applyIntarisEvents_loop (nodup_seqs hascending)
  rw [← projectionDecisions_replay]
  unfold CachedSessionState.applyIntarisEvents
  dsimp only
  rw [sortBy_eq_self hascending, hloop]
  split
  · rfl
  · rfl

namespace CacheRun

/-- The condition on a refresh. -/
structure RefreshKeeps (log : List SessionEvent) (entry : CachedSessionState)
    (replies : ReadReplies) : Prop where
  /-- A full read finds the decisions that are held, or cuts them. -/
  cold : entry.initialized = false ∨ entry.canonicalStale = true → replies.fails = false →
    ResetKeeps (eventsAfter log 0) entry.projectionDecisions
  /-- The events behind the watermark come where they may. -/
  warm : entry.initialized = true → entry.canonicalStale = false → replies.fails = false →
    rebuilds replies (eventsAfter log entry.lastEventSeq) = false →
      Runs.Meets CachedSessionState.applyCachedEvent OrderlyRead entry
        (entry.recordedEvents (eventsAfter log entry.lastEventSeq))
  /-- A second read finds the decisions that are held then, or cuts them. -/
  rebuilt : entry.initialized = true → entry.canonicalStale = false → replies.fails = false →
    rebuilds replies (eventsAfter log entry.lastEventSeq) = true → replies.rebuildFails = false →
      ResetKeeps (eventsAfter log 0)
        ((entry.recordedEvents (eventsAfter log entry.lastEventSeq)).foldl heldAfter
          entry.projectionDecisions)

/-- The condition on a step. -/
def InOrder (s : CacheRun) : CacheEvent → Prop
  | .refresh replies => RefreshKeeps s.log s.entry replies
  | .acquireContextSnapshot replies =>
    s.entry.initialized = false ∨ s.entry.canonicalStale = true → RefreshKeeps s.log s.entry replies
  | .appendRecorded firstSeq count =>
    s.entry.canonicalStale = false → 1 ≤ firstSeq → 1 ≤ count →
      firstSeq + count ≤ s.log.length + 1 →
        Runs.Meets CachedSessionState.applyCachedEvent Orderly s.entry
          (s.entry.recordedEvents (s.batch firstSeq count))
  | .applyCompaction seq =>
    s.entry.canonicalStale = false → ∀ e ∈ eventsAfter s.log 0, e.seq = seq →
      e.isCompaction = true → OrderlySummary s.entry e
  | _ => True

/-- Unless it is stale, the entry is what a replay gives. -/
structure Kept (s : CacheRun) : Prop where
  sound : s.Sound
  synced : s.entry.canonicalStale = false → Synced s.entry ∧ Sorted s.entry

variable {s : CacheRun}

theorem Kept.refreshed (hs : s.Kept) {replies : ReadReplies}
    (h : RefreshKeeps s.log s.entry replies)
    (hfresh : (refreshed s.log s.entry replies).canonicalStale = false) :
    Synced (refreshed s.log s.entry replies) ∧ Sorted (refreshed s.log s.entry replies) := by
  have hall : ∀ f ∈ eventsAfter s.log 0, f ∈ eventsAfter s.log 0 := fun f hf => hf
  have hascending := ascending_eventsAfter s.log 0
  revert hfresh
  unfold CacheRun.refreshed
  dsimp only
  split_ifs with hcold hfails hfails hrebuilds hrebuildFails
  · intro hfresh
    cases hfresh
  · intro _
    have hstate : s.entry.initialized = false ∨ s.entry.canonicalStale := by
      simpa using hcold
    obtain ⟨hsynced, hsorted⟩ := synced_replaceFromIntarisEvents s.entry hall hascending
      (h.cold hstate (by simpa using hfails))
    exact ⟨hsynced.congr rfl (Perm.refl _) rfl (Decisions.Same.refl _) rfl, hsorted⟩
  · intro hfresh
    cases hfresh
  all_goals
    have hstate : s.entry.initialized ∧ s.entry.canonicalStale = false := by
      simpa using hcold
    have hreads : replies.fails = false := by simpa using hfails
  · intro hfresh
    cases hfresh
  · intro _
    have hheld := projectionDecisions_applyIntarisEvents s.entry
      (ascending_eventsAfter s.log s.entry.lastEventSeq)
    have hkeeps := h.rebuilt hstate.1 hstate.2 hreads hrebuilds (by simpa using hrebuildFails)
    rw [← hheld] at hkeeps
    obtain ⟨hsynced, hsorted⟩ := synced_replaceFromIntarisEvents _ hall hascending hkeeps
    exact ⟨hsynced.congr rfl (Perm.refl _) rfl (Decisions.Same.refl _) rfl, hsorted⟩
  · intro _
    obtain ⟨hsynced, hsorted⟩ := hs.synced hstate.2
    have hread : ∀ f ∈ eventsAfter s.log s.entry.lastEventSeq, f ∈ eventsAfter s.log 0 :=
      fun f hf => (mem_eventsAfter_zero.mp hf).2
    obtain ⟨hsynced', hsorted'⟩ := hsynced.applyIntarisEvents hsorted hs.sound.logged hread
      (ascending_eventsAfter _ _) (h.warm hstate.1 hstate.2 hreads (by simpa using hrebuilds))
    exact ⟨hsynced'.congr rfl (Perm.refl _) rfl (Decisions.Same.refl _) rfl, hsorted'⟩

theorem Kept.step (hs : s.Kept) {event : CacheEvent} (h : s.InOrder event) :
    (s.step event).Kept := by
  refine ⟨hs.sound.step event, ?_⟩
  cases event with
  | write => exact hs.synced
  | refresh => exact hs.refreshed h
  | acquireContextSnapshot =>
    simp only [CacheRun.step]
    split_ifs with hserves
    · exact hs.synced
    · apply hs.refreshed (h ?_)
      simpa [Classical.or_iff_not_imp_left] using hserves
  | appendRecorded firstSeq count =>
    simp only [CacheRun.step]
    split_ifs with hacknowledged
    · obtain ⟨hfirst, hcount, hlength⟩ := hacknowledged
      have hascending := ascending_batch s firstSeq count
      obtain ⟨-, -, -, -, hstale, -⟩ :=
        appendRecordedEvents_fields s.entry hascending firstSeq (firstSeq + count - 1)
      intro hfresh
      have hbefore : s.entry.canonicalStale = false := hstale.symm.trans hfresh
      obtain ⟨hsynced, hsorted⟩ := hs.synced hbefore
      exact hsynced.appendRecordedEvents hsorted hs.sound.logged
        (fun f hf => ((mem_batch hfirst).mp hf).1) hascending
        (h hbefore hfirst hcount hlength) firstSeq (firstSeq + count - 1)
    · exact hs.synced
  | applyCompaction seq =>
    rcases step_applyCompaction s seq with ⟨e, he, rfl, hcompaction, hstep⟩ | ⟨-, hstep⟩
    · rw [hstep]
      intro hfresh
      obtain ⟨hsynced, hsorted⟩ := hs.synced hfresh
      have hdistinct : ∀ f ∈ s.entry.applied, f.seq = e.seq → f = e :=
        fun f hf hseq => seq_inj (hs.sound.logged f hf) he hseq
      refine ⟨hsynced.applyCompaction hdistinct (seq_pos he) hcompaction
        (h hfresh e he rfl hcompaction), ?_⟩
      exact hsorted.sublist filter_sublist
    · rw [hstep]
      exact hs.synced
  | invalidateCanonical =>
    intro hfresh
    cases hfresh

theorem kept_start : Kept {} :=
  ⟨sound_start, fun _ => ⟨synced_fresh {} rfl rfl rfl rfl rfl, List.Pairwise.nil⟩⟩

end CacheRun

theorem Synced.same {entry' : CachedSessionState} (hs : Synced entry) (h : Sorted entry)
    (hs' : Synced entry') (h' : Sorted entry')
    (happlied : ∀ e, e ∈ entry'.applied ↔ e ∈ entry.applied) :
    entry'.events = entry.events ∧ entry'.lastCompactionSeq = entry.lastCompactionSeq ∧
      MemoryAliasState.Same entry'.memoryAliases entry.memoryAliases ∧
      Decisions.Same entry'.projectionDecisions entry.projectionDecisions := by
  have hle : ∀ {a b : CachedSessionState}, Synced a → Synced b →
      (∀ e, e ∈ b.applied ↔ e ∈ a.applied) → b.lastCompactionSeq ≤ a.lastCompactionSeq := by
    intro a b ha hb hmem
    rcases hb.summary_mem with hzero | ⟨e, he, hcompaction, hseq⟩
    · omega
    · exact hseq ▸ ha.summary_le e ((hmem e).mp he) hcompaction
  have hsummary : entry'.lastCompactionSeq = entry.lastCompactionSeq :=
    Nat.le_antisymm (hle hs hs' happlied) (hle hs' hs fun e => (happlied e).symm)
  have hevents : ∀ x, x ∈ entry'.events ↔ x ∈ entry.events := by
    intro x
    have hvisible : Visible entry'.applied entry'.lastCompactionSeq x ↔
        Visible entry.applied entry.lastCompactionSeq x := by
      rw [hsummary]
      unfold Visible
      simp only [happlied]
    rw [hs'.events, hs.events, happlied, hvisible]
  refine ⟨?_, hsummary, ?_, ?_⟩
  · have hperm : entry'.events.Perm entry.events :=
      (perm_ext_iff_of_nodup (Nodup.of_map _ hs'.nodup) (Nodup.of_map _ hs.nodup)).mpr hevents
    rw [← sortBy_eq_self h, sortBy_eq_of_perm h' hperm.symm]
  · have hlog := hs'.aliases
    rw [inOrder_congr hs.distinct happlied] at hlog
    exact hlog.trans hs.aliases.symm
  · have hlog := hs'.decisions
    rw [hsummary, behind_congr hs.distinct happlied] at hlog
    exact hlog.trans hs.decisions.symm

open CacheRun

/-- In a run whose steps come where they may, an entry that has applied the first `n` events holds
what a full read of them leaves. -/
theorem cached_history_same (events : List CacheEvent)
    (h : Runs.Meets CacheRun.step InOrder {} events) :
    ∀ pre, pre <+: events → ∀ n,
      let s := Runs.run CacheRun.step {} pre
      let first := (eventsAfter s.log 0).filter fun e => decide (e.seq ≤ n)
      let fresh := replaceFromIntarisEvents {} first
      s.entry.initialized → s.entry.canonicalStale = false →
        (∀ e, e ∈ s.entry.applied ↔ e ∈ first) →
          s.entry.events = fresh.events ∧ s.entry.lastCompactionSeq = fresh.lastCompactionSeq ∧
            MemoryAliasState.Same s.entry.memoryAliases fresh.memoryAliases ∧
            Decisions.Same s.entry.projectionDecisions fresh.projectionDecisions := by
  rintro pre ⟨rest, rfl⟩ n s first fresh _ hfresh happlied
  have hpre : Runs.Meets CacheRun.step InOrder {} pre := (Runs.meets_append.mp h).1
  have hkept :
    s.Kept := Runs.run_invariant_of_meets Kept (fun _ _ hs h => hs.step h) kept_start hpre
  obtain ⟨hsynced, hsorted⟩ := hkept.synced hfresh
  have hfirst : ∀ f ∈ first, f ∈ eventsAfter s.log 0 := fun f hf => mem_of_mem_filter hf
  have hascending : Ascending CachedEvent.seq first :=
    (ascending_eventsAfter s.log 0).sublist filter_sublist
  have hkeeps : ResetKeeps first .empty := by
    right
    intro callId items hnone
    cases hnone
  obtain ⟨hsynced', hsorted'⟩ := synced_replaceFromIntarisEvents {} hfirst hascending hkeeps
  have hread : fresh.applied = first := (replaceFromIntarisEvents_fields {} hascending).1
  apply hsynced'.same hsorted' hsynced hsorted
  intro e
  rw [happlied, show (replaceFromIntarisEvents {} first).applied = first from hread]

/-- A message has its place wherever it comes. -/
theorem orderlyRead_of_plain (hnew : e ∉ entry.applied) (hplain : e.isCompaction = false)
    (hdecides : e.decisions = []) (haliases : e.aliasDelta = none)
      (hloads : e.legacySkillId = none) :
    OrderlyRead entry e := by
  refine ⟨⟨fun hmem => absurd hmem hnew, ?_, ?_, ?_, ?_, ?_, ?_⟩, ?_⟩
  · intro hcompaction
    rw [hplain] at hcompaction
    cases hcompaction
  · intro hcompaction
    rw [hplain] at hcompaction
    cases hcompaction
  · intro _ _ p hp
    rw [hdecides] at hp
    cases hp
  · intro _ _ _ _ _ callId
    left
    rw [decisionsOn, hdecides]
    rfl
  · intro _ _ _ a ha
    rw [haliases] at ha
    cases ha
  · exact fun _ _ _ hload => absurd hloads hload
  · exact fun _ _ _ hload => absurd hloads hload

/-- The second message is read after the third, and a summary covers them all. -/
def lateEvents : List CacheEvent :=
  [.write ⟨"user_message", []⟩, .refresh {}, .write ⟨"assistant_message", []⟩,
    .write ⟨"user_message", []⟩, .appendRecorded 3 1, .refresh {},
    .write ⟨"compaction_summary", [("summary", .str "text")]⟩, .applyCompaction 4]

theorem lateEvents_inOrder : Runs.Meets CacheRun.step InOrder {} lateEvents := by
  refine ⟨trivial, ⟨fun _ _ => .inr ?_, ?_, ?_⟩, trivial, trivial, ?_, ⟨?_, ?_, ?_⟩, trivial, ?_,
    trivial⟩
  · intro callId items hnone
    cases hnone
  · intro hopen
    cases hopen
  · intro hopen
    cases hopen
  · intro _ _ _ _
    exact ⟨(orderlyRead_of_plain (by decide) rfl (by decide) (by decide) (by decide)).1, trivial⟩
  · intro hcold
    exact absurd hcold (by decide)
  · intro _ _ _ _
    exact ⟨orderlyRead_of_plain (by decide) rfl (by decide) (by decide) (by decide), trivial⟩
  · intro _ _ _ hrebuilds
    exact absurd hrebuilds (by decide)
  · intro _ e he hseq _
    refine ⟨Nat.zero_le _, .inr ?_, ?_⟩
    · revert e
      decide
    · intro f hf hcut hbefore
      clear hcut hbefore
      revert f
      decide

theorem lateEvents_same_history :
    let s := Runs.run CacheRun.step {} lateEvents
    s.entry.applied.map CachedEvent.seq = [1, 3, 2, 4] ∧
      s.entry.events = (replaceFromIntarisEvents {} (eventsAfter s.log 0)).events := by
  refine ⟨by decide, ?_⟩
  exact (cached_history_same lateEvents lateEvents_inOrder lateEvents (prefix_refl _) 4 rfl rfl
    fun e => Perm.mem_iff (by decide)).1

def summaryEvents : List CacheEvent :=
  [.write ⟨"lifecycle", [("event", .str "context_projection"),
      ("decisions", .arr [.obj [("operation", .str "omit_tool_group"), ("call_id", .str "call"),
        ("rendering_policy_version", .num "1")]])]⟩,
    .refresh {}, .write ⟨"compaction_summary", [("summary", .str "text")]⟩, .applyCompaction 2]

theorem summary_keeps_decisions :
    let s := Runs.run CacheRun.step {} summaryEvents
    let fresh := replaceFromIntarisEvents {} (eventsAfter s.log 0)
    s.entry.initialized ∧ s.entry.canonicalStale = false ∧
      s.entry.applied = eventsAfter s.log 0 ∧ s.log.length = 2 ∧
      s.entry.projectionDecisions.get? "call" = some [⟨"omit_tool_group", 1, []⟩] ∧
      fresh.projectionDecisions.get? "call" = none ∧
      ¬ Decisions.Same s.entry.projectionDecisions fresh.projectionDecisions := by
  refine ⟨by decide, by decide, by decide, by decide, by decide, by decide, ?_⟩
  intro h
  have hcall := h "call"
  revert hcall
  decide

end Cognis.SessionCache
