import Cognis.Library.Runs
import Cognis.Timeline.Item

namespace Cognis.Timeline

open Bool List

inductive ItemKind where
  | message (role : MessageRole)
  | thinking | toolCall | handoff | compaction
  | other (kind : OtherKind)
  deriving DecidableEq

namespace TimelineItem

variable (item : TimelineItem)

def hasEnded : Bool :=
  match item.body with
  | .toolCall _ | .handoff _ => isTerminalStatus item.status.get
  | .message m => m.role = .assistant && isTerminalStatus item.status.get
  | .compaction _ =>
    item.status.get = some .compacted || item.status.get = some .failed
      || item.status.get = some .skipped
  | _ => false

/-- `running` or `pending`. -/
def isOpen : Bool :=
  item.status.get = some .running || item.status.get = some .pending

def kind : ItemKind :=
  match item.body with
  | .message m => .message m.role
  | .thinking _ => .thinking
  | .toolCall _ => .toolCall
  | .handoff _ => .handoff
  | .compaction _ => .compaction
  | .other o => .other o.kind

def WellTyped : Prop :=
  match item.body with
  | .handoff _ =>
    (∀ status, item.status.get = some status →
      status ∈ [TimelineItemStatus.running, .complete, .failed]) ∧
    ∀ ref ∈ item.sourceRefs, ':' ∉ ref.eventType.toList
  | .compaction _ =>
    ∃ status ∈ [TimelineItemStatus.running, .compacted, .failed, .skipped],
      item.status.get = some status
  | _ => True

end TimelineItem

def mergedVersions (first : TimelineItem) (versions : List TimelineItem) : TimelineItem :=
  Runs.run mergeTimelineItem first versions

/-- An assistant message that ended takes a running or pending version that nothing holds back:
the message is no resolved notice, nor complete while the version runs. -/
def Reopens (first : TimelineItem) (before : List TimelineItem) (version : TimelineItem) : Prop :=
  (∃ m, (mergedVersions first before).body = .message m ∧ m.role = .assistant ∧
    keepsHeldMessage (mergedVersions first before) version m = false) ∧
  version.isOpen = true ∧ ∃ earlier, earlier <+: before ∧
    (mergedVersions first earlier).hasEnded = true

variable {e i : TimelineItem}

open TimelineItem

theorem kind_cases (h : e.kind = i.kind) :
    (∃ m m', e.body = .message m ∧ i.body = .message m' ∧ m.role = m'.role) ∨
    (∃ t t', e.body = .thinking t ∧ i.body = .thinking t') ∨
    (∃ t t', e.body = .toolCall t ∧ i.body = .toolCall t') ∨
    (∃ t t', e.body = .handoff t ∧ i.body = .handoff t') ∨
    (∃ c c', e.body = .compaction c ∧ i.body = .compaction c') ∨
    ∃ o o', e.body = .other o ∧ i.body = .other o' ∧ o.kind = o'.kind := by
  unfold TimelineItem.kind at h
  cases he : e.body <;> cases hi : i.body <;> simp_all

section

variable {m m' : MessageTimelineItem} {t t' : ThinkingTimelineItem} {c c' : ToolCallTimelineItem}
  {h h' : HandoffTimelineItem} {k k' : CompactionTimelineItem} {o o' : OtherTimelineItem}

theorem merge_message (he : e.body = .message m) (hi : i.body = .message m') :
    mergeTimelineItem e i = mergeMessageItem e i m m' (mergedSortKey e i) := by
  simp only [mergeTimelineItem, he, hi]

theorem merge_thinking (he : e.body = .thinking t) (hi : i.body = .thinking t') :
    mergeTimelineItem e i = mergeThinkingItem e i t t' (mergedSortKey e i) := by
  simp only [mergeTimelineItem, he, hi]

theorem merge_toolCall (he : e.body = .toolCall c) (hi : i.body = .toolCall c') :
    mergeTimelineItem e i = mergeToolCallItem e i c c' (mergedSortKey e i) := by
  simp only [mergeTimelineItem, he, hi]

theorem merge_handoff (he : e.body = .handoff h) (hi : i.body = .handoff h') :
    mergeTimelineItem e i = mergeHandoff e i h h' (mergedSortKey e i) := by
  simp only [mergeTimelineItem, he, hi]

theorem merge_compaction (he : e.body = .compaction k) (hi : i.body = .compaction k') :
    mergeTimelineItem e i = mergeCompaction e i k k' (mergedSortKey e i) := by
  simp only [mergeTimelineItem, he, hi]

theorem merge_other (he : e.body = .other o) (hi : i.body = .other o') :
    mergeTimelineItem e i = mergeOther e i o o' (mergedSortKey e i) := by
  simp only [mergeTimelineItem, he, hi]

end

theorem kind_merge (hkind : e.kind = i.kind) : (mergeTimelineItem e i).kind = e.kind := by
  rcases kind_cases hkind with ⟨m, m', hem, him, hrole⟩ | ⟨t, t', het, hit⟩ | ⟨t, t', het, hit⟩ |
    ⟨t, t', het, hit⟩ | ⟨c, c', hec, hic⟩ | ⟨o, o', heo, hio, hother⟩
  · rw [merge_message hem him]
    unfold mergeMessageItem
    rw [if_neg (not_not.mpr hrole)]
    split_ifs
    · rfl
    · rw [hkind]
      simp only [kind, him]
      rfl
  · rw [merge_thinking het hit]
    simp only [kind, het]
    rfl
  · rw [merge_toolCall het hit]
    simp only [kind, het]
    rfl
  · rw [merge_handoff het hit]
    simp only [kind, het]
    rfl
  · rw [merge_compaction hec hic]
    unfold mergeCompaction
    split_ifs
    · rfl
    · simp only [kind, hec]
      rfl
  · rw [merge_other heo hio]
    unfold mergeOther
    rw [if_pos hother, hkind]
    simp only [kind, hio]
    rfl

variable {item first : TimelineItem} {versions : List TimelineItem}

theorem isOpen_eq_false_iff :
    item.isOpen = false ↔ item.status.get ≠ some .running ∧ item.status.get ≠ some .pending := by
  simp [isOpen]

theorem isOpen_congr {a b : TimelineItem} (h : a.status.get = b.status.get) :
    a.isOpen = b.isOpen := by
  simp only [TimelineItem.isOpen, h]

theorem isOpen_of_terminal (h : isTerminalStatus item.status.get) : item.isOpen = false := by
  rw [isOpen_eq_false_iff]
  constructor
  · intro hstatus
    rw [hstatus] at h
    cases h
  · intro hstatus
    rw [hstatus] at h
    cases h

/-- What keeps an item of a kind that ends from being taken back: a tool call has ended, the others
are not open. -/
def Settled (item : TimelineItem) : Prop :=
  match item.body with
  | .toolCall _ => isTerminalStatus item.status.get = true
  | .handoff _ | .compaction _ => item.isOpen = false
  | .message m => m.role = .assistant ∧ item.isOpen = false
  | _ => False

theorem Settled.isOpen (h : Settled item) : item.isOpen = false := by
  unfold Settled at h
  split at h
  · exact isOpen_of_terminal h
  · exact h
  · exact h
  · exact h.2
  · exact h.elim

theorem settled_of_hasEnded (h : item.hasEnded) : Settled item := by
  revert h
  unfold Settled hasEnded
  cases item.body with
  | toolCall t => exact id
  | handoff t => exact isOpen_of_terminal
  | message m =>
    intro h
    rw [and_eq_true, decide_eq_true_iff] at h
    exact ⟨h.1, isOpen_of_terminal h.2⟩
  | compaction c =>
    intro h
    simp only [or_eq_true, decide_eq_true_eq] at h
    change item.isOpen = false
    rw [isOpen_eq_false_iff]
    rcases h with (h | h) | h
    · rw [h]
      decide
    · rw [h]
      decide
    · rw [h]
      decide
  | thinking t | other o =>
    intro h
    cases h

theorem Settled.mergeToolCall {t t' : ToolCallTimelineItem} (h : Settled e)
    (he : e.body = .toolCall t) (hi : i.body = .toolCall t') : Settled (mergeTimelineItem e i) := by
  have hterminal : isTerminalStatus e.status.get := by
    simpa only [Settled, he] using h
  rw [merge_toolCall he hi]
  change isTerminalStatus (JsField.ofOption (if isTerminalStatus e.status.get &&
    !isTerminalStatus i.status.get then e.status else i.status).get).get
  rw [JsField.get_ofOption, hterminal, Bool.true_and]
  split_ifs with hincoming
  · exact hterminal
  · simpa using hincoming

theorem Settled.mergeHandoff {t t' : HandoffTimelineItem} (h : Settled e) (htyped : WellTyped i)
    (he : e.body = .handoff t) (hi : i.body = .handoff t') : Settled (mergeTimelineItem e i) := by
  have hheld : e.isOpen = false := by
    simpa only [Settled, he] using h
  obtain ⟨hrunning, hpending⟩ := isOpen_eq_false_iff.mp hheld
  have hincoming : i.status.get ≠ some .pending := by
    intro hstatus
    simp only [WellTyped, hi] at htyped
    exact absurd (htyped.1 _ hstatus) (by decide)
  rw [merge_handoff he hi]
  change (Timeline.mergeHandoff e i t t' (mergedSortKey e i)).isOpen = false
  rw [isOpen_eq_false_iff]
  by_cases hnewer : handoffRevision e ≤ handoffRevision i
  · simp only [Timeline.mergeHandoff, hnewer, if_true, JsField.get_ofOption]
    split_ifs with hruns
    · exact ⟨hrunning, hpending⟩
    · refine ⟨?_, hincoming⟩
      intro hstatus
      exact hruns ⟨hstatus, hrunning⟩
  · simp only [Timeline.mergeHandoff, hnewer, if_false, JsField.get_ofOption]
    rw [if_neg fun hruns => hrunning hruns.1]
    exact ⟨hrunning, hpending⟩

theorem Settled.mergeCompaction {c c' : CompactionTimelineItem} (h : Settled e)
    (htyped : WellTyped i) (he : e.body = .compaction c) (hi : i.body = .compaction c') :
    Settled (mergeTimelineItem e i) := by
  have hheld : e.isOpen = false := by
    simpa only [Settled, he] using h
  obtain ⟨hrunning, -⟩ := isOpen_eq_false_iff.mp hheld
  rw [merge_compaction he hi]
  unfold Timeline.mergeCompaction
  split_ifs with hkept
  · exact h
  · simp only [WellTyped, hi] at htyped
    obtain ⟨status, hmem, hstatus⟩ := htyped
    change (spreadBase e i _ _).isOpen = false
    have hspread : (e.status.spread i.status).get = some status := by
      cases hfield : i.status with
      | absent | null =>
        rw [hfield] at hstatus
        cases hstatus
      | value s =>
        rw [← hstatus, hfield]
        rfl
    rw [isOpen_eq_false_iff]
    change (e.status.spread i.status).get ≠ _ ∧ (e.status.spread i.status).get ≠ _
    rw [hspread]
    constructor
    · intro hruns
      exact hkept ⟨hrunning, hstatus.trans hruns⟩
    · intro hpends
      rw [Option.some.inj hpends] at hmem
      exact absurd hmem (by decide)

variable {m m' : MessageTimelineItem}

theorem Settled.mergeMessage (h : Settled e) (hrole : m.role = m'.role)
    (hheld : keepsHeldMessage e i m = false → i.isOpen = false) (he : e.body = .message m)
    (hi : i.body = .message m') : Settled (mergeTimelineItem e i) := by
  have hsettled : m.role = .assistant ∧ e.isOpen = false := by
    simpa only [Settled, he] using h
  rw [merge_message he hi]
  unfold mergeMessageItem
  rw [if_neg (not_not.mpr hrole)]
  split_ifs with hkept
  · exact h
  · refine ⟨hrole ▸ hsettled.1, ?_⟩
    have hincoming := hheld (by simpa using hkept)
    rw [isOpen_eq_false_iff] at hincoming ⊢
    obtain ⟨hrunning, hpending⟩ := isOpen_eq_false_iff.mp hsettled.2
    change (e.status.spread i.status).get ≠ _ ∧ (e.status.spread i.status).get ≠ _
    rcases JsField.get_spread e.status i.status with hget | hget
    · rw [hget]
      exact hincoming
    · rw [hget]
      exact ⟨hrunning, hpending⟩

theorem Settled.merge (h : Settled e) (hkind : e.kind = i.kind) (htyped : WellTyped i)
    (hheld : ∀ m, e.body = .message m → keepsHeldMessage e i m = false → i.isOpen = false) :
    Settled (mergeTimelineItem e i) := by
  rcases kind_cases hkind with ⟨m, m', he, hi, hrole⟩ | ⟨t, t', he, _⟩ | ⟨t, t', he, hi⟩ |
    ⟨t, t', he, hi⟩ | ⟨c, c', he, hi⟩ | ⟨o, o', he, _, -⟩
  · exact h.mergeMessage hrole (hheld m he) he hi
  · simp only [Settled, he] at h
  · exact h.mergeToolCall he hi
  · exact h.mergeHandoff htyped he hi
  · exact h.mergeCompaction htyped he hi
  · simp only [Settled, he] at h

theorem isOpen_merge_message (he : e.body = .message m) (hi : i.body = .message m')
    (hrole : m.role = m'.role) (hkept : keepsHeldMessage e i m = false) (hopen : i.isOpen) :
    (mergeTimelineItem e i).isOpen := by
  rw [merge_message he hi]
  unfold mergeMessageItem
  rw [if_neg (not_not.mpr hrole), if_neg (by simp [hkept])]
  have hstatus : (e.status.spread i.status).get = i.status.get := by
    cases hfield : i.status with
    | absent =>
      unfold TimelineItem.isOpen at hopen
      rw [hfield] at hopen
      cases hopen
    | null | value s => rfl
  exact (isOpen_congr hstatus).trans hopen

theorem mergedVersions_append (first : TimelineItem) (before : List TimelineItem)
    (version : TimelineItem) :
    mergedVersions first (before ++ [version]) =
      mergeTimelineItem (mergedVersions first before) version := by
  unfold mergedVersions
  rw [Runs.run_append]
  rfl

theorem kind_mergedVersions (hkind : ∀ v ∈ versions, v.kind = first.kind) :
    (mergedVersions first versions).kind = first.kind := by
  induction versions using reverseRecOn with
  | nil => rfl
  | append_singleton before version ih =>
    have hbefore := ih fun v hv => hkind v (mem_append_left _ hv)
    have hversion := hkind version (mem_append_right _ (mem_singleton.mpr rfl))
    rw [mergedVersions_append, kind_merge (hbefore.trans hversion.symm), hbefore]

theorem settled_of_ended (htyped : ∀ v ∈ versions, WellTyped v)
    (hkind : ∀ v ∈ versions, v.kind = first.kind)
    (hreopens : ∀ before version, before ++ [version] <+: versions →
      ¬ Reopens first before version)
    {earlier : List TimelineItem} (hearlier : earlier <+: versions)
    (hended : (mergedVersions first earlier).hasEnded) :
    Settled (mergedVersions first versions) := by
  induction versions using reverseRecOn with
  | nil =>
    rw [prefix_nil.mp hearlier] at hended
    exact settled_of_hasEnded hended
  | append_singleton before version ih =>
    rcases prefix_concat_iff.mp hearlier with rfl | hbefore
    · exact settled_of_hasEnded hended
    · have hsettled := ih (fun v hv => htyped v (mem_append_left _ hv))
        (fun v hv => hkind v (mem_append_left _ hv))
        (fun pre v hpre => hreopens pre v (hpre.trans (prefix_append _ _))) hbefore
      have hmem : version ∈ before ++ [version] :=
        mem_append_right _ (mem_singleton.mpr rfl)
      have hheld : (mergedVersions first before).kind = version.kind :=
        (kind_mergedVersions fun v hv => hkind v (mem_append_left _ hv)).trans
          (hkind version hmem).symm
      rw [mergedVersions_append]
      apply hsettled.merge hheld (htyped version hmem)
      intro m hm hkept
      by_contra hopen
      rw [not_eq_false] at hopen
      have hassistant : m.role = .assistant := by
        simp only [Settled, hm] at hsettled
        exact hsettled.1
      exact hreopens before version (prefix_refl _)
        ⟨⟨m, hm, hassistant, hkept⟩, hopen, earlier, hbefore, hended⟩

/-- Of an item that has ended, no later merge is running or pending exactly when no version reopens
it. -/
theorem ended_stays_closed_iff (htyped : ∀ v ∈ versions, WellTyped v)
    (hkind : ∀ v ∈ versions, v.kind = first.kind) :
    (∀ before version, before ++ [version] <+: versions →
        (∃ earlier, earlier <+: before ∧ (mergedVersions first earlier).hasEnded) →
        (mergedVersions first (before ++ [version])).isOpen = false) ↔
      ∀ before version, before ++ [version] <+: versions → ¬ Reopens first before version := by
  constructor
  · rintro h before version hpre ⟨⟨m, hm, hrole, hkept⟩, hopen, hended⟩
    have hmem : ∀ v ∈ before ++ [version], v ∈ versions := fun v hv => hpre.subset hv
    have hversion := hmem version (mem_append_right _ (mem_singleton.mpr rfl))
    have hheld : (mergedVersions first before).kind = first.kind :=
      kind_mergedVersions fun v hv => hkind v (hmem v (mem_append_left _ hv))
    have hclosed := h before version hpre hended
    rw [mergedVersions_append] at hclosed
    have hsame := hheld.trans (hkind version hversion).symm
    rcases kind_cases hsame with ⟨n, n', hn, hn', hroles⟩ | ⟨t, t', ht, -⟩ | ⟨t, t', ht, -⟩ |
      ⟨t, t', ht, -⟩ | ⟨t, t', ht, -⟩ | ⟨t, t', ht, -, -⟩
    · obtain rfl : n = m := ItemBody.message.inj (hn.symm.trans hm)
      rw [isOpen_merge_message hm hn' hroles hkept hopen] at hclosed
      cases hclosed
    all_goals
      rw [hm] at ht
      cases ht
  · intro h before version hpre ⟨earlier, hearlier, hended⟩
    apply Settled.isOpen
    apply settled_of_ended (fun v hv => htyped v (hpre.subset hv))
      (fun v hv => hkind v (hpre.subset hv)) (fun pre v hv => h pre v (hv.trans hpre)) ?_ hended
    exact hearlier.trans (prefix_append _ _)

end Cognis.Timeline
