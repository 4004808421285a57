import Cognis.Library.Runs
import Cognis.RuntimeRelay.Receiver

namespace Cognis.RuntimeRelay

open Bool List

/-- The second envelope may be stored, or received, after the first. -/
structure Precedes (a b : Envelope) : Prop where
  fence_le : a.fencingToken.val ≤ b.fencingToken.val
  request_eq : a.fencingToken = b.fencingToken → a.directRequestId = b.directRequestId
  turn_eq : a.fencingToken = b.fencingToken → a.turnId = b.turnId
  owner_eq : a.fencingToken = b.fencingToken → a.owner = b.owner
  inactive : a.fencingToken = b.fencingToken → a.inactive = true → b.inactive = true

namespace Precedes

variable {a b c : Envelope}

theorem refl (a : Envelope) : Precedes a a :=
  ⟨Nat.le_refl _, fun _ => rfl, fun _ => rfl, fun _ => rfl, fun _ h => h⟩

theorem trans (hab : Precedes a b) (hbc : Precedes b c) : Precedes a c := by
  have hmid : a.fencingToken = c.fencingToken →
      a.fencingToken = b.fencingToken ∧ b.fencingToken = c.fencingToken := by
    intro hac
    have hval : a.fencingToken.val = c.fencingToken.val := congrArg Subtype.val hac
    have hle := hab.fence_le
    have hle' := hbc.fence_le
    have heq : a.fencingToken = b.fencingToken := Subtype.ext (by omega)
    exact ⟨heq, heq ▸ hac⟩
  refine ⟨hab.fence_le.trans hbc.fence_le, ?_, ?_, ?_, ?_⟩
  · intro h
    exact (hab.request_eq (hmid h).1).trans (hbc.request_eq (hmid h).2)
  · intro h
    exact (hab.turn_eq (hmid h).1).trans (hbc.turn_eq (hmid h).2)
  · intro h
    exact (hab.owner_eq (hmid h).1).trans (hbc.owner_eq (hmid h).2)
  · intro h hinactive
    exact hbc.inactive (hmid h).2 (hab.inactive (hmid h).1 hinactive)

end Precedes

theorem Envelope.inactive_eq_false_iff (e : Envelope) : e.inactive = false ↔ e.kind = .runtime := by
  unfold Envelope.inactive
  cases e.kind <;> decide

variable {current candidate : Envelope}

theorem compareContent_accept (h : compareContent current candidate = .accept) :
    (current.inactive → candidate.inactive) ∧
      (current.kind = .runtime → candidate.kind = .runtime →
        current.sourceRevision.val ≤ candidate.sourceRevision.val) := by
  unfold compareContent at h
  split_ifs at h with hrevived hfinished hlower
  · rw [and_eq_true, beq_iff_eq] at hfinished
    refine ⟨fun _ => hfinished.2, ?_⟩
    intro _ hruntime
    rw [(Envelope.inactive_eq_false_iff candidate).mpr hruntime] at hfinished
    cases hfinished.2
  · refine ⟨?_, fun _ _ => Nat.le_of_not_lt hlower⟩
    intro hinactive
    by_contra hactive
    rw [not_eq_true, Envelope.inactive_eq_false_iff] at hactive
    apply hrevived
    rw [hinactive, hactive]
    rfl

theorem scriptDecision_accept (h : scriptDecision (some current) candidate = .accept) :
    Precedes current candidate ∧
      (current.fencingToken = candidate.fencingToken → current.kind = .runtime →
        candidate.kind = .runtime → current.sourceRevision.val ≤ candidate.sourceRevision.val) := by
  unfold scriptDecision at h
  dsimp only at h
  split_ifs at h with hlower hsame hother
  · unfold scriptEpochs at h
    split_ifs at h with hepoch
    obtain ⟨hinactive, hrevision⟩ := compareContent_accept h
    have hgeneration : candidate.sameGeneration current := by simpa using hother
    unfold Envelope.sameGeneration at hgeneration
    rw [and_eq_true, and_eq_true, beq_iff_eq, beq_iff_eq, beq_iff_eq] at hgeneration
    obtain ⟨⟨hrequest, hturn⟩, howner⟩ := hgeneration
    refine ⟨⟨Nat.le_of_not_lt hlower, ?_, ?_, ?_, ?_⟩, fun _ => hrevision⟩
    · exact fun _ => hrequest.symm
    · exact fun _ => hturn.symm
    · exact fun _ => howner.symm
    · exact fun _ => hinactive
  · have hne : current.fencingToken ≠ candidate.fencingToken := by
      rintro heq
      apply hsame
      rw [heq]
      exact beq_self_eq_true _
    refine ⟨⟨Nat.le_of_not_lt hlower, ?_, ?_, ?_, ?_⟩, ?_⟩ <;>
      exact fun heq => absurd heq hne

namespace RelayNote

def remembers : RelayNote → Bool
  | .completed _ _ => true
  | .rememberedOther => true
  | _ => false

def envelope? : RelayNote → Option Envelope
  | .started e _ => some e
  | .completed e _ => some e
  | _ => none

end RelayNote

/-- The table no longer has to hold an envelope that was completed at this time, after what
followed. -/
def Forgotten (settings : RelaySettings) (since : List RelayNote) (completedAt now : Nat) : Prop :=
  settings.stateMaxEntries ≤ since.countP RelayNote.remembers ∨ .invalidated ∈ since ∨
    completedAt + settings.stateTtl ≤ now

section

variable {settings : RelaySettings} {since : List RelayNote} {completedAt now : Nat}

variable (h : Forgotten settings since completedAt now)
include h

theorem Forgotten.later {later : Nat}
    (hle : now ≤ later) : Forgotten settings since completedAt later := by
  rcases h with hcount | hinvalidated | hexpired
  · exact .inl hcount
  · exact .inr (.inl hinvalidated)
  · exact .inr (.inr (by omega))

theorem Forgotten.cons (note : RelayNote) :
    Forgotten settings (note :: since) completedAt now := by
  rcases h with hcount | hinvalidated | hexpired
  · refine .inl (hcount.trans ?_)
    rw [countP_cons]
    exact Nat.le_add_right _ _
  · exact .inr (.inl (mem_cons_of_mem _ hinvalidated))
  · exact .inr (.inr hexpired)

end

namespace Seen

variable {settings : RelaySettings} {seen : Seen} {now count : Nat}

/-- The table has an entry of this event with at most `count` entries behind it. -/
def Holds (seen : Seen) (eventId : String) (expiresAt count : Nat) : Prop :=
  ∃ front entry back, seen = front ++ entry :: back ∧ entry.eventId = eventId ∧
    expiresAt ≤ entry.expiresAt ∧ back.length ≤ count

variable {eventId : String} {expiresAt : Nat}

theorem Holds.expireSeen (h : seen.Holds eventId expiresAt count) (hlater : now < expiresAt) :
    (seen.expireSeen now).Holds eventId expiresAt count := by
  obtain ⟨front, entry, back, rfl, hid, hexpires, hback⟩ := h
  have hkept : ¬ entry.expiresAt ≤ now := by omega
  refine ⟨Seen.expireSeen now front, entry, back, ?_, hid, hexpires, hback⟩
  unfold Seen.expireSeen
  induction front with
  | nil => rw [nil_append, dropWhile_cons_of_neg (by simpa using hkept),
      dropWhile_nil, nil_append]
  | cons first front ih =>
    rw [cons_append, dropWhile_cons, dropWhile_cons]
    split
    · exact ih
    · rfl

theorem Holds.decision_ne_none (h : seen.Holds eventId expiresAt count) {e : Envelope}
    (hid : e.eventId = eventId) : seen.decision e ≠ none := by
  obtain ⟨front, entry, back, rfl, hentry, -, -⟩ := h
  unfold Seen.decision
  have hany : (front ++ entry :: back).any (fun entry => entry.eventId == e.eventId) := by
    apply any_eq_true.mpr
    refine ⟨entry, mem_append_right _ mem_cons_self, ?_⟩
    rw [hentry, hid]
    exact beq_self_eq_true _
  rw [if_pos hany]
  simp

theorem holds_remember (e : Envelope) (hmax : 0 < settings.stateMaxEntries) :
    (seen.remember settings now e).Holds e.eventId (now + settings.stateTtl) 0 := by
  unfold remember
  rw [drop_append_of_le_length]
  · exact ⟨_, _, [], rfl, rfl, Nat.le_refl _, Nat.le_refl _⟩
  · rw [length_append, length_singleton]
    omega

theorem Holds.remember (h : seen.Holds eventId expiresAt count)
    (hexpires : expiresAt ≤ now + settings.stateTtl) (e : Envelope) :
    (seen.remember settings now e).Holds eventId expiresAt (count + 1) ∨
      settings.stateMaxEntries ≤ count + 1 := by
  obtain ⟨front, entry, back, rfl, hid, hentry, hback⟩ := h
  by_cases hmax : settings.stateMaxEntries ≤ count + 1
  · exact .inr hmax
  left
  by_cases hsame : entry.eventId = e.eventId
  · have hremembered : (Seen.remember settings now (front ++ entry :: back) e).Holds e.eventId
        (now + settings.stateTtl) 0 := holds_remember e (by omega)
    obtain ⟨front', entry', back', hseen, hid', hentry', hback'⟩ := hremembered
    refine ⟨front', entry', back', hseen, ?_, hexpires.trans hentry', by omega⟩
    rw [hid', ← hsame, hid]
  · have hkept : (front ++ entry :: back).filter (fun other => other.eventId != e.eventId) =
        front.filter (fun other => other.eventId != e.eventId) ++
          entry :: back.filter (fun other => other.eventId != e.eventId) := by
      rw [filter_append, filter_cons_of_pos]
      simpa using hsame
    have hshorter := length_filter_le (fun other : SeenEntry => other.eventId != e.eventId) back
    unfold Seen.remember
    dsimp only
    rw [hkept, append_assoc, cons_append, drop_append_of_le_length]
    · refine ⟨_, entry, _, rfl, hid, hentry, ?_⟩
      rw [length_append, length_singleton]
      omega
    · simp only [length_append, length_cons, length_nil]
      omega

end Seen

namespace RelayRun

variable {settings : RelaySettings} {s : RelayRun} {e : Envelope}

theorem publish_cases (s : RelayRun) (w : Wire) : s.publish w = s ∨
      (s.publish w = { s with latest := some w, published := s.published ++ [w] } ∧
        scriptDecision (s.latest.map (·.envelope)) w.envelope = .accept) := by
  unfold publish
  rw [admitAndPublish_eq]
  cases hdecision : scriptDecision (s.latest.map (·.envelope)) w.envelope with
  | accept => exact .inr ⟨rfl, rfl⟩
  | stale | wrongTurn | wrongFence =>
    exact .inl (by simp [ScriptOutcome.ofDecision, ScriptOutcome.rejected])

/-- The envelopes of the conversation that the relay has taken up, that wait in its chain, and
that it may still get. -/
def trace (s : RelayRun) : List Envelope :=
  (s.notes.filterMap RelayNote.envelope?).reverse ++
    (s.queue ++ (s.published.drop s.cursor).map (·.envelope))

/-- Nothing was applied behind a later envelope. -/
structure InOrder (s : RelayRun) : Prop where
  pairwise : s.trace.Pairwise Precedes
  latest : ∀ e ∈ s.trace, ∃ w, s.latest = some w ∧ Precedes e w.envelope
  cursor_le : s.cursor ≤ s.published.length

theorem pairwise_duplicate {α : Type} {R : α → α → Prop} {l₁ l₂ : List α} {a : α}
    (h : (l₁ ++ a :: l₂).Pairwise R) (hrefl : R a a) : (l₁ ++ a :: a :: l₂).Pairwise R := by
  rw [pairwise_append, pairwise_cons] at h
  obtain ⟨hfront, ⟨ha, hback⟩, hacross⟩ := h
  rw [pairwise_append, pairwise_cons, pairwise_cons]
  refine ⟨hfront, ⟨?_, ha, hback⟩, ?_⟩
  · intro b hb
    rcases mem_cons.mp hb with rfl | hb
    · exact hrefl
    · exact ha b hb
  · intro b hb c hc
    rcases mem_cons.mp hc with rfl | hc
    · exact hacross b hb _ mem_cons_self
    · exact hacross b hb c hc

variable {s' : RelayRun}

section

variable (hs : s.InOrder)
include hs

theorem InOrder.of_trace (hlatest : s'.latest = s.latest)
    (hpairwise : s'.trace.Pairwise Precedes) (hmem : ∀ e ∈ s'.trace, e ∈ s.trace)
    (hcursor : s'.cursor ≤ s'.published.length) : s'.InOrder := by
  refine ⟨hpairwise, ?_, hcursor⟩
  intro e he
  rw [hlatest]
  exact hs.latest e (hmem e he)

theorem InOrder.of_sublist (hlatest : s'.latest = s.latest)
    (htrace : s'.trace.Sublist s.trace) (hcursor : s'.cursor ≤ s'.published.length) :
    s'.InOrder :=
  hs.of_trace hlatest (hs.pairwise.sublist htrace) (fun _ he => htrace.subset he) hcursor

theorem InOrder.publish (w : Wire) : (s.publish w).InOrder := by
  rcases publish_cases s w with hsame | ⟨hnew, haccept⟩
  · rw [hsame]
    exact hs
  · have hafter : ∀ e ∈ s.trace, Precedes e w.envelope := by
      intro e he
      obtain ⟨stored, hstored, hprecedes⟩ := hs.latest e he
      rw [hstored] at haccept
      exact hprecedes.trans (scriptDecision_accept haccept).1
    have htrace : (s.publish w).trace = s.trace ++ [w.envelope] := by
      rw [hnew]
      unfold trace
      rw [drop_append_of_le_length hs.cursor_le, map_append, append_assoc, append_assoc]
      rfl
    refine ⟨?_, ?_, ?_⟩
    · rw [htrace, pairwise_append]
      refine ⟨hs.pairwise, pairwise_singleton _ _, ?_⟩
      intro e he last hlast
      rw [mem_singleton.mp hlast]
      exact hafter e he
    · intro e he
      rw [htrace, mem_append, mem_singleton] at he
      refine ⟨w, by rw [hnew], ?_⟩
      rcases he with he | rfl
      · exact hafter e he
      · exact Precedes.refl _
    · rw [hnew]
      have hle := hs.cursor_le
      simp only [length_append]
      omega

theorem InOrder.deliver (i : Nat) : (s.deliver i).InOrder := by
  unfold RelayRun.deliver
  split
  · exact hs
  · rename_i w hw
    split_ifs with hbehind
    · exact hs
    · obtain ⟨hlt, hget⟩ := List.getElem?_eq_some_iff.mp hw
      have hrest : s.published.drop i = w :: s.published.drop (i + 1) := by
        rw [drop_eq_getElem_cons hlt, hget]
      have hskip : (s.published.drop i).Sublist (s.published.drop s.cursor) := by
        have hdrop : s.published.drop i = (s.published.drop s.cursor).drop (i - s.cursor) := by
          rw [drop_drop]
          congr 1
          omega
        rw [hdrop]
        exact drop_sublist _ _
      have hshort : ((s.notes.filterMap RelayNote.envelope?).reverse ++ s.queue ++
          w.envelope :: (s.published.drop (i + 1)).map (·.envelope)).Sublist s.trace := by
        rw [append_assoc, ← map_cons, ← hrest]
        exact ((hskip.map _).append_left _).append_left _
      have htrace : RelayRun.trace { s with cursor := i, queue := s.queue ++ [w.envelope] } =
          (s.notes.filterMap RelayNote.envelope?).reverse ++ s.queue ++
            w.envelope :: w.envelope :: (s.published.drop (i + 1)).map (·.envelope) := by
        unfold trace
        rw [hrest, map_cons]
        simp only [append_assoc, singleton_append]
      refine hs.of_trace rfl ?_ ?_ (Nat.le_of_lt hlt)
      · rw [htrace]
        exact pairwise_duplicate (hs.pairwise.sublist hshort) (Precedes.refl _)
      · intro e he
        rw [htrace] at he
        apply hshort.subset
        simpa using he

theorem InOrder.of_queue (hlatest : s'.latest = s.latest)
    (hpublished : s'.published = s.published) (hcursor : s'.cursor = s.cursor)
    (hnotes : s'.notes.filterMap RelayNote.envelope? = s.notes.filterMap RelayNote.envelope?)
    (hqueue : s'.queue.Sublist s.queue) : s'.InOrder := by
  refine hs.of_sublist hlatest ?_ ?_
  · unfold trace
    rw [hnotes, hpublished, hcursor]
    exact (hqueue.append_right _).append_left _
  · rw [hcursor, hpublished]
    exact hs.cursor_le

end

theorem examine_cases (settings : RelaySettings) (s : RelayRun) (wallClock : Int)
    (hasSubscriber : Bool) :
    s.examine settings wallClock hasSubscriber = s ∨
      ∃ e rest, s.queue = e :: rest ∧ s.stage = .waiting ∧
        (s.examine settings wallClock hasSubscriber = { s with queue := rest } ∨
          s.examine settings wallClock hasSubscriber =
            { s with queue := rest, seen := s.seen.expireSeen s.now } ∨
          (s.seen.expireSeen s.now).decision e = none ∧ s.examine settings wallClock hasSubscriber =
              { s with stage := .validating, seen := s.seen.expireSeen s.now }) := by
  unfold examine
  split
  · rename_i e rest hqueue hstage
    refine .inr ⟨e, rest, hqueue, hstage, ?_⟩
    dsimp only
    split_ifs with hdropped hseen
    · exact .inl rfl
    · exact .inr (.inl rfl)
    · exact .inr (.inr ⟨by simpa using hseen, rfl⟩)
  · exact .inl rfl

theorem validated_cases (s : RelayRun) (accepts : Bool) : s.validated accepts = s ∨
      ∃ e rest, s.queue = e :: rest ∧ s.stage = .validating ∧
        (s.validated accepts = { s with stage := .applying, notes := .started e s.now :: s.notes } ∨
          s.validated accepts = { s with queue := rest, stage := .waiting }) := by
  unfold validated
  split
  · rename_i e rest hqueue hstage
    refine .inr ⟨e, rest, hqueue, hstage, ?_⟩
    split_ifs
    · exact .inl rfl
    · exact .inr rfl
  · exact .inl rfl

theorem applied_cases (settings : RelaySettings) (s : RelayRun) (succeeds : Bool) :
    s.applied settings succeeds = s ∨ ∃ e rest, s.queue = e :: rest ∧ s.stage = .applying ∧
        (s.applied settings succeeds = { s with
              queue := rest
              stage := .waiting
              seen := s.seen.remember settings s.now e
              notes := .completed e s.now :: s.notes } ∨
          s.applied settings succeeds = { s with queue := rest, stage := .waiting }) := by
  unfold applied
  split
  · rename_i e rest hqueue hstage
    refine .inr ⟨e, rest, hqueue, hstage, ?_⟩
    split_ifs
    · exact .inl rfl
    · exact .inr rfl
  · exact .inl rfl

theorem InOrder.examine (hs : s.InOrder) (wallClock : Int) (hasSubscriber : Bool) :
    (s.examine settings wallClock hasSubscriber).InOrder := by
  rcases examine_cases settings s wallClock hasSubscriber with
    hsame | ⟨e, rest, hqueue, -, hdropped | hseen | ⟨-, hpassed⟩⟩
  · rw [hsame]
    exact hs
  · rw [hdropped]
    exact hs.of_queue rfl rfl rfl rfl (by rw [hqueue]; exact sublist_cons_self _ _)
  · rw [hseen]
    exact hs.of_queue rfl rfl rfl rfl (by rw [hqueue]; exact sublist_cons_self _ _)
  · rw [hpassed]
    exact hs.of_queue rfl rfl rfl rfl (Sublist.refl _)

theorem trace_of_queue {rest : List Envelope} (hqueue : s.queue = e :: rest) :
    s.trace = (s.notes.filterMap RelayNote.envelope?).reverse ++
      e :: (rest ++ (s.published.drop s.cursor).map (·.envelope)) := by
  unfold trace
  rw [hqueue, cons_append]

theorem InOrder.validated (hs : s.InOrder) (accepts : Bool) : (s.validated accepts).InOrder := by
  rcases validated_cases s accepts with hsame | ⟨e, rest, hqueue, -, hstarted | hrefused⟩
  · rw [hsame]
    exact hs
  · have htrace : (s.validated accepts).trace = (s.notes.filterMap RelayNote.envelope?).reverse ++
          e :: e :: (rest ++ (s.published.drop s.cursor).map (·.envelope)) := by
      rw [hstarted]
      unfold trace
      have hnote : RelayNote.envelope? (.started e s.now) = some e := rfl
      rw [hqueue, filterMap_cons_some hnote, reverse_cons, append_assoc]
      rfl
    have hpairwise := hs.pairwise
    rw [trace_of_queue hqueue] at hpairwise
    refine hs.of_trace (by rw [hstarted]) ?_ ?_ (by rw [hstarted]; exact hs.cursor_le)
    · rw [htrace]
      exact pairwise_duplicate hpairwise (Precedes.refl e)
    · intro e' he'
      rw [htrace] at he'
      rw [trace_of_queue hqueue]
      simpa using he'
  · rw [hrefused]
    exact hs.of_queue rfl rfl rfl rfl (by rw [hqueue]; exact sublist_cons_self _ _)

theorem InOrder.applied (hs : s.InOrder) (succeeds : Bool) :
    (s.applied settings succeeds).InOrder := by
  rcases applied_cases settings s succeeds with
    hsame | ⟨e, rest, hqueue, -, hcompleted | hfailed⟩
  · rw [hsame]
    exact hs
  · have htrace : (s.applied settings succeeds).trace = s.trace := by
      rw [trace_of_queue hqueue, hcompleted]
      unfold trace
      have hnote : RelayNote.envelope? (.completed e s.now) = some e := rfl
      rw [filterMap_cons_some hnote, reverse_cons, append_assoc]
      rfl
    refine hs.of_sublist (by rw [hcompleted]) ?_ (by rw [hcompleted]; exact hs.cursor_le)
    rw [htrace]
  · rw [hfailed]
    exact hs.of_queue rfl rfl rfl rfl (by rw [hqueue]; exact sublist_cons_self _ _)

theorem InOrder.step (hs : s.InOrder) (event : RelayEvent) : (s.step settings event).InOrder := by
  cases event with
  | publish w => exact hs.publish w
  | deliver i => exact hs.deliver i
  | examine wallClock hasSubscriber => exact hs.examine wallClock hasSubscriber
  | validated accepts => exact hs.validated accepts
  | applied succeeds => exact hs.applied succeeds
  | elapse | rememberOther | invalidate =>
    exact hs.of_queue rfl rfl rfl rfl (Sublist.refl _)

theorem inOrder_start : ({} : RelayRun).InOrder :=
  ⟨List.Pairwise.nil, by simp [trace], Nat.le_refl _⟩

def Remembered (settings : RelaySettings) (s : RelayRun) : Prop :=
  ∀ since c completedAt older, s.notes = since ++ .completed c completedAt :: older →
    completedAt ≤ s.now ∧ (Forgotten settings since completedAt s.now ∨
      s.seen.Holds c.eventId (completedAt + settings.stateTtl) (since.countP RelayNote.remembers))

def FreshAt (settings : RelaySettings) (notes : List RelayNote) (e : Envelope) (now : Nat) : Prop :=
  ∀ since c completedAt older, notes = since ++ .completed c completedAt :: older →
    c.eventId = e.eventId → Forgotten settings since completedAt now

/-- What is handled was fresh when it was taken. -/
structure Tracked (settings : RelaySettings) (s : RelayRun) : Prop where
  remembered : Remembered settings s
  fresh : s.stage ≠ .waiting → ∃ e rest, s.queue = e :: rest ∧ FreshAt settings s.notes e s.now
  started : ∀ newer e startedAt older, s.notes = newer ++ .started e startedAt :: older →
    FreshAt settings older e startedAt

variable {notes : List RelayNote}

theorem FreshAt.later {now later : Nat} (h : FreshAt settings notes e now) (hle : now ≤ later) :
    FreshAt settings notes e later := by
  intro since c completedAt older hnotes hid
  exact (h since c completedAt older hnotes hid).later hle

theorem FreshAt.cons {now : Nat} {note : RelayNote} (h : FreshAt settings notes e now)
    (hnote : ∀ c completedAt, note ≠ .completed c completedAt) :
    FreshAt settings (note :: notes) e now := by
  intro since c completedAt older hnotes hid
  rcases cons_eq_append_iff.mp hnotes with ⟨rfl, hcons⟩ | ⟨since', rfl, hrest⟩
  · exact absurd (List.cons.inj hcons).1.symm (hnote c completedAt)
  · exact (h since' c completedAt older hrest hid).cons note

theorem Remembered.note (h : Remembered settings s) {note : RelayNote}
    (hnotes : s'.notes = note :: s.notes) (hnow : s'.now = s.now)
    (hfirst : ∀ c completedAt, note = .completed c completedAt → completedAt = s.now ∧
      (0 < settings.stateMaxEntries → s'.seen.Holds c.eventId (s.now + settings.stateTtl) 0))
    (hheld : ∀ eventId completedAt count, completedAt ≤ s.now →
      s.seen.Holds eventId (completedAt + settings.stateTtl) count →
        note = .invalidated ∨ settings.stateMaxEntries ≤ count + [note].countP RelayNote.remembers ∨
          s'.seen.Holds eventId (completedAt + settings.stateTtl)
            (count + [note].countP RelayNote.remembers)) :
    Remembered settings s' := by
  intro since c completedAt older hsplit
  rw [hnotes] at hsplit
  rw [hnow]
  rcases cons_eq_append_iff.mp hsplit with ⟨rfl, hcons⟩ | ⟨since', rfl, hrest⟩
  · obtain ⟨hcompleted, hholds⟩ := hfirst c completedAt (List.cons.inj hcons).1.symm
    subst hcompleted
    refine ⟨Nat.le_refl _, ?_⟩
    by_cases hmax : 0 < settings.stateMaxEntries
    · exact .inr (hholds hmax)
    · exact .inl (.inl (by omega))
  · obtain ⟨hle, hforgotten | hholds⟩ := h since' c completedAt older hrest
    · exact ⟨hle, .inl (hforgotten.cons note)⟩
    · refine ⟨hle, ?_⟩
      have hcount : (note :: since').countP RelayNote.remembers =
          since'.countP RelayNote.remembers + [note].countP RelayNote.remembers := by
        rw [countP_cons, countP_cons, countP_nil, Nat.zero_add]
      rcases hheld _ _ _ hle hholds with rfl | hmax | hstill
      · exact .inl (.inr (.inl mem_cons_self))
      · exact .inl (.inl (by rw [hcount]; exact hmax))
      · exact .inr (by rw [hcount]; exact hstill)

theorem Remembered.quiet (h : Remembered settings s) (hnotes : s'.notes = s.notes)
    (hnow : s.now ≤ s'.now) (hheld : ∀ eventId expiresAt count, s'.now < expiresAt →
      s.seen.Holds eventId expiresAt count → s'.seen.Holds eventId expiresAt count) :
    Remembered settings s' := by
  intro since c completedAt older hsplit
  rw [hnotes] at hsplit
  obtain ⟨hle, hforgotten | hholds⟩ := h since c completedAt older hsplit
  · exact ⟨hle.trans hnow, .inl (hforgotten.later hnow)⟩
  · refine ⟨hle.trans hnow, ?_⟩
    by_cases hexpired : completedAt + settings.stateTtl ≤ s'.now
    · exact .inl (.inr (.inr hexpired))
    · exact .inr (hheld _ _ _ (Nat.lt_of_not_le hexpired) hholds)

theorem Remembered.freshAt (h : Remembered settings s)
    (hdecision : (s.seen.expireSeen s.now).decision e = none) :
    FreshAt settings s.notes e s.now := by
  intro since c completedAt older hsplit hid
  obtain ⟨-, hforgotten | hholds⟩ := h since c completedAt older hsplit
  · exact hforgotten
  · by_cases hexpired : completedAt + settings.stateTtl ≤ s.now
    · exact .inr (.inr hexpired)
    · have hstill := hholds.expireSeen (Nat.lt_of_not_le hexpired)
      exact absurd hdecision (hstill.decision_ne_none hid.symm)

section

variable (hs : s.Tracked settings)

include hs

theorem Tracked.of_same (hnotes : s'.notes = s.notes) (hnow : s.now ≤ s'.now)
    (hseen : s'.seen = s.seen)
    (hfresh : s'.stage ≠ .waiting → s.stage ≠ .waiting ∧ ∃ back, s'.queue = s.queue ++ back) :
    s'.Tracked settings := by
  refine ⟨?_, ?_, ?_⟩
  · apply hs.remembered.quiet hnotes hnow
    intro eventId expiresAt count _ hholds
    rw [hseen]
    exact hholds
  · intro hstage
    obtain ⟨hbusy, back, hback⟩ := hfresh hstage
    obtain ⟨e, rest, hqueue, hfirst⟩ := hs.fresh hbusy
    refine ⟨e, rest ++ back, ?_, ?_⟩
    · rw [hback, hqueue, cons_append]
    · rw [hnotes]
      exact hfirst.later hnow
  · intro newer e startedAt older hsplit
    rw [hnotes] at hsplit
    exact hs.started newer e startedAt older hsplit

theorem started_note {note : RelayNote} (hnotes : s'.notes = note :: s.notes)
    (hnote : ∀ e startedAt, note = .started e startedAt → FreshAt settings s.notes e startedAt) :
    ∀ newer e startedAt older, s'.notes = newer ++ .started e startedAt :: older →
      FreshAt settings older e startedAt := by
  intro newer e startedAt older hsplit
  rw [hnotes] at hsplit
  rcases cons_eq_append_iff.mp hsplit with ⟨-, hcons⟩ | ⟨newer', -, hrest⟩
  · obtain ⟨hstarted, rfl⟩ := List.cons.inj hcons
    exact hnote e startedAt hstarted.symm
  · exact hs.started newer' e startedAt older hrest

theorem Tracked.publish (w : Wire) : (s.publish w).Tracked settings := by
  rcases publish_cases s w with hsame | ⟨hnew, -⟩
  · rw [hsame]
    exact hs
  · rw [hnew]
    exact hs.of_same rfl (Nat.le_refl _) rfl fun h => ⟨h, [], (append_nil _).symm⟩

theorem Tracked.deliver (i : Nat) : (s.deliver i).Tracked settings := by
  unfold RelayRun.deliver
  split
  · exact hs
  · split_ifs
    · exact hs
    · exact hs.of_same rfl (Nat.le_refl _) rfl fun h => ⟨h, _, rfl⟩

theorem Tracked.dropped (rest : List Envelope) :
    Tracked settings { s with queue := rest, stage := .waiting } :=
  hs.of_same rfl (Nat.le_refl _) rfl fun h => absurd rfl h

theorem Tracked.expired : Tracked settings { s with seen := s.seen.expireSeen s.now } := by
  refine ⟨?_, hs.fresh, hs.started⟩
  exact hs.remembered.quiet rfl (Nat.le_refl _) fun _ _ _ hlater hholds =>
    hholds.expireSeen hlater

theorem Tracked.examine (wallClock : Int) (hasSubscriber : Bool) :
    (s.examine settings wallClock hasSubscriber).Tracked settings := by
  rcases examine_cases settings s wallClock hasSubscriber with
    hsame | ⟨e, rest, hqueue, hstage, hdropped | hseen | ⟨hdecision, hpassed⟩⟩
  · rw [hsame]
    exact hs
  · rw [hdropped]
    have hleft := hs.dropped rest
    rw [← hstage] at hleft
    exact hleft
  · rw [hseen]
    have hleft := hs.expired.dropped rest
    rw [← hstage] at hleft
    exact hleft
  · rw [hpassed]
    refine ⟨hs.expired.remembered, ?_, hs.started⟩
    intro _
    exact ⟨e, rest, hqueue, hs.remembered.freshAt hdecision⟩

theorem Tracked.validated (accepts : Bool) : (s.validated accepts).Tracked settings := by
  rcases validated_cases s accepts with hsame | ⟨e, rest, hqueue, hstage, hstarted | hrefused⟩
  · rw [hsame]
    exact hs
  · have hbusy : s.stage ≠ .waiting := by
      rw [hstage]
      decide
    obtain ⟨e', rest', hqueue', hfresh⟩ := hs.fresh hbusy
    obtain ⟨rfl, rfl⟩ := List.cons.inj (hqueue.symm.trans hqueue')
    rw [hstarted]
    refine ⟨?_, ?_, ?_⟩
    · refine hs.remembered.note rfl rfl (fun c completedAt h => by cases h) ?_
      intro eventId completedAt count _ hholds
      exact .inr (.inr hholds)
    · intro _
      exact ⟨e, rest, hqueue, hfresh.cons fun c completedAt h => by cases h⟩
    · apply started_note hs rfl
      intro e' startedAt h
      cases h
      exact hfresh
  · rw [hrefused]
    exact hs.dropped rest

end

theorem Remembered.remember (h : Remembered settings s) (e : Envelope) {note : RelayNote}
    (hnotes : s'.notes = note :: s.notes) (hnow : s'.now = s.now)
    (hseen : s'.seen = s.seen.remember settings s.now e) (hremembers : note.remembers)
    (hnote : ∀ c completedAt, note = .completed c completedAt → c = e ∧ completedAt = s.now) :
    Remembered settings s' := by
  apply h.note hnotes hnow
  · intro c completedAt hcompleted
    obtain ⟨rfl, hat⟩ := hnote c completedAt hcompleted
    refine ⟨hat, ?_⟩
    intro hmax
    rw [hseen]
    exact Seen.holds_remember c hmax
  · intro eventId completedAt count hle hholds
    have hone : [note].countP RelayNote.remembers = 1 := by
      rw [countP_cons_of_pos hremembers, countP_nil]
    have hexpires : completedAt + settings.stateTtl ≤ s.now + settings.stateTtl := by omega
    rw [hone, hseen]
    rcases hholds.remember hexpires e with hstill | hmax
    · exact .inr (.inr hstill)
    · exact .inr (.inl hmax)

theorem Tracked.applied (hs : s.Tracked settings) (succeeds : Bool) :
    (s.applied settings succeeds).Tracked settings := by
  rcases applied_cases settings s succeeds with
    hsame | ⟨e, rest, _, -, hcompleted | hfailed⟩
  · rw [hsame]
    exact hs
  · rw [hcompleted]
    refine ⟨hs.remembered.remember e rfl rfl rfl rfl ?_, fun h => absurd rfl h, ?_⟩
    · intro c completedAt h
      cases h
      exact ⟨rfl, rfl⟩
    · exact started_note hs rfl fun e' startedAt h => by cases h
  · rw [hfailed]
    exact hs.dropped rest

theorem Tracked.of_note (hs : s.Tracked settings) {note : RelayNote}
    (hremembered : Remembered settings s') (hnotes : s'.notes = note :: s.notes)
    (hnow : s'.now = s.now) (hstage : s'.stage = s.stage) (hqueue : s'.queue = s.queue)
    (hcompleted : ∀ c completedAt, note ≠ .completed c completedAt)
    (hstarted : ∀ e startedAt, note ≠ .started e startedAt) : s'.Tracked settings := by
  refine ⟨hremembered, ?_, ?_⟩
  · intro hbusy
    rw [hstage] at hbusy
    obtain ⟨e, rest, hfirst, hfresh⟩ := hs.fresh hbusy
    refine ⟨e, rest, hqueue.trans hfirst, ?_⟩
    rw [hnotes, hnow]
    exact hfresh.cons hcompleted
  · exact started_note hs hnotes fun e startedAt h => absurd h (hstarted e startedAt)

theorem Tracked.step (hs : s.Tracked settings) (event : RelayEvent) :
    (s.step settings event).Tracked settings := by
  cases event with
  | publish w => exact hs.publish w
  | deliver i => exact hs.deliver i
  | examine wallClock hasSubscriber => exact hs.examine wallClock hasSubscriber
  | validated accepts => exact hs.validated accepts
  | applied succeeds => exact hs.applied succeeds
  | elapse =>
    exact hs.of_same rfl (Nat.le_add_right _ _) rfl fun h => ⟨h, [], (append_nil _).symm⟩
  | rememberOther e =>
    have hremembered : Remembered settings (s.step settings (.rememberOther e)) :=
      hs.remembered.remember e rfl rfl rfl rfl fun c completedAt h => by cases h
    exact hs.of_note hremembered rfl rfl rfl rfl (fun _ _ h => by cases h) fun _ _ h => by cases h
  | invalidate conversationId =>
    have hremembered : Remembered settings (s.step settings (.invalidate conversationId)) :=
      hs.remembered.note rfl rfl (fun c completedAt h => by cases h) fun _ _ _ _ _ => .inl rfl
    exact hs.of_note hremembered rfl rfl rfl rfl (fun _ _ h => by cases h) fun _ _ h => by cases h

theorem tracked_start : Tracked settings {} := by
  refine ⟨?_, fun h => absurd rfl h, ?_⟩
  · intro since c completedAt older h
    exact absurd h (append_ne_nil_of_right_ne_nil _ (cons_ne_nil _ _)).symm
  · intro newer e startedAt older h
    exact absurd h (append_ne_nil_of_right_ne_nil _ (cons_ne_nil _ _)).symm

theorem latest_step (settings : RelaySettings) (s : RelayRun) (event : RelayEvent) {c : Wire}
    (h : s.latest = some c) :
    ∃ c', (s.step settings event).latest = some c' ∧ Precedes c.envelope c'.envelope ∧
      (c.envelope.fencingToken = c'.envelope.fencingToken → c.envelope.kind = .runtime →
        c'.envelope.kind = .runtime →
          c.envelope.sourceRevision.val ≤ c'.envelope.sourceRevision.val) := by
  have hkept : ∀ s' : RelayRun, s'.latest = s.latest →
      ∃ c', s'.latest = some c' ∧ Precedes c.envelope c'.envelope ∧
        (c.envelope.fencingToken = c'.envelope.fencingToken → c.envelope.kind = .runtime →
          c'.envelope.kind = .runtime →
            c.envelope.sourceRevision.val ≤ c'.envelope.sourceRevision.val) :=
    fun s' hs' => ⟨c, hs'.trans h, Precedes.refl _, fun _ _ _ => Nat.le_refl _⟩
  cases event with
  | publish w =>
    rcases publish_cases s w with hsame | ⟨hnew, haccept⟩
    · exact hkept _ (congrArg latest hsame)
    · rw [h] at haccept
      exact ⟨w, congrArg latest hnew, scriptDecision_accept haccept⟩
  | deliver i =>
    apply hkept
    simp only [step, deliver]
    split
    · rfl
    · split_ifs <;> rfl
  | examine wallClock hasSubscriber =>
    apply hkept
    rcases examine_cases settings s wallClock hasSubscriber with
      hsame | ⟨e, rest, -, -, hdropped | hseen | ⟨-, hpassed⟩⟩
    · exact congrArg latest hsame
    · exact (congrArg latest hdropped).trans rfl
    · exact (congrArg latest hseen).trans rfl
    · exact (congrArg latest hpassed).trans rfl
  | validated accepts =>
    apply hkept
    rcases validated_cases s accepts with hsame | ⟨e, rest, -, -, hstarted | hrefused⟩
    · exact congrArg latest hsame
    · exact (congrArg latest hstarted).trans rfl
    · exact (congrArg latest hrefused).trans rfl
  | applied succeeds =>
    apply hkept
    rcases applied_cases settings s succeeds with hsame | ⟨e, rest, -, -, hcompleted | hfailed⟩
    · exact congrArg latest hsame
    · exact (congrArg latest hcompleted).trans rfl
    · exact (congrArg latest hfailed).trans rfl
  | elapse | rememberOther | invalidate => exact hkept _ rfl

theorem latest_run (settings : RelaySettings) {s : RelayRun} {c : Wire} (h : s.latest = some c)
    (events : List RelayEvent) :
    ∃ c', (Runs.run (step settings) s events).latest = some c' ∧
      Precedes c.envelope c'.envelope := by
  induction events generalizing s c with
  | nil => exact ⟨c, h, Precedes.refl _⟩
  | cons event events ih =>
    obtain ⟨c', hc', hprecedes, -⟩ := latest_step settings s event h
    obtain ⟨c'', hc'', hprecedes'⟩ := ih hc'
    exact ⟨c'', hc'', hprecedes.trans hprecedes'⟩

theorem InOrder.completed_precedes (hs : s.InOrder) {newer since older : List RelayNote}
    {c : Envelope} {startedAt completedAt : Nat}
    (h : s.notes = newer ++ .started e startedAt :: (since ++ .completed c completedAt :: older)) :
    Precedes c e := by
  have hpairwise := (pairwise_append.mp hs.pairwise).1
  rw [pairwise_reverse, h, filterMap_append] at hpairwise
  have hback := (pairwise_append.mp hpairwise).2.1
  have hnote : RelayNote.envelope? (.started e startedAt) = some e := rfl
  have hnote' : RelayNote.envelope? (.completed c completedAt) = some c := rfl
  rw [filterMap_cons_some hnote, filterMap_append, filterMap_cons_some hnote'] at hback
  exact (pairwise_cons.mp hback).1 c (mem_append_right _ mem_cons_self)

end RelayRun

open RelayRun

/-- No run of the controllers and a relay brings a finished generation back. -/
theorem relay_never_revives (settings : RelaySettings) (events : List RelayEvent) :
    let state := Runs.run (RelayRun.step settings) {}
    (∀ before between c c', before ++ between <+: events → (state before).latest = some c →
        (state (before ++ between)).latest = some c' →
          c.envelope.fencingToken.val ≤ c'.envelope.fencingToken.val ∧
          (c.envelope.fencingToken = c'.envelope.fencingToken →
            c.envelope.directRequestId = c'.envelope.directRequestId ∧
            c.envelope.turnId = c'.envelope.turnId ∧ c.envelope.owner = c'.envelope.owner ∧
            (c.envelope.kind ≠ .runtime → c'.envelope.kind ≠ .runtime))) ∧
      (∀ before event c c', before ++ [event] <+: events → (state before).latest = some c →
        (state (before ++ [event])).latest = some c' →
          c.envelope.fencingToken = c'.envelope.fencingToken → c.envelope.kind = .runtime →
            c'.envelope.kind = .runtime →
              c.envelope.sourceRevision.val ≤ c'.envelope.sourceRevision.val) ∧
      ∀ newer e startedAt since c completedAt older, (state events).notes =
            newer ++ .started e startedAt :: (since ++ .completed c completedAt :: older) →
          ¬ (e.kind = .runtime ∧ c.kind ≠ .runtime ∧ e.generationKey = c.generationKey) ∧
          (e.eventId = c.eventId → Forgotten settings since completedAt startedAt) := by
  intro state
  have hinactive : ∀ e : Envelope, e.kind ≠ .runtime ↔ e.inactive := by
    intro e
    rw [ne_eq, ← Envelope.inactive_eq_false_iff, not_eq_false]
  refine ⟨?_, ?_, ?_⟩
  · intro before between c c' _ hc hc'
    obtain ⟨last, hlast, hprecedes⟩ := latest_run settings hc between
    have heq : last = c' := by
      simp only [state, Runs.run_append] at hc'
      exact Option.some.inj (hlast.symm.trans hc')
    subst heq
    refine ⟨hprecedes.fence_le, ?_⟩
    intro hfence
    refine ⟨hprecedes.request_eq hfence, hprecedes.turn_eq hfence, hprecedes.owner_eq hfence, ?_⟩
    rw [hinactive, hinactive]
    exact hprecedes.inactive hfence
  · intro before event c c' _ hc hc'
    obtain ⟨last, hlast, -, hrevision⟩ := latest_step settings (state before) event hc
    have heq : last = c' := by
      simp only [state, Runs.run_append] at hc'
      exact Option.some.inj (hlast.symm.trans hc')
    subst heq
    exact hrevision
  · intro newer e startedAt since c completedAt older hnotes
    have horder : (state events).InOrder :=
      Runs.run_invariant InOrder (fun s event hs => hs.step event) inOrder_start events
    have htracked : (state events).Tracked settings :=
      Runs.run_invariant (Tracked settings) (fun s event hs => hs.step event) tracked_start events
    refine ⟨?_, ?_⟩
    · rintro ⟨hruntime, hfinished, hgeneration⟩
      have hfence : c.fencingToken = e.fencingToken := (congrArg (·.fencingToken) hgeneration).symm
      have hrevived := (horder.completed_precedes hnotes).inactive hfence
        ((hinactive c).mp hfinished)
      exact (hinactive e).mpr hrevived hruntime
    · intro hid
      exact htracked.started newer e startedAt _ hnotes since c completedAt older rfl hid.symm

def firstReport : Envelope :=
  { finishedEnvelope with
    kind := .runtime
    authority := none }

theorem laterRevision_safe : 3 ≤ maxRedisSafeInteger := by decide

def laterReport : Envelope :=
  { firstReport with
    generatedAt := 900
    sourceRevision := ⟨3, laterRevision_safe⟩ }

def receiverSettings : RelaySettings where
  origin := ⟨"controller-b", "incarnation-2", "epoch-b"⟩

def reportEvents : List RelayEvent :=
  [.publish ⟨firstReport, .plain⟩, .deliver 0, .examine 0 true, .validated true, .applied true,
    .elapse 900, .publish ⟨laterReport, .plain⟩, .deliver 1, .examine 900 true, .validated true]

theorem event_started_again :
    firstReport.validateCoherence ∧ laterReport.validateCoherence ∧
      ¬ ∀ newer e startedAt since c completedAt older,
        (Runs.run (RelayRun.step receiverSettings) {} reportEvents).notes =
            newer ++ .started e startedAt :: (since ++ .completed c completedAt :: older) →
          e.eventId ≠ c.eventId := by
  refine ⟨by decide, by decide, ?_⟩
  have hnotes : (Runs.run (RelayRun.step receiverSettings) {} reportEvents).notes =
      [.started laterReport 900, .completed firstReport 0, .started firstReport 0] := by
    rfl
  intro h
  exact h [] laterReport 900 [] firstReport 0 [.started firstReport 0] hnotes rfl

end Cognis.RuntimeRelay
