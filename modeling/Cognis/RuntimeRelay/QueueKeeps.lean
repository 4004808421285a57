import Cognis.Library.Runs
import Cognis.RuntimeRelay.Queue

namespace Cognis.RuntimeRelay

open List Option

variable {receipts : List BoundaryReceipt} {item : QueuedEnvelope}

namespace BoundedRelayQueue

variable {items : List QueuedEnvelope} {candidate queued : QueuedEnvelope}

theorem mem_progressSinceBoundary {generation : GenerationKey}
    (h : queued ∈ progressSinceBoundary generation items) :
    queued ∈ items ∧ queued.generationKey = generation ∧ queued.isProgress := by
  induction items with
  | nil => cases h
  | cons first rest ih =>
    have hrest : queued ∈ progressSinceBoundary generation rest →
        queued ∈ first :: rest ∧ queued.generationKey = generation ∧ queued.isProgress := by
      intro hmem
      obtain ⟨hitem, hkey⟩ := ih hmem
      exact ⟨mem_cons_of_mem _ hitem, hkey⟩
    unfold progressSinceBoundary at h
    split_ifs at h with hgeneration hboundary hprogress
    · exact hrest h
    · cases h
    · rcases mem_cons.mp h with rfl | hmem
      · exact ⟨mem_cons_self, not_not.mp hgeneration, hprogress⟩
      · exact hrest hmem
    · exact hrest h

theorem not_isTerminal_of_isProgress (h : queued.isProgress) :
    queued.isTerminal = false := by
  unfold QueuedEnvelope.isProgress at h
  unfold QueuedEnvelope.isTerminal Envelope.inactive
  rw [Bool.and_eq_true, beq_iff_eq] at h
  rw [h.1]
  rfl

theorem mem_coalesce (h : queued ∈ coalesce items candidate) :
    queued ∈ items ∧ queued.generationKey = candidate.generationKey ∧
      (queued.isTerminal → candidate.isTerminal ∧
        queued.envelope.sourceRevision.val < candidate.envelope.sourceRevision.val) := by
  unfold coalesce at h
  split at h
  · obtain ⟨hmem, hkey, hprogress⟩ := mem_progressSinceBoundary h
    refine ⟨mem_reverse.mp hmem, hkey, ?_⟩
    intro hterminal
    rw [not_isTerminal_of_isProgress hprogress] at hterminal
    cases hterminal
  · obtain ⟨hmem, hcondition⟩ := mem_filter.mp h
    rw [Bool.and_eq_true, beq_iff_eq] at hcondition
    refine ⟨mem_of_mem_take hmem, hcondition.1, ?_⟩
    intro hterminal
    have hlower := hcondition.2
    rw [hterminal] at hlower
    simpa using hlower

theorem victim_eq_some {i : Nat} (h : victim items = some i) :
    ∃ dropped, items[i]? = some dropped ∧ dropped.isTerminal = false := by
  rcases or_eq_some_iff.mp h with hprogress | ⟨-, hother⟩
  · obtain ⟨hlt, hitem, -⟩ := findIdx?_eq_some_iff_getElem.mp hprogress
    exact ⟨items[i], getElem?_eq_getElem hlt, not_isTerminal_of_isProgress hitem⟩
  · obtain ⟨hlt, hitem, -⟩ := findIdx?_eq_some_iff_getElem.mp hother
    exact ⟨items[i], getElem?_eq_getElem hlt, by simpa using hitem⟩

@[simp] theorem payloadBytes_nil : payloadBytes [] = 0 := rfl

@[simp] theorem payloadBytes_cons (item : QueuedEnvelope) (items : List QueuedEnvelope) :
    payloadBytes (item :: items) = item.payload + payloadBytes items := by
  simp [payloadBytes]

theorem payloadBytes_append (items others : List QueuedEnvelope) :
    payloadBytes (items ++ others) = payloadBytes items + payloadBytes others := by
  simp [payloadBytes]

variable {dropped : QueuedEnvelope}

theorem payloadBytes_eraseIdx {i : Nat} (h : items[i]? = some dropped) :
    payloadBytes (items.eraseIdx i) + dropped.payload = payloadBytes items := by
  induction items generalizing i with
  | nil => cases h
  | cons first rest ih =>
    cases i with
    | zero =>
      cases h
      simp [Nat.add_comm]
    | succ i =>
      have hrest := ih h
      rw [eraseIdx_cons_succ, payloadBytes_cons, payloadBytes_cons]
      omega

theorem mem_eraseIdx_of_ne {i : Nat} (hi : items[i]? = some dropped) (hmem : queued ∈ items)
    (hne : queued ≠ dropped) : queued ∈ items.eraseIdx i := by
  induction items generalizing i with
  | nil => cases hmem
  | cons first rest ih =>
    cases i with
    | zero =>
      cases hi
      exact (mem_cons.mp hmem).resolve_left hne
    | succ i =>
      rcases mem_cons.mp hmem with rfl | hrest
      · exact mem_cons_self
      · exact mem_cons_of_mem _ (ih hi hrest)

variable {kept : List QueuedEnvelope}

/-- The items that are left are in their order, with the bytes they count, and all terminal
items are among them. -/
theorem evict_eq_some {q : BoundedRelayQueue} {size n : Nat} {bytes : Nat}
    (h : q.evict size n items (payloadBytes items) = some (kept, bytes)) :
    kept.Sublist items ∧ bytes = payloadBytes kept ∧
      ∀ item ∈ items, item.isTerminal → item ∈ kept := by
  induction n generalizing items with
  | zero =>
    obtain ⟨rfl, rfl⟩ := Prod.mk.inj (some.inj h)
    exact ⟨Sublist.refl _, rfl, fun _ hmem _ => hmem⟩
  | succ n ih =>
    unfold evict at h
    split at h
    · cases hvictim : victim items with
      | none =>
        rw [hvictim] at h
        cases h
      | some i =>
        obtain ⟨dropped, hdropped, hterminal⟩ := victim_eq_some hvictim
        rw [hvictim] at h
        dsimp only at h
        have hbytes := payloadBytes_eraseIdx hdropped
        rw [hdropped, map_some, getD_some, ← hbytes, Nat.add_sub_cancel] at h
        obtain ⟨hsub, hcount, hall⟩ := ih h
        refine ⟨hsub.trans (eraseIdx_sublist _ _), hcount, ?_⟩
        intro item hmem hitem
        apply hall item _ hitem
        apply mem_eraseIdx_of_ne hdropped hmem
        rintro rfl
        rw [hterminal] at hitem
        cases hitem
    · obtain ⟨rfl, rfl⟩ := Prod.mk.inj (some.inj h)
      exact ⟨Sublist.refl _, rfl, fun _ hmem _ => hmem⟩

variable {dumpLength : DumpLength} {q q' : BoundedRelayQueue}

structure Accepts (dumpLength : DumpLength) (q : BoundedRelayQueue) (candidate : QueuedEnvelope)
    (item : QueuedEnvelope) (kept : List QueuedEnvelope) (q' : BoundedRelayQueue) : Prop where
  merged : ∃ receipts, mergedReceipts candidate (coalesce q.items candidate) = some receipts ∧
    withMergedReceipts dumpLength candidate receipts = some item
  sublist : kept.Sublist (q.survivors candidate)
  terminals : ∀ queued ∈ q.survivors candidate, queued.isTerminal = true → queued ∈ kept
  count : kept.length < q.maxItems
  size : payloadBytes kept + item.payload ≤ q.maxBytes
  queue : q' = { q with
    items := kept ++ [{ item with ident := q.nextIdent }]
    bytes := payloadBytes kept + item.payload
    nextIdent := q.nextIdent + 1 }

/-- `put` raises, or leaves the queue alone, or takes the item. -/
theorem put_cases (dumpLength : DumpLength) (q : BoundedRelayQueue) (candidate : QueuedEnvelope) :
    (q.put dumpLength candidate = none ∧ candidate.payload ≤ q.maxBytes ∧
      ∀ receipts, mergedReceipts candidate (coalesce q.items candidate) = some receipts →
        withMergedReceipts dumpLength candidate receipts = none) ∨
    q.put dumpLength candidate = some (false, q) ∨
    ∃ item kept q', q.put dumpLength candidate = some (true, q') ∧
      q.Accepts dumpLength candidate item kept q' := by
  unfold put
  by_cases hsize : q.maxBytes < candidate.payload
  · rw [if_pos hsize]
    exact .inr (.inl rfl)
  · rw [if_neg hsize]
    simp only [Option.bind_eq_bind, Option.pure_def]
    cases hreceipts : mergedReceipts candidate (coalesce q.items candidate) with
    | none => exact .inl ⟨rfl, by omega, by simp⟩
    | some receipts =>
      rw [bind_some]
      cases hitem : withMergedReceipts dumpLength candidate receipts with
      | none =>
        refine .inl ⟨rfl, by omega, ?_⟩
        intro other hother
        cases hother
        exact hitem
      | some item =>
        rw [bind_some]
        right
        unfold place
        cases hevict : q.evict item.payload (q.survivors candidate).length (q.survivors candidate)
            (payloadBytes (q.survivors candidate)) with
        | none => exact .inl rfl
        | some found =>
          obtain ⟨kept, bytes⟩ := found
          obtain ⟨hsub, hbytes, hterminals⟩ := evict_eq_some hevict
          dsimp only
          by_cases hover : q.overflows kept.length bytes item.payload
          · rw [if_pos hover]
            exact .inl rfl
          · rw [if_neg hover]
            right
            rw [overflows, Bool.or_eq_true, not_or, decide_eq_true_eq, decide_eq_true_eq,
              hbytes] at hover
            refine ⟨item, kept, _, rfl, ⟨receipts, hreceipts, hitem⟩, hsub, hterminals,
              by omega, by omega, ?_⟩
            rw [hbytes]

variable {removed : List QueuedEnvelope}

theorem carries_of_merged (hreceipts : mergedReceipts candidate removed = some receipts)
    (hitem : withMergedReceipts dumpLength candidate receipts = some item) :
    ∃ carried, relayBoundaryReceipts item.envelope = some carried ∧
      (∀ r ∈ receipts, r.key ∈ carried.map BoundaryReceipt.key) ∧
      (item.isProgress → carried = []) := by
  simp only [mergedReceipts, Option.bind_eq_bind, Option.bind_eq_some_iff, Option.pure_def,
    Option.some.injEq] at hreceipts
  obtain ⟨own, hown, others, hothers, rfl⟩ := hreceipts
  unfold withMergedReceipts at hitem
  split at hitem
  · rename_i hempty
    cases hitem
    rw [List.isEmpty_iff] at hempty
    have hnone : own = [] := (append_eq_nil_iff.mp hempty).1
    refine ⟨own, hown, ?_, fun _ => hnone⟩
    rw [hempty]
    simp
  · simp only [Option.bind_eq_bind, Option.bind_eq_some_iff, Option.pure_def,
      Option.some.injEq] at hitem
    obtain ⟨payload, -, rfl⟩ := hitem
    have hpos : ∀ r ∈ own ++ others.flatten, 1 ≤ r.seq := by
      intro r hr
      rcases mem_append.mp hr with hmem | hmem
      · exact seq_pos_of_relayBoundaryReceipts hown r hmem
      · obtain ⟨list, hlist, hr⟩ := mem_flatten.mp hmem
        obtain ⟨queued, -, hqueued⟩ := exists_of_mem_right (forall₂_of_mapM hothers) hlist
        exact seq_pos_of_relayBoundaryReceipts hqueued r hr
    refine ⟨deduplicated (own ++ others.flatten), ?_, fun r hr => key_mem_deduplicated hr, ?_⟩
    · apply relayBoundaryReceipts_withReceipts
      intro r hr
      exact hpos r (mem_of_mem_deduplicated hr)
    · intro hprogress
      simp [QueuedEnvelope.isProgress] at hprogress

theorem mem_merged {own : List BoundaryReceipt}
    (hreceipts : mergedReceipts candidate removed = some receipts) (hmem : queued ∈ removed)
    (hown : relayBoundaryReceipts queued.envelope = some own) : ∀ r ∈ own, r ∈ receipts := by
  simp only [mergedReceipts, Option.bind_eq_bind, Option.bind_eq_some_iff, Option.pure_def,
    Option.some.injEq] at hreceipts
  obtain ⟨first, -, others, hothers, rfl⟩ := hreceipts
  obtain ⟨list, hlist, hsome⟩ := exists_of_mem_left (forall₂_of_mapM hothers) hmem
  obtain rfl := Option.some.inj (hown.symm.trans hsome)
  intro r hr
  exact mem_append_right _ (mem_flatten.mpr ⟨own, hlist, hr⟩)

theorem same_of_merged (hitem : withMergedReceipts dumpLength candidate receipts = some item) :
    item.envelope.kind = candidate.envelope.kind ∧ item.generationKey = candidate.generationKey ∧
      item.envelope.sourceRevision = candidate.envelope.sourceRevision := by
  unfold withMergedReceipts at hitem
  split at hitem
  · cases hitem
    exact ⟨rfl, rfl, rfl⟩
  · simp only [Option.bind_eq_bind, Option.bind_eq_some_iff, Option.pure_def,
      Option.some.injEq] at hitem
    obtain ⟨payload, -, rfl⟩ := hitem
    exact ⟨rfl, rfl, rfl⟩

end BoundedRelayQueue

open BoundedRelayQueue

/-- The queue and the items that `get` took from it. -/
structure QueueRun where
  queue : BoundedRelayQueue
  taken : List QueuedEnvelope := []

inductive QueueEvent
  | enqueue (envelope : Envelope) (cumulativeBoundary : Bool)
  | get

namespace QueueRun

def start (maxItems maxBytes : Nat) : QueueRun := ⟨{ maxItems, maxBytes }, []⟩

def step (dumpLength : DumpLength) (s : QueueRun) : QueueEvent → QueueRun
  | .enqueue envelope cumulativeBoundary =>
    match enqueue dumpLength s.queue envelope cumulativeBoundary with
    | none => s
    | some (_, queue) => { s with queue }
  | .get =>
    match s.queue.get with
    | none => s
    | some (item, queue) => ⟨queue, s.taken ++ [item]⟩

/-- The queue counts its bytes and keeps to its limits. -/
structure Bounded (s : QueueRun) : Prop where
  bytes_eq : s.queue.bytes = payloadBytes s.queue.items
  bytes_le : s.queue.bytes ≤ s.queue.maxBytes
  count_le : s.queue.items.length ≤ s.queue.maxItems
  ordered : ((s.taken ++ s.queue.items).map (·.ident)).Pairwise (· < ·)

/-- Identities are below the next one, and receipts can be read. -/
structure Sound (s : QueueRun) : Prop extends s.Bounded where
  below : ∀ item ∈ s.taken ++ s.queue.items, item.ident < s.queue.nextIdent
  receipts : ∀ item ∈ s.queue.items, ∃ own, relayBoundaryReceipts item.envelope = some own ∧
    (item.isProgress = true → own = [])

end QueueRun

/-- The item that `enqueue` hands to the queue. -/
def candidateOf (dumpLength : DumpLength) (q : BoundedRelayQueue) (e : Envelope)
    (cumulativeBoundary : Bool) : QueuedEnvelope :=
  ⟨q.nextIdent, e, dumpLength e, cumulativeBoundary || e.inactive⟩

/-- An item gives way to a later one of its generation: it is coalesced, or it is a progress
item. -/
def Superseded (dumpLength : DumpLength) (q : BoundedRelayQueue) (e : Envelope)
    (cumulativeBoundary : Bool) (queued : QueuedEnvelope) : Prop :=
  queued.generationKey = e.generationKey ∧ (queued.isProgress = true ∨
    queued ∈ coalesce q.items (candidateOf dumpLength q e cumulativeBoundary))

/-- What an accepted envelope keeps of the queue, and what its item carries on. -/
structure AcceptKeeps (dumpLength : DumpLength) (q : BoundedRelayQueue) (e : Envelope)
    (cumulativeBoundary : Bool) (kept : List QueuedEnvelope) (item : QueuedEnvelope) : Prop where
  sublist : kept.Sublist q.items
  ident : item.ident = q.nextIdent
  kind : item.envelope.kind = e.kind
  generation : item.generationKey = e.generationKey
  revision : item.envelope.sourceRevision = e.sourceRevision
  terminals : ∀ queued ∈ q.items, queued ∉ kept → queued.isTerminal = true →
    e.inactive = true ∧ queued.generationKey = e.generationKey ∧
      queued.envelope.sourceRevision.val < e.sourceRevision.val
  carried : ∀ queued ∈ q.items, queued ∉ kept →
    Superseded dumpLength q e cumulativeBoundary queued →
    ∀ own, relayBoundaryReceipts queued.envelope = some own →
      ∃ carried, relayBoundaryReceipts item.envelope = some carried ∧
        ∀ r ∈ own, r.key ∈ carried.map BoundaryReceipt.key

/-- `enqueue` returns; refused it changes nothing, accepted it keeps what matters. -/
def EnqueueKeeps (dumpLength : DumpLength) (q : BoundedRelayQueue) (e : Envelope)
    (cumulativeBoundary : Bool) : Prop :=
  ∃ accepted q', enqueue dumpLength q e cumulativeBoundary = some (accepted, q') ∧
    (accepted = false → q' = q) ∧
    (accepted = true → ∃ kept item, q'.items = kept ++ [item] ∧
      AcceptKeeps dumpLength q e cumulativeBoundary kept item)

/-- The receipts of an envelope that fits are valid, and the envelope with them and those it
supersedes is within the raw limit. -/
def MergesWithinLimit (dumpLength : DumpLength) (q : BoundedRelayQueue) (e : Envelope)
    (cumulativeBoundary : Bool) : Prop :=
  dumpLength e ≤ maxRawPayloadBytes → dumpLength e ≤ q.maxBytes →
    ∃ own, relayBoundaryReceipts e = some own ∧
      ∀ others, (coalesce q.items (candidateOf dumpLength q e cumulativeBoundary)).mapM
          (fun queued => relayBoundaryReceipts queued.envelope) = some others →
        own ++ others.flatten ≠ [] →
        dumpLength (e.withReceipts (deduplicated (own ++ others.flatten))) ≤ maxRawPayloadBytes

namespace QueueRun

variable {dumpLength : DumpLength} {s : QueueRun} {e : Envelope} {cumulativeBoundary : Bool}

theorem enqueue_oversized (h : maxRawPayloadBytes < dumpLength e) :
    enqueue dumpLength s.queue e cumulativeBoundary = some (false, s.queue) := by
  rw [enqueue, rawEncoded, if_pos h]

theorem enqueue_fits (h : dumpLength e ≤ maxRawPayloadBytes) :
    enqueue dumpLength s.queue e cumulativeBoundary =
      s.queue.put dumpLength (candidateOf dumpLength s.queue e cumulativeBoundary) := by
  rw [enqueue, rawEncoded, if_neg (Nat.not_lt.mpr h)]
  rfl

theorem put_ne_none_iff {q : BoundedRelayQueue} {candidate : QueuedEnvelope}
    (hfits : candidate.payload ≤ q.maxBytes)
    (h : mergedReceipts candidate (coalesce q.items candidate) = some receipts) :
    q.put dumpLength candidate ≠ none ↔
      (receipts ≠ [] → dumpLength (candidate.envelope.withReceipts (deduplicated receipts)) ≤
        maxRawPayloadBytes) := by
  unfold put
  rw [if_neg (Nat.not_lt.mpr hfits), h]
  simp only [Option.bind_eq_bind, Option.bind_some, withMergedReceipts, Option.pure_def]
  cases receipts with
  | nil => simp
  | cons first rest =>
    simp only [isEmpty_cons, Bool.false_eq_true, if_false, rawEncoded, ne_eq, reduceCtorEq,
      not_false_eq_true, forall_true_left]
    by_cases hlimit : maxRawPayloadBytes <
        dumpLength (candidate.envelope.withReceipts (deduplicated (first :: rest)))
    · simp [hlimit]
    · simp [hlimit, Nat.not_lt.mp hlimit]

theorem ne_none_iff (hs : s.Sound) : enqueue dumpLength s.queue e cumulativeBoundary ≠ none ↔
      MergesWithinLimit dumpLength s.queue e cumulativeBoundary := by
  unfold MergesWithinLimit
  by_cases hlimit : dumpLength e ≤ maxRawPayloadBytes
  · rw [enqueue_fits hlimit]
    by_cases hfits : dumpLength e ≤ s.queue.maxBytes
    · obtain ⟨others, hothers⟩ : ∃ others,
          (coalesce s.queue.items (candidateOf dumpLength s.queue e cumulativeBoundary)).mapM
            (fun queued => relayBoundaryReceipts queued.envelope) = some others := by
        apply exists_mapM
        intro queued hqueued
        obtain ⟨own, hown, -⟩ := hs.receipts queued (mem_coalesce hqueued).1
        exact ⟨own, hown⟩
      cases hown : relayBoundaryReceipts e with
      | none =>
        have hmerged : mergedReceipts (candidateOf dumpLength s.queue e cumulativeBoundary)
            (coalesce s.queue.items (candidateOf dumpLength s.queue e cumulativeBoundary)) =
              none := by
          simp only [mergedReceipts, candidateOf, hown, bind_eq_bind, bind_none]
        have hraises : s.queue.put dumpLength
            (candidateOf dumpLength s.queue e cumulativeBoundary) = none := by
          unfold put
          rw [hmerged]
          exact if_neg (Nat.not_lt.mpr hfits)
        simp [hraises, hlimit, hfits]
      | some own =>
        have hmerged : mergedReceipts (candidateOf dumpLength s.queue e cumulativeBoundary)
            (coalesce s.queue.items (candidateOf dumpLength s.queue e cumulativeBoundary)) =
              some (own ++ others.flatten) := by
          rw [mergedReceipts, hothers]
          simp only [candidateOf, hown, Option.bind_eq_bind, Option.bind_some, Option.pure_def]
        rw [put_ne_none_iff hfits hmerged]
        constructor
        · intro h _ _
          refine ⟨own, rfl, ?_⟩
          intro others' hothers' hne
          obtain rfl := some.inj (hothers.symm.trans hothers')
          exact h hne
        · intro h
          obtain ⟨own', hown', hall⟩ := h hlimit hfits
          cases hown'
          exact hall others hothers
    · have hrefused : s.queue.put dumpLength
          (candidateOf dumpLength s.queue e cumulativeBoundary) = some (false, s.queue) := by
        exact if_pos (Nat.not_le.mp hfits)
      simp [hrefused, hfits]
  · rw [enqueue_oversized (Nat.not_le.mp hlimit)]
    simp [hlimit]

theorem survivors_sublist (q : BoundedRelayQueue) (candidate : QueuedEnvelope) :
    (q.survivors candidate).Sublist q.items := filter_sublist

theorem mem_coalesce_of_not_survivor {q : BoundedRelayQueue} {candidate queued : QueuedEnvelope}
    (hordered : (q.items.map (·.ident)).Nodup) (hmem : queued ∈ q.items)
    (h : queued ∉ q.survivors candidate) : queued ∈ coalesce q.items candidate := by
  have hident : queued.ident ∈ (coalesce q.items candidate).map (·.ident) := by
    by_contra hnot
    apply h
    rw [survivors, mem_filter]
    refine ⟨hmem, ?_⟩
    simpa using hnot
  obtain ⟨other, hother, hsame⟩ := mem_map.mp hident
  have heq : other = queued :=
    inj_on_of_nodup_map hordered (mem_coalesce hother).1 hmem hsame
  rw [← heq]
  exact hother

theorem Sound.accepted (hs : s.Sound) {q' : BoundedRelayQueue}
    (h : s.queue.Accepts dumpLength (candidateOf dumpLength s.queue e cumulativeBoundary) item
      kept q') :
    (QueueRun.mk q' s.taken).Sound ∧ q'.items = kept ++ [{ item with ident := s.queue.nextIdent }] ∧
      AcceptKeeps dumpLength s.queue e cumulativeBoundary kept
        { item with ident := s.queue.nextIdent } := by
  obtain ⟨receipts, hreceipts, hitem⟩ := h.merged
  obtain ⟨hkind, hgeneration, hrevision⟩ := same_of_merged hitem
  obtain ⟨carried, hcarried, hkeys, hprogress⟩ := carries_of_merged hreceipts hitem
  have hkept : kept.Sublist s.queue.items := h.sublist.trans (survivors_sublist _ _)
  have hbefore : (s.taken ++ kept).Sublist (s.taken ++ s.queue.items) :=
    (Sublist.refl _).append hkept
  have hnodup : (s.queue.items.map (·.ident)).Nodup := by
    have hordered := hs.ordered
    rw [map_append] at hordered
    exact (pairwise_append.mp hordered).2.1.imp fun hlt => Nat.ne_of_lt hlt
  have hcoalesced : ∀ queued ∈ s.queue.items, queued ∉ kept →
      (queued.isTerminal → queued ∈ coalesce s.queue.items
        (candidateOf dumpLength s.queue e cumulativeBoundary)) := by
    intro queued hmem hgone hterminal
    apply mem_coalesce_of_not_survivor hnodup hmem
    intro hsurvivor
    exact hgone (h.terminals queued hsurvivor hterminal)
  rw [h.queue]
  refine ⟨⟨⟨?_, h.size, ?_, ?_⟩, ?_, ?_⟩, rfl, ⟨hkept, rfl, hkind, hgeneration, hrevision, ?_, ?_⟩⟩
  · rw [payloadBytes_append, payloadBytes_cons, payloadBytes_nil]
    rfl
  · rw [length_append, length_singleton]
    exact h.count
  · rw [← append_assoc, map_append]
    apply pairwise_append.mpr
    refine ⟨hs.ordered.sublist (hbefore.map _), pairwise_singleton _ _, ?_⟩
    intro a ha b hb
    obtain ⟨other, hother, rfl⟩ := mem_map.mp ha
    rw [map_singleton, mem_singleton] at hb
    rw [hb]
    exact hs.below other (hbefore.subset hother)
  · intro other hother
    rw [← append_assoc] at hother
    rcases mem_append.mp hother with hold | hnew
    · exact (hs.below other (hbefore.subset hold)).trans (Nat.lt_succ_self _)
    · rw [mem_singleton.mp hnew]
      exact Nat.lt_succ_self _
  · intro other hother
    rcases mem_append.mp hother with hold | hnew
    · exact hs.receipts other (hkept.subset hold)
    · rw [mem_singleton.mp hnew]
      exact ⟨carried, hcarried, hprogress⟩
  · intro queued hmem hgone hterminal
    obtain ⟨-, hkey, hlower⟩ := mem_coalesce (hcoalesced queued hmem hgone hterminal)
    obtain ⟨hinactive, hrevision⟩ := hlower hterminal
    exact ⟨hinactive, hkey, hrevision⟩
  · intro queued hmem _ hsuperseded own hown
    refine ⟨carried, hcarried, ?_⟩
    rcases hsuperseded.2 with hprogress | hcoalesce
    · obtain ⟨none, hnone, hempty⟩ := hs.receipts queued hmem
      obtain rfl := some.inj (hown.symm.trans hnone)
      rw [hempty hprogress]
      simp
    · intro r hr
      exact hkeys r (mem_merged hreceipts hcoalesce hown r hr)

theorem enqueue_cases (dumpLength : DumpLength) (s : QueueRun) (e : Envelope)
    (cumulativeBoundary : Bool) :
    enqueue dumpLength s.queue e cumulativeBoundary = none ∨
      enqueue dumpLength s.queue e cumulativeBoundary = some (false, s.queue) ∨
      ∃ item kept q', enqueue dumpLength s.queue e cumulativeBoundary = some (true, q') ∧
        s.queue.Accepts dumpLength (candidateOf dumpLength s.queue e cumulativeBoundary) item
          kept q' := by
  by_cases hlimit : dumpLength e ≤ maxRawPayloadBytes
  · rw [enqueue_fits hlimit]
    rcases put_cases dumpLength s.queue (candidateOf dumpLength s.queue e cumulativeBoundary) with
      ⟨hraises, -⟩ | hplaced
    · exact .inl hraises
    · exact .inr hplaced
  · exact .inr (.inl (enqueue_oversized (Nat.not_le.mp hlimit)))

theorem Sound.get (hs : s.Sound) : (s.step dumpLength .get).Sound := by
  unfold QueueRun.step BoundedRelayQueue.get
  cases hitems : s.queue.items with
  | nil => exact hs
  | cons =>
    have hbytes := hs.bytes_eq
    have hle := hs.bytes_le
    have hcount := hs.count_le
    have hordered := hs.ordered
    have hbelow := hs.below
    rw [hitems] at hbytes hcount hordered hbelow
    rw [payloadBytes_cons] at hbytes
    rw [length_cons] at hcount
    refine ⟨⟨?_, ?_, ?_, ?_⟩, ?_, ?_⟩
    · dsimp only
      omega
    · dsimp only
      omega
    · dsimp only
      omega
    · simpa using hordered
    · simpa using hbelow
    · intro other hother
      apply hs.receipts other
      rw [hitems]
      exact mem_cons_of_mem _ hother

theorem Sound.step (hs : s.Sound) (event : QueueEvent) : (s.step dumpLength event).Sound := by
  cases event with
  | get => exact hs.get
  | enqueue e cumulativeBoundary =>
    rcases enqueue_cases dumpLength s e cumulativeBoundary with
      hraises | hrefused | ⟨item, kept, q', haccepted, haccepts⟩
    · simp only [QueueRun.step, hraises]
      exact hs
    · simp only [QueueRun.step, hrefused]
      exact hs
    · simp only [QueueRun.step, haccepted]
      exact (hs.accepted haccepts).1

theorem Sound.enqueueKeeps_iff (hs : s.Sound) :
    EnqueueKeeps dumpLength s.queue e cumulativeBoundary ↔
      MergesWithinLimit dumpLength s.queue e cumulativeBoundary := by
  rw [← ne_none_iff hs]
  constructor
  · rintro ⟨accepted, q', h, -⟩
    rw [h]
    simp
  · intro hreturns
    rcases enqueue_cases dumpLength s e cumulativeBoundary with
      hraises | hrefused | ⟨item, kept, q', haccepted, haccepts⟩
    · exact absurd hraises hreturns
    · exact ⟨false, s.queue, hrefused, fun _ => rfl, by simp⟩
    · obtain ⟨-, hitems, hkeeps⟩ := hs.accepted haccepts
      exact ⟨true, q', haccepted, by simp, fun _ => ⟨kept, _, hitems, hkeeps⟩⟩

theorem sound_start (maxItems maxBytes : Nat) : (start maxItems maxBytes).Sound :=
  ⟨⟨rfl, Nat.zero_le _, Nat.zero_le _, List.Pairwise.nil⟩, by simp [start], by simp [start]⟩

def Keeps (dumpLength : DumpLength) (s : QueueRun) : QueueEvent → Prop
  | .enqueue e cumulativeBoundary => EnqueueKeeps dumpLength s.queue e cumulativeBoundary
  | .get => True

def Merges (dumpLength : DumpLength) (s : QueueRun) : QueueEvent → Prop
  | .enqueue e cumulativeBoundary => MergesWithinLimit dumpLength s.queue e cumulativeBoundary
  | .get => True

theorem Sound.keeps_iff (hs : s.Sound) (event : QueueEvent) :
    s.Keeps dumpLength event ↔ s.Merges dumpLength event := by
  cases event with
  | enqueue => exact hs.enqueueKeeps_iff
  | get => exact Iff.rfl

end QueueRun

open BoundedRelayQueue QueueRun

/-- The queue keeps what matters in every step of a run exactly when no envelope has receipts
that are not valid or outgrows the raw limit with the receipts it takes over. -/
theorem queue_keeps_iff (dumpLength : DumpLength) (maxItems maxBytes : Nat)
    (events : List QueueEvent) :
    ((∀ pre, pre <+: events → (Runs.run (step dumpLength) (start maxItems maxBytes) pre).Bounded) ∧
      ∀ pre event, pre ++ [event] <+: events →
        (Runs.run (step dumpLength) (start maxItems maxBytes) pre).Keeps dumpLength event) ↔
      Runs.Meets (step dumpLength) (Merges dumpLength) (start maxItems maxBytes) events := by
  have hsound : ∀ es, (Runs.run (step dumpLength) (start maxItems maxBytes) es).Sound :=
    Runs.run_invariant Sound (fun s e hs => hs.step e) (sound_start maxItems maxBytes)
  rw [Runs.meets_iff_forall_prefix]
  constructor
  · intro h pre event hpre
    exact ((hsound pre).keeps_iff event).mp (h.2 pre event hpre)
  · intro h
    refine ⟨fun pre _ => (hsound pre).toBounded, ?_⟩
    intro pre event hpre
    exact ((hsound pre).keeps_iff event).mpr (h pre event hpre)

theorem token_safe : 7 ≤ maxRedisSafeInteger := by decide

theorem revision_safe : 2 ≤ maxRedisSafeInteger := by decide

def progressEnvelope : Envelope where
  kind := .runtime
  eventId := "event-1"
  generatedAt := 0
  origin := ⟨"controller-a", "incarnation-1", "epoch-a"⟩
  conversationId := "conversation"
  sessionId := "session"
  turnId := "turn"
  directRequestId := "request"
  owner := ⟨"controller-a", "incarnation-1"⟩
  fencingToken := ⟨7, token_safe⟩
  sourceRevision := ⟨2, revision_safe⟩

/-- The length of `progressEnvelope`'s JSON with the receipts it carries. -/
def receiptDumpLength (e : Envelope) : Nat :=
  let receipts := (relayBoundaryReceipts e).getD []
  583 + (receipts.length - 1) + (receipts.map fun r =>
    61 + r.sessionId.length + (Nat.repr r.seq).length + r.queueId.length +
      r.clientMessageId.length).sum

def boundaryEnvelope (queueId : String) (seq : Nat) : Envelope :=
  progressEnvelope.withReceipts [⟨"session", seq, queueId, "message"⟩]

section

variable {queueId : String}

theorem receiptDumpLength_of_receipts {e : Envelope} (h : relayBoundaryReceipts e = some receipts) :
    receiptDumpLength e = 583 + (receipts.length - 1) + (receipts.map fun r =>
      61 + r.sessionId.length + (Nat.repr r.seq).length + r.queueId.length +
        r.clientMessageId.length).sum := by
  unfold receiptDumpLength
  rw [h]
  rfl

theorem relayBoundaryReceipts_boundaryEnvelope {seq : Nat} (h : 1 ≤ seq) :
    relayBoundaryReceipts (boundaryEnvelope queueId seq) =
      some [⟨"session", seq, queueId, "message"⟩] :=
  relayBoundaryReceipts_withReceipts _ (by simpa using h)

theorem receiptDumpLength_boundaryEnvelope {seq : Nat} (h : 1 ≤ seq) :
    receiptDumpLength (boundaryEnvelope queueId seq) =
      658 + (Nat.repr seq).length + queueId.length := by
  have hsession : "session".length = 7 := rfl
  have hmessage : "message".length = 7 := rfl
  rw [receiptDumpLength_of_receipts (relayBoundaryReceipts_boundaryEnvelope h)]
  simp only [length_singleton, map_cons, map_nil, sum_cons, sum_nil, hsession, hmessage]
  omega

def afterFirst (queueId : String) : BoundedRelayQueue where
  maxItems := 256
  maxBytes := 4194304
  items := [⟨0, boundaryEnvelope queueId 1, 659 + 1024 * 1024, true⟩]
  bytes := 659 + 1024 * 1024
  nextIdent := 1

variable (hlength : queueId.length = 1024 * 1024)
include hlength

theorem enqueue_first :
    enqueue receiptDumpLength (start 256 4194304).queue (boundaryEnvelope queueId 1) true =
      some (true, afterFirst queueId) := by
  have hlen : receiptDumpLength (boundaryEnvelope queueId 1) = 659 + 1024 * 1024 := by
    have hdigits : (Nat.repr 1).length = 1 := rfl
    rw [receiptDumpLength_boundaryEnvelope (Nat.le_refl 1), hlength, hdigits]
  have hread : relayBoundaryReceipts (boundaryEnvelope queueId 1) =
      some [⟨"session", 1, queueId, "message"⟩] :=
    relayBoundaryReceipts_boundaryEnvelope (Nat.le_refl 1)
  have hcopy : (boundaryEnvelope queueId 1).withReceipts
      (deduplicated [⟨"session", 1, queueId, "message"⟩]) = boundaryEnvelope queueId 1 := rfl
  have hraw : rawEncoded receiptDumpLength (boundaryEnvelope queueId 1) =
      some (659 + 1024 * 1024) := by
    unfold rawEncoded
    rw [hlen, if_neg (by decide)]
  have hbytes : ¬ (start 256 4194304).queue.maxBytes < 659 + 1024 * 1024 := by decide
  simp only [enqueue, hraw]
  unfold put
  simp only [start, coalesce, progressSinceBoundary, upToLastBoundary, survivors, mergedReceipts,
    hread,
    withMergedReceipts, hcopy, hraw, reverse_nil, take_nil, filter_nil,
    ite_self, mapM_nil, Option.bind_eq_bind, Option.pure_def, Option.bind_some,
    flatten_nil, append_nil, isEmpty_cons, Bool.false_eq_true, if_false]
  simp [place, evict, overflows, payloadBytes, afterFirst]

theorem enqueue_second :
    enqueue receiptDumpLength (afterFirst queueId) (boundaryEnvelope queueId 2) true = none := by
  have hlen : receiptDumpLength (boundaryEnvelope queueId 2) = 659 + 1024 * 1024 := by
    have hdigits : (Nat.repr 2).length = 1 := rfl
    rw [receiptDumpLength_boundaryEnvelope (by decide), hlength, hdigits]
  have hfirst : relayBoundaryReceipts (boundaryEnvelope queueId 1) =
      some [⟨"session", 1, queueId, "message"⟩] :=
    relayBoundaryReceipts_boundaryEnvelope (Nat.le_refl 1)
  have hsecond : relayBoundaryReceipts (boundaryEnvelope queueId 2) =
      some [⟨"session", 2, queueId, "message"⟩] :=
    relayBoundaryReceipts_boundaryEnvelope (by decide)
  have hcoalesce : coalesce (afterFirst queueId).items
      ⟨1, boundaryEnvelope queueId 2, 659 + 1024 * 1024,
        true || (boundaryEnvelope queueId 2).inactive⟩ = (afterFirst queueId).items := rfl
  have hmerged : relayBoundaryReceipts ((boundaryEnvelope queueId 2).withReceipts
      (deduplicated [⟨"session", 2, queueId, "message"⟩, ⟨"session", 1, queueId, "message"⟩])) =
      some [⟨"session", 2, queueId, "message"⟩, ⟨"session", 1, queueId, "message"⟩] :=
    relayBoundaryReceipts_withReceipts _ (by
      intro r hr
      rcases mem_pair.mp (mem_of_mem_deduplicated hr) with rfl | rfl
      · exact Nat.le_succ 1
      · exact Nat.le_refl 1)
  have hraw : rawEncoded receiptDumpLength (boundaryEnvelope queueId 2) =
      some (659 + 1024 * 1024) := by
    unfold rawEncoded
    rw [hlen, if_neg (by decide)]
  have houtgrown : rawEncoded receiptDumpLength ((boundaryEnvelope queueId 2).withReceipts
      (deduplicated [⟨"session", 2, queueId, "message"⟩, ⟨"session", 1, queueId, "message"⟩])) =
      none := by
    unfold rawEncoded
    rw [receiptDumpLength_of_receipts hmerged, if_pos]
    simp only [maxRawPayloadBytes, map_cons, map_nil, sum_cons, sum_nil, hlength]
    omega
  have hbytes : ¬ (afterFirst queueId).maxBytes < 659 + 1024 * 1024 := by
    simp [afterFirst]
  simp only [enqueue, hraw]
  unfold put
  rw [if_neg hbytes]
  have hident : (afterFirst queueId).nextIdent = 1 := rfl
  have hitems : (afterFirst queueId).items =
      [⟨0, boundaryEnvelope queueId 1, 659 + 1024 * 1024, true⟩] := rfl
  rw [hident, hcoalesce, hitems]
  simp only [mergedReceipts, hfirst, hsecond, withMergedReceipts, houtgrown,
    mapM_cons, mapM_nil, Option.bind_eq_bind, Option.pure_def, Option.bind_some,
    flatten_cons, flatten_nil, append_nil, singleton_append, isEmpty_cons,
    Bool.false_eq_true, if_false, Option.bind_none]

theorem not_keeps_second :
    ¬ (Runs.run (step receiptDumpLength) (start 256 4194304)
        [.enqueue (boundaryEnvelope queueId 1) true]).Keeps receiptDumpLength
      (.enqueue (boundaryEnvelope queueId 2) true) := by
  have hstate : Runs.run (step receiptDumpLength) (start 256 4194304)
      [.enqueue (boundaryEnvelope queueId 1) true] = ⟨afterFirst queueId, []⟩ := by
    simp only [Runs.run_cons, Runs.run_nil, step, enqueue_first hlength]
    rfl
  rw [hstate]
  rintro ⟨accepted, q', h, -⟩
  rw [enqueue_second hlength] at h
  cases h

end

def longText : String := String.ofList (replicate (1024 * 1024) 'a')

theorem length_longText : longText.length = 1024 * 1024 := by
  unfold longText
  rw [String.length_ofList, length_replicate]

/-- Two boundaries of one generation whose receipts are long: the second call raises. -/
theorem second_enqueue_raises : ¬ (Runs.run (step receiptDumpLength) (start 256 4194304)
        [.enqueue (boundaryEnvelope longText 1) true]).Keeps receiptDumpLength
      (.enqueue (boundaryEnvelope longText 2) true) :=
  not_keeps_second length_longText

end Cognis.RuntimeRelay
