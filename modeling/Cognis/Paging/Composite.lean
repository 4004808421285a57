import Cognis.Paging.History

namespace Cognis.Paging

open SortByKey

variable (refs : List ConversationSessionRef) (ctx : CursorContext) (positions : CompositePositions)

def unread (ref : ConversationSessionRef) : List RawSessionEvent :=
  ref.reader.before (beforeOf positions ref)

def unreadLog : List RawSessionEvent :=
  refs.flatMap (fun ref => tagEvents (unread positions ref) ref)

def nextPositions (limit : Nat) : CompositePositions :=
  OrderedMap.ofList (refs.map (fun ref =>
    (ref.stream, some (((nextFrontiers refs positions limit).get? ref.stream).getD 0))))

def initialPositions : CompositePositions :=
  OrderedMap.ofList (refs.map (fun ref => (ref.stream, none)))

def PagingStep (limit : Nat) (p q : CompositePositions) : Prop :=
  (globalWindow refs p limit).hasMoreBefore = true ∧ q = nextPositions refs p limit

/-- Fewer than `limit` of the competing events are newer by the global key. -/
def WithinCut (limit : Nat) (event : RawSessionEvent) : Prop :=
  (candidates refs positions limit).countP
    (fun x => globalEventKey event < globalEventKey x) < limit

def CutRespectsSeq (limit : Nat) (positions : CompositePositions) : Prop :=
  ∀ ref ∈ refs, ∀ e ∈ streamEvents positions limit ref, ∀ f ∈ streamEvents positions limit ref,
    e.seq < f.seq → WithinCut refs positions limit (tag ref e) →
      WithinCut refs positions limit (tag ref f)

theorem SessionReader.before_sublist (r : SessionReader) (b : Option Nat) :
    (r.before b).Sublist r.events := by
  cases b with
  | none => exact List.Sublist.refl _
  | some s => exact List.filter_sublist

section

variable (p : CompositePositions)
include p

theorem unread_sublist (ref : ConversationSessionRef) :
    (unread p ref).Sublist ref.reader.events := ref.reader.before_sublist _

theorem streamEvents_eq (limit : Nat) (ref : ConversationSessionRef) :
    streamEvents p limit ref = (unread p ref).drop ((unread p ref).length - limit) := by
  unfold streamEvents pageBelow streamPage unread
  cases hb : beforeOf p ref with
  | none => rfl
  | some s =>
    simp only [SessionReader.readSessionEvents]
    rw [List.filter_eq_self]
    intro e he
    exact (List.mem_filter.mp (List.mem_of_mem_drop he)).2

theorem streamPage_events (limit : Nat) (ref : ConversationSessionRef) :
    (streamPage p limit ref).events = streamEvents p limit ref := by
  rw [streamEvents_eq]; rfl

theorem streamPage_hasMoreBefore (limit : Nat)
    (ref : ConversationSessionRef) :
    (streamPage p limit ref).hasMoreBefore = decide (limit < (unread p ref).length) := rfl

theorem streamEvents_sublist (limit : Nat) (ref : ConversationSessionRef) :
    (streamEvents p limit ref).Sublist (unread p ref) := by
  rw [streamEvents_eq]; exact List.drop_sublist _ _

end

variable {ref : ConversationSessionRef} {p : CompositePositions} {limit : Nat}

theorem mem_streamEvents_of_later {e f : RawSessionEvent} (he : e ∈ streamEvents p limit ref)
    (hf : f ∈ unread p ref) (hlt : e.seq < f.seq) : f ∈ streamEvents p limit ref := by
  have hasc : (unread p ref).Pairwise (fun a b => a.seq < b.seq) :=
    ref.reader.ascending.sublist (unread_sublist p ref)
  rw [streamEvents_eq] at he ⊢
  rw [← List.take_append_drop ((unread p ref).length - limit) (unread p ref)] at hf hasc
  rcases List.mem_append.mp hf with h | h
  · have := (List.pairwise_append.mp hasc).2.2 f h e he
    omega
  · exact h

variable (refs : List ConversationSessionRef)

theorem unreadLog_sublist (p : CompositePositions) :
    (unreadLog refs p).Sublist (historyLog refs) := by
  induction refs with
  | nil => exact List.Sublist.refl _
  | cons ref refs ih =>
    exact List.Sublist.append ((unread_sublist p ref).map _) ih

theorem candidates_sublist (p : CompositePositions)
    (limit : Nat) : (candidates refs p limit).Sublist (unreadLog refs p) := by
  induction refs with
  | nil => exact List.Sublist.refl _
  | cons ref refs ih => exact List.Sublist.append ((streamEvents_sublist p limit ref).map _) ih

theorem mem_unreadLog {refs : List ConversationSessionRef} {x : RawSessionEvent} :
    x ∈ unreadLog refs p ↔ ∃ ref ∈ refs, ∃ e ∈ unread p ref, tag ref e = x := by
  simp [unreadLog, tagEvents]

theorem mem_candidates {refs : List ConversationSessionRef} {x : RawSessionEvent} :
    x ∈ candidates refs p limit ↔ ∃ ref ∈ refs, ∃ e ∈ streamEvents p limit ref, tag ref e = x := by
  simp [candidates, tagEvents]

theorem globalEventKey_nodup (lin : Lineage) :
    ((historyLog lin.refs).map globalEventKey).Nodup := by
  rw [List.Nodup, List.pairwise_map]
  refine (historyLog_ascending lin.ordinals).imp (fun {a b} hab hkey => ?_)
  have hpair : eventKey a = eventKey b := by
    simp only [globalEventKey, EmbeddingLike.apply_eq_iff_eq, Prod.mk.injEq] at hkey
    obtain ⟨-, hidx, -, hseq, hid⟩ := hkey
    simp [eventKey, hidx, hseq, hid]
  exact (ne_of_lt hab) hpair

section

variable (lin : Lineage) {p : CompositePositions} {limit : Nat}

theorem mem_selectNewest_iff (p : CompositePositions) (limit : Nat) (x : RawSessionEvent) :
    x ∈ selectNewest lin.refs p limit ↔
      x ∈ candidates lin.refs p limit ∧ WithinCut lin.refs p limit x := by
  refine mem_topBy_iff ((globalEventKey_nodup lin).sublist (List.Sublist.map _ ?_)) limit x
  exact (candidates_sublist _ p limit).trans (unreadLog_sublist _ p)

variable {r₁ r₂ : ConversationSessionRef}

theorem ref_eq_of_stream (h₁ : r₁ ∈ lin.refs) (h₂ : r₂ ∈ lin.refs)
    (h : r₁.stream = r₂.stream) : r₁ = r₂ := by
  have : Std.Symm (fun x y : ConversationSessionRef => x.stream ≠ y.stream) :=
    ⟨fun _ _ h => h.symm⟩
  by_contra hne
  exact lin.streams.forall h₁ h₂ hne h

theorem tag_position_inj (h₁ : r₁ ∈ lin.refs) (h₂ : r₂ ∈ lin.refs) {a b : RawSessionEvent}
    (ha : a ∈ r₁.reader.events) (hb : b ∈ r₂.reader.events)
    (h : position (tag r₁ a) = position (tag r₂ b)) : r₁ = r₂ ∧ a = b := by
  simp only [position, tag_storeId, tag_sessionId, tag_seq, Prod.mk.injEq,
    r₁.readerSession a ha, r₂.readerSession b hb] at h
  have hr : r₁ = r₂ :=
    ref_eq_of_stream lin h₁ h₂ (by simp [ConversationSessionRef.stream, h.1, h.2.1])
  subst hr
  refine ⟨rfl, ?_⟩
  by_contra hne
  have : Std.Symm (fun x y : RawSessionEvent => x.seq ≠ y.seq) := ⟨fun _ _ h => h.symm⟩
  have hp : r₁.reader.events.Pairwise (fun x y => x.seq ≠ y.seq) :=
    r₁.reader.ascending.imp (fun h => ne_of_lt h)
  exact hp.forall ha hb hne h.2.2

variable {e : RawSessionEvent}

theorem mem_reader_of_unread
    (h : e ∈ unread p ref) : e ∈ ref.reader.events := (unread_sublist p ref).subset h

theorem mem_unread_of_streamEvents
    (h : e ∈ streamEvents p limit ref) :
      e ∈ unread p ref := (streamEvents_sublist p limit ref).subset h

theorem tag_mem_selectNewest_iff (hr : ref ∈ lin.refs) (he : e ∈ unread p ref) :
    tag ref e ∈ selectNewest lin.refs p limit ↔
      e ∈ streamEvents p limit ref ∧ WithinCut lin.refs p limit (tag ref e) := by
  rw [mem_selectNewest_iff]
  refine and_congr_left (fun _ => ?_)
  rw [mem_candidates]
  constructor
  · rintro ⟨ref', hr', e', he', heq⟩
    obtain ⟨rfl, rfl⟩ := tag_position_inj lin hr' hr
      (mem_reader_of_unread (mem_unread_of_streamEvents he')) (mem_reader_of_unread he)
      (congrArg position heq)
    exact he'
  · intro h
    exact ⟨ref, hr, e, h, rfl⟩

end

/-- What lowering leaves of one stream's frontier: the least of its start and the
stream's selected seqs. -/
theorem foldl_lowerFrontier (events : List RawSessionEvent) (m : StreamPositions)
    {stream : String × String} {start : Nat} (hm : m.get? stream = some start) :
    ∃ fr, (events.foldl lowerFrontier m).get? stream = some fr ∧ fr ≤ start ∧
      (∀ e ∈ events, (e.storeId, e.sessionId) = stream → fr ≤ e.seq) ∧
      (fr = start ∨ ∃ e ∈ events, (e.storeId, e.sessionId) = stream ∧ fr = e.seq) := by
  induction events generalizing m start with
  | nil => exact ⟨start, hm, le_refl _, by simp, .inl rfl⟩
  | cons a t ih =>
    by_cases ha : (a.storeId, a.sessionId) = stream
    · have hnext : (lowerFrontier m a).get? stream = some (min start a.seq) := by
        simp [lowerFrontier, ha, hm]
      obtain ⟨fr, hfr, hle, hall, hcase⟩ := ih _ hnext
      refine ⟨fr, hfr, by omega, ?_, ?_⟩
      · intro e he hs
        rcases List.mem_cons.mp he with rfl | he
        · omega
        · exact hall e he hs
      · rcases hcase with h | ⟨e, he, hs, h⟩
        · rcases Nat.le_total start a.seq with hsa | hsa
          · exact .inl (by omega)
          · exact .inr ⟨a, by simp, ha, by omega⟩
        · exact .inr ⟨e, by simp [he], hs, h⟩
    · have hnext : (lowerFrontier m a).get? stream = some start := by
        rw [lowerFrontier, OrderedMap.get?_set_of_ne _ _ (Ne.symm ha), hm]
      obtain ⟨fr, hfr, hle, hall, hcase⟩ := ih _ hnext
      refine ⟨fr, hfr, hle, ?_, ?_⟩
      · intro e he hs
        rcases List.mem_cons.mp he with rfl | he
        · exact absurd hs ha
        · exact hall e he hs
      · rcases hcase with h | ⟨e, he, hs, h⟩
        · exact .inl h
        · exact .inr ⟨e, by simp [he], hs, h⟩

private theorem le_foldl_max (q : Nat) (qs : List Nat) : ∀ x ∈ q :: qs, x ≤ qs.foldl max q := by
  induction qs generalizing q with
  | nil => simp
  | cons y ys ih =>
    intro x hx
    rw [List.foldl_cons]
    have hstart : max q y ≤ ys.foldl max (max q y) := ih _ _ (by simp)
    simp only [List.mem_cons] at hx
    rcases hx with rfl | rfl | hx
    · omega
    · omega
    · exact ih _ x (by simp [hx])

theorem exists_ge_streamEvents (hl : 0 < limit) (he : e ∈ unread p ref) :
    ∃ f ∈ streamEvents p limit ref, e.seq ≤ f.seq := by
  have hasc : (unread p ref).Pairwise (fun a b => a.seq < b.seq) :=
    ref.reader.ascending.sublist (unread_sublist p ref)
  rw [← List.take_append_drop ((unread p ref).length - limit) (unread p ref), ← streamEvents_eq]
    at he hasc
  rcases List.mem_append.mp he with h | h
  · have hne : streamEvents p limit ref ≠ [] := by
      intro hnil
      rw [streamEvents_eq, List.drop_eq_nil_iff] at hnil
      have : 0 < (unread p ref).length :=
        List.length_pos_of_mem (List.mem_of_mem_take h)
      omega
    obtain ⟨f, hf⟩ := List.exists_mem_of_ne_nil _ hne
    exact ⟨f, hf, le_of_lt ((List.pairwise_append.mp hasc).2.2 e h f hf)⟩
  · exact ⟨e, h, le_refl _⟩

theorem lt_initialFrontier (hl : 0 < limit) (he : e ∈ unread p ref) :
    e.seq < initialFrontier (beforeOf p ref) (streamEvents p limit ref) := by
  obtain ⟨f, hf, hle⟩ := exists_ge_streamEvents hl he
  cases hb : beforeOf p ref with
  | some s =>
    simp only [unread, hb, SessionReader.before, List.mem_filter, decide_eq_true_eq] at he
    exact he.2
  | none =>
    have hmem : f.seq ∈ (streamEvents p limit ref).map (·.seq) := List.mem_map_of_mem hf
    unfold initialFrontier
    cases hq : (streamEvents p limit ref).map (·.seq) with
    | nil => simp [hq] at hmem
    | cons q qs =>
      rw [hq] at hmem
      have := le_foldl_max q qs _ hmem
      dsimp only
      omega

theorem mem_unread_of_lt_initialFrontier (he : e ∈ ref.reader.events)
    (hlt : e.seq < initialFrontier (beforeOf p ref) (streamEvents p limit ref)) :
    e ∈ unread p ref := by
  cases hb : beforeOf p ref with
  | none => simpa [unread, hb, SessionReader.before] using he
  | some s =>
    rw [hb, initialFrontier] at hlt
    simpa [unread, hb, SessionReader.before, he] using hlt

theorem get?_ofList_stream (lin : Lineage) {α : Type} (v : ConversationSessionRef → α)
    (hr : ref ∈ lin.refs) :
    (OrderedMap.ofList (lin.refs.map (fun r => (r.stream, v r)))).get? ref.stream = some
      (v ref) := by
  rw [OrderedMap.get?_ofList]
  · exact List.mem_map.mpr ⟨ref, hr, rfl⟩
  · rw [List.map_map, List.Nodup, List.pairwise_map]
    exact lin.streams

theorem beforeOf_initialPositions (lin : Lineage)
    (hr : ref ∈ lin.refs) : beforeOf (initialPositions lin.refs) ref = none := by
  simp [beforeOf, initialPositions, get?_ofList_stream lin (fun _ => none) hr]

theorem beforeOf_nextPositions (lin : Lineage) (p : CompositePositions) (limit : Nat)
    (hr : ref ∈ lin.refs) :
    beforeOf (nextPositions lin.refs p limit) ref =
      some (((nextFrontiers lin.refs p limit).get? ref.stream).getD 0) := by
  simp [beforeOf, nextPositions, get?_ofList_stream lin _ hr]

/-- After a page a stream keeps the unread events older than everything the page took
from it. -/
theorem mem_unread_nextPositions (lin : Lineage) (hl : 0 < limit) (hr : ref ∈ lin.refs) :
    e ∈ unread (nextPositions lin.refs p limit) ref ↔ e ∈ unread p ref ∧
      ∀ f ∈ unread p ref, tag ref f ∈ selectNewest lin.refs p limit → e.seq < f.seq := by
  obtain ⟨fr, hfr, hstart, hall, hcase⟩ := foldl_lowerFrontier (selectNewest lin.refs p limit) _
    (get?_ofList_stream lin (fun ref =>
      initialFrontier (beforeOf p ref) (streamEvents p limit ref)) hr)
  have hnext : e ∈ unread (nextPositions lin.refs p limit) ref ↔
      e ∈ ref.reader.events ∧ e.seq < fr := by
    have hget : (nextFrontiers lin.refs p limit).get? ref.stream = some fr := hfr
    simp [unread, beforeOf_nextPositions lin p limit hr, hget, SessionReader.before]
  rw [hnext]
  constructor
  · rintro ⟨he, hlt⟩
    have hfrontier : e.seq < initialFrontier (beforeOf p ref) (streamEvents p limit ref) := by omega
    refine ⟨mem_unread_of_lt_initialFrontier he hfrontier, fun f hf hsel => ?_⟩
    have hstream : ((tag ref f).storeId, (tag ref f).sessionId) = ref.stream := by
      simp [ConversationSessionRef.stream, ref.readerSession f (mem_reader_of_unread hf)]
    have := hall _ hsel hstream
    rw [tag_seq] at this
    omega
  · rintro ⟨he, hbelow⟩
    refine ⟨mem_reader_of_unread he, ?_⟩
    rcases hcase with h | ⟨x, hx, hs, h⟩
    · rw [h]
      exact lt_initialFrontier hl he
    · obtain ⟨ref', hr', f, hf, rfl⟩ :=
        mem_candidates.mp ((mem_selectNewest_iff lin p limit x).mp hx).1
      have hf' := mem_unread_of_streamEvents hf
      have hstream : ref'.stream = ref.stream := by
        rw [← hs, ConversationSessionRef.stream, tag_storeId, tag_sessionId,
          ref'.readerSession f (mem_reader_of_unread hf')]
      obtain rfl := ref_eq_of_stream lin hr' hr hstream
      rw [h, tag_seq]
      exact hbelow f hf' hx

section

variable (lin : Lineage) {p : CompositePositions} {limit : Nat}

theorem unreadLog_position_nodup (p : CompositePositions) :
    ((unreadLog lin.refs p).map position).Nodup :=
  (position_nodup lin.streams).sublist ((unreadLog_sublist lin.refs p).map _)

theorem selectNewest_subset : selectNewest lin.refs p limit ⊆ unreadLog lin.refs p := fun x hx =>
  (candidates_sublist lin.refs p limit).subset ((mem_selectNewest_iff lin p limit x).mp hx).1

theorem selectNewest_nodup : (selectNewest lin.refs p limit).Nodup := by
  have hcand : (candidates lin.refs p limit).Nodup :=
    ((unreadLog_position_nodup lin p).of_map _).sublist (candidates_sublist lin.refs p limit)
  obtain ⟨l, hperm, hsub⟩ := topBy_subperm globalEventKey limit
    (candidates lin.refs p limit)
  exact hperm.nodup_iff.mp (hcand.sublist hsub)

section

variable (hl : 0 < limit)
include hl

theorem unreadLog_append_nodup :
    (unreadLog lin.refs (nextPositions lin.refs p limit) ++ selectNewest lin.refs p
      limit).Nodup := by
  rw [List.nodup_append]
  refine ⟨(unreadLog_position_nodup lin _).of_map _, selectNewest_nodup lin, ?_⟩
  rintro x hx y hy rfl
  obtain ⟨ref, hr, e, he, rfl⟩ := mem_unreadLog.mp hx
  obtain ⟨hu, hbelow⟩ := (mem_unread_nextPositions lin hl hr).mp he
  exact lt_irrefl _ (hbelow e hu hy)

theorem unreadLog_append_subset :
    unreadLog lin.refs (nextPositions lin.refs p limit) ++ selectNewest lin.refs p limit ⊆
      unreadLog lin.refs p := by
  intro x hx
  rcases List.mem_append.mp hx with h | h
  · obtain ⟨ref, hr, e, he, rfl⟩ := mem_unreadLog.mp h
    exact mem_unreadLog.mpr ⟨ref, hr, e, ((mem_unread_nextPositions lin hl hr).mp he).1, rfl⟩
  · exact selectNewest_subset lin h

theorem unreadLog_append_subperm :
    (unreadLog lin.refs (nextPositions lin.refs p limit) ++ selectNewest lin.refs p limit).Subperm
      (unreadLog lin.refs p) :=
  List.subperm_of_subset (unreadLog_append_nodup lin hl) (unreadLog_append_subset lin hl)

theorem unreadLog_perm_of_cutRespectsSeq (hcut : CutRespectsSeq lin.refs limit p) :
    (unreadLog lin.refs (nextPositions lin.refs p limit) ++ selectNewest lin.refs p limit).Perm
      (unreadLog lin.refs p) := by
  rw [List.perm_ext_iff_of_nodup (unreadLog_append_nodup lin hl)
    ((unreadLog_position_nodup lin p).of_map _)]
  refine fun x => ⟨fun h => unreadLog_append_subset lin hl h, fun h => ?_⟩
  obtain ⟨ref, hr, e, he, rfl⟩ := mem_unreadLog.mp h
  rw [List.mem_append]
  by_cases hbelow : ∀ f ∈ unread p ref, tag ref f ∈ selectNewest lin.refs p limit → e.seq < f.seq
  · exact .inl (mem_unreadLog.mpr ⟨ref, hr, e,
      (mem_unread_nextPositions lin hl hr).mpr ⟨he, hbelow⟩, rfl⟩)
  · push Not at hbelow
    obtain ⟨f, hf, hsel, hle⟩ := hbelow
    right
    obtain ⟨hfp, hfc⟩ := (tag_mem_selectNewest_iff lin hr hf).mp hsel
    rcases Nat.lt_or_eq_of_le hle with hlt | heq
    · have hep := mem_streamEvents_of_later hfp he hlt
      exact (tag_mem_selectNewest_iff lin hr he).mpr ⟨hep, hcut ref hr f hfp e hep hlt hfc⟩
    · have hpos : position (tag ref f) = position (tag ref e) := by
        simp [position, heq, ref.readerSession f (mem_reader_of_unread hf),
          ref.readerSession e (mem_reader_of_unread he)]
      obtain ⟨-, rfl⟩ := tag_position_inj lin hr hr (mem_reader_of_unread hf)
        (mem_reader_of_unread he) hpos
      exact hsel

/-- A cut across a stream's order loses an event: it is neither on the page nor unread
after it. -/
theorem exists_lost_of_not_cutRespectsSeq
    (hcut : ¬ CutRespectsSeq lin.refs limit p) :
    ∃ x ∈ unreadLog lin.refs p,
      x ∉ unreadLog lin.refs (nextPositions lin.refs p limit) ++ selectNewest lin.refs p limit := by
  unfold CutRespectsSeq at hcut
  push Not at hcut
  obtain ⟨ref, hr, e, he, f, hf, hlt, hin, hout⟩ := hcut
  have heu := mem_unread_of_streamEvents he
  have hfu := mem_unread_of_streamEvents hf
  refine ⟨tag ref f, mem_unreadLog.mpr ⟨ref, hr, f, hfu, rfl⟩, fun hmem => ?_⟩
  rcases List.mem_append.mp hmem with h | h
  · obtain ⟨ref', hr', f', hf', heq⟩ := mem_unreadLog.mp h
    have hold := ((mem_unread_nextPositions lin hl hr').mp hf').1
    obtain ⟨rfl, rfl⟩ := tag_position_inj lin hr' hr (mem_reader_of_unread hold)
      (mem_reader_of_unread hfu) (congrArg position heq)
    have := ((mem_unread_nextPositions lin hl hr).mp hf').2 e heu
      ((tag_mem_selectNewest_iff lin hr heu).mpr ⟨he, hin⟩)
    omega
  · exact hout ((tag_mem_selectNewest_iff lin hr hfu).mp h).2

end

theorem selectionId_mem_iff (hr : ref ∈ lin.refs) (he : e ∈ unread p ref) :
    selectionId e ∈ (selectNewest lin.refs p limit).map selectionId ↔
      tag ref e ∈ selectNewest lin.refs p limit := by
  have hid : selectionId e = selectionId (tag ref e) := by
    simp [selectionId, ref.readerStore e (mem_reader_of_unread he)]
  rw [hid]
  constructor
  · intro h
    obtain ⟨x, hx, heq⟩ := List.mem_map.mp h
    obtain ⟨ref', hr', f, hf, rfl⟩ := mem_unreadLog.mp (selectNewest_subset lin hx)
    simp only [selectionId, Prod.mk.injEq] at heq
    obtain ⟨rfl, rfl⟩ := tag_position_inj lin hr' hr (mem_reader_of_unread hf)
      (mem_reader_of_unread he) (by simp only [position, Prod.mk.injEq]; tauto)
    exact hx
  · exact fun h => List.mem_map_of_mem h

theorem globalWindow_hasMoreBefore (p : CompositePositions) (limit : Nat) :
    (globalWindow lin.refs p limit).hasMoreBefore = false ↔
      unreadLog lin.refs p ⊆ selectNewest lin.refs p limit := by
  have hpage : (globalWindow lin.refs p limit).hasMoreBefore = false ↔
      ∀ ref ∈ lin.refs, (unread p ref).length ≤ limit ∧
        ∀ e ∈ streamEvents p limit ref, selectionId e ∈
          (selectNewest lin.refs p limit).map selectionId := by
    simp [globalWindow, streamPage_hasMoreBefore, streamPage_events]
  rw [hpage]
  constructor
  · intro h x hx
    obtain ⟨ref, hr, e, he, rfl⟩ := mem_unreadLog.mp hx
    obtain ⟨hlen, hsel⟩ := h ref hr
    refine (selectionId_mem_iff lin hr he).mp (hsel e ?_)
    rw [streamEvents_eq, Nat.sub_eq_zero_of_le hlen]
    exact he
  · intro h ref hr
    have hin : ∀ e ∈ unread p ref, tag ref e ∈ selectNewest lin.refs p limit := fun e he =>
      h (mem_unreadLog.mpr ⟨ref, hr, e, he, rfl⟩)
    constructor
    · by_contra hlen
      -- The first unread event is older than everything the store returned.
      obtain ⟨e, t, het⟩ : ∃ e t, unread p ref = e :: t := by
        cases hu : unread p ref with
        | nil => simp [hu] at hlen
        | cons e t => exact ⟨e, t, rfl⟩
      have he : e ∈ unread p ref := by simp [het]
      have hep := ((tag_mem_selectNewest_iff lin hr he).mp (hin e he)).1
      rw [streamEvents_eq, het, List.length_cons, Nat.sub_add_comm (by
        rw [het, List.length_cons] at hlen; omega), List.drop_succ_cons] at hep
      have hnd : (unread p ref).Nodup :=
        (ref.reader.ascending.imp (fun {a b} h => (fun he => by simp [he] at h : a ≠ b))).sublist
          (unread_sublist p ref)
      rw [het, List.nodup_cons] at hnd
      exact hnd.1 (List.mem_of_mem_drop hep)
    · intro e he
      have heu := mem_unread_of_streamEvents he
      exact (selectionId_mem_iff lin hr heu).mpr (hin e heu)

end

theorem mem_keys_ofList_stream (lin : Lineage) {α : Type} (v : ConversationSessionRef → α)
    {k : String × String} :
    k ∈ (OrderedMap.ofList (lin.refs.map (fun r => (r.stream, v r)))).keys ↔
      k ∈ lin.refs.map (·.stream) := by
  rw [OrderedMap.mem_keys_ofList, List.map_map]
  · rfl
  · rw [List.map_map, List.Nodup, List.pairwise_map]
    exact lin.streams

private theorem zip_map_self {α β γ : Type*} (l : List α) (f : α → β) (g : α × β → γ) :
    (l.zip (l.map f)).map g = l.map (fun a => g (a, f a)) := by
  induction l with
  | nil => rfl
  | cons a l ih => simp [ih]

theorem globalPositions_beforeCursor (lin : Lineage) (hne : lin.refs ≠ []) (p : CompositePositions)
    (limit : Nat) {t t' : Nat} (ht : t' < t + cursorTtl)
    (hmore : (globalWindow lin.refs p limit).hasMoreBefore) :
    ∃ token, beforeCursorOf ctx lin.refs t (globalWindow lin.refs p limit) = some token ∧
      (∃ payload, validateCursor ctx token t' = .ok payload ∧ payload.ordinalFrontiers ≠ []) ∧
      globalPositions ctx lin.refs (some token) t' = .ok (nextPositions lin.refs p limit) := by
  obtain ⟨ref, hr⟩ := List.exists_mem_of_ne_nil _ hne
  have hbefore : (globalWindow lin.refs p limit).beforePositions ≠ [] := by
    obtain ⟨fr, hfr, -⟩ := foldl_lowerFrontier (selectNewest lin.refs p limit) _
      (get?_ofList_stream lin (fun ref =>
        initialFrontier (beforeOf p ref) (streamEvents p limit ref)) hr)
    have hmem := ((nextFrontiers lin.refs p limit).get?_eq_some_iff).mp hfr
    intro hnil
    have hsorted : (nextFrontiers lin.refs p limit).entries.insertionSort streamKeyLe = [] := by
      simpa [globalWindow] using hnil
    rw [← List.mem_insertionSort streamKeyLe, hsorted] at hmem
    simp at hmem
  have hfront (r : ConversationSessionRef) :
      (OrderedMap.ofList ((globalWindow lin.refs p limit).beforePositions.map
        (fun item => ((item.store, item.sessionId), item.lastSeq)))).get? r.stream =
      (nextFrontiers lin.refs p limit).get? r.stream := by
    apply OrderedMap.get?_ofList_perm
    simp only [globalWindow, List.map_map]
    refine (List.Perm.map _ (List.perm_insertionSort _ _)).trans ?_
    simp [Function.comp_def]
  unfold beforeCursorOf encodeBeforeCursor
  rw [if_pos hmore, if_neg (by simp [hbefore])]
  refine ⟨_, rfl, ?_⟩
  rw [globalPositions, validateCursor_encodeCursor _ _ _ rfl rfl (by simpa using ht)]
  refine ⟨⟨_, rfl, by simp [hbefore, hne]⟩, ?_⟩
  simp only [hbefore, if_false, hfront]
  have hkeys : ∀ key ∈ (nextPositions lin.refs p limit).keys ++ lin.refs.map (·.stream),
      key ∈ (nextPositions lin.refs p limit).keys ∧ key ∈ lin.refs.map (·.stream) := by
    intro key hkey
    rw [List.mem_append, nextPositions, mem_keys_ofList_stream lin, or_self] at hkey
    exact ⟨(mem_keys_ofList_stream lin _).mpr hkey, hkey⟩
  simp only [bind, Except.bind, pure, Except.pure]
  rw [if_neg (by simp), if_neg (by simp), if_pos (by simp [hne]), if_neg (by simp), zip_map_self]
  exact if_pos hkeys

theorem readBackfillWindow_initial {refs : List ConversationSessionRef} (hrefs : 2 ≤ refs.length)
    (limit now : Nat) :
    readBackfillWindow ctx refs none limit now =
      .ok (globalWindow refs (initialPositions refs) limit) := by
  have hlt : 1 < refs.length := hrefs
  simp [readBackfillWindow, hlt, readGlobalBackfillWindow, globalPositions, initialPositions,
    bind, Except.bind, pure, Except.pure]

theorem readBackfillWindow_composite (lin : Lineage) (hrefs : 2 ≤ lin.refs.length)
    (p : CompositePositions) (limit : Nat) {t t' : Nat} (ht : t' < t + cursorTtl)
    (hmore : (globalWindow lin.refs p limit).hasMoreBefore) :
    readBackfillWindow ctx lin.refs (beforeCursorOf ctx lin.refs t (globalWindow lin.refs p limit))
      limit t' = .ok (globalWindow lin.refs (nextPositions lin.refs p limit) limit) := by
  have hne : lin.refs ≠ [] := by
    intro h
    simp [h] at hrefs
  obtain ⟨token, htoken, ⟨payload, hval, hord⟩, hpos⟩ :=
    globalPositions_beforeCursor ctx lin hne p limit ht hmore
  have hlt : 1 < lin.refs.length := hrefs
  rw [htoken]
  simp [readBackfillWindow, hlt, hval, hord, readGlobalBackfillWindow, hpos,
    bind, Except.bind, pure, Except.pure]

theorem globalWindow_positions (p : CompositePositions)
    (limit : Nat) : ((globalWindow refs p limit).events.map position).Perm
      ((selectNewest refs p limit).map position) := by
  have hdata : (globalWindow refs p limit).events.map position =
      (sortBy globalEventKey (selectNewest refs p limit)).map position := by
    apply List.ext_getElem
    · simp [globalWindow]
    · intro i h₁ h₂
      simp [globalWindow, position]
  rw [hdata]
  exact (sortBy_perm _ _).map _

theorem selectNewest_ne_nil (lin : Lineage) (hl : 0 < limit)
    (hmore : (globalWindow lin.refs p limit).hasMoreBefore) :
    selectNewest lin.refs p limit ≠ [] := by
  intro hnil
  have hun : unreadLog lin.refs p ≠ [] := by
    intro h
    have := (globalWindow_hasMoreBefore lin p limit).mpr (by simp [h])
    simp [this] at hmore
  obtain ⟨x, hx⟩ := List.exists_mem_of_ne_nil _ hun
  obtain ⟨ref, hr, e, he, rfl⟩ := mem_unreadLog.mp hx
  obtain ⟨f, hf, -⟩ := exists_ge_streamEvents hl he
  have hcand : candidates lin.refs p limit ≠ [] :=
    List.ne_nil_of_mem (mem_candidates.mpr ⟨ref, hr, f, hf, rfl⟩)
  exact topBy_ne_nil hl hcand hnil

/-- Paging from `p` ends; it repeats nothing, and it covers the unread events exactly
when no page of the run cuts across a stream's order. -/
def PagesFrom (refs : List ConversationSessionRef) (limit : Nat)
    (clock : Nat → Nat) (fuel i : Nat) (p : CompositePositions) : Prop :=
  ∃ windows, followBefore ctx refs limit clock fuel i (globalWindow refs p limit) = .ok windows ∧
    (returnedPositions windows).Subperm ((unreadLog refs p).map position) ∧
    ((returnedPositions windows).Perm ((unreadLog refs p).map position) ↔
      ∀ q, Relation.ReflTransGen (PagingStep refs limit) p q → CutRespectsSeq refs limit q)

section

variable (ctx : CursorContext) (lin : Lineage) {limit : Nat} {clock : Nat → Nat}

theorem pagesFrom_last {fuel i : Nat}
    (hmore : (globalWindow lin.refs p limit).hasMoreBefore = false) :
    PagesFrom ctx lin.refs limit clock fuel i p := by
  have hall := (globalWindow_hasMoreBefore lin p limit).mp hmore
  have hperm : (returnedPositions [globalWindow lin.refs p limit]).Perm
      ((unreadLog lin.refs p).map position) := by
    simp only [returnedPositions, List.flatMap_cons, List.flatMap_nil, List.append_nil]
    refine (globalWindow_positions _ _ _).trans (List.Perm.map _ ?_)
    rw [List.perm_ext_iff_of_nodup (selectNewest_nodup lin)
      ((unreadLog_position_nodup lin p).of_map _)]
    exact fun x => ⟨fun h => selectNewest_subset lin h, fun h => hall h⟩
  refine ⟨[globalWindow lin.refs p limit], ?_, hperm.subperm, iff_of_true hperm ?_⟩
  · unfold followBefore
    simp [hmore]
  · intro q hq
    rcases hq.cases_head with rfl | ⟨q', hstep, -⟩
    · intro ref hr e _ f hf _ _
      have hfu := mem_unread_of_streamEvents hf
      exact ((tag_mem_selectNewest_iff lin hr hfu).mp
        (hall (mem_unreadLog.mpr ⟨ref, hr, f, hfu, rfl⟩))).2
    · simp [PagingStep, hmore] at hstep

theorem reaches_step_iff {refs : List ConversationSessionRef}
    (hmore : (globalWindow refs p limit).hasMoreBefore) (P : CompositePositions → Prop) :
    (∀ q, Relation.ReflTransGen (PagingStep refs limit) p q → P q) ↔
      P p ∧ ∀ q, Relation.ReflTransGen (PagingStep refs limit) (nextPositions refs p limit) q →
        P q := by
  constructor
  · intro h
    exact ⟨h p .refl, fun q hq => h q (.head ⟨hmore, rfl⟩ hq)⟩
  · rintro ⟨hp, hrest⟩ q hq
    rcases hq.cases_head with rfl | ⟨q', ⟨-, rfl⟩, hq'⟩
    · exact hp
    · exact hrest q hq'

theorem pagesFrom_step (hrefs : 2 ≤ lin.refs.length) (hl : 0 < limit)
    (hc : ∀ i, clock (i + 1) < clock i + cursorTtl) {fuel i : Nat}
    (hmore : (globalWindow lin.refs p limit).hasMoreBefore)
    (hnext : PagesFrom ctx lin.refs limit clock fuel (i + 1) (nextPositions lin.refs p limit)) :
    PagesFrom ctx lin.refs limit clock (fuel + 1) i p := by
  obtain ⟨ws, hrun, hsub, hiff⟩ := hnext
  have hcat : (returnedPositions (globalWindow lin.refs p limit :: ws)).Perm
      (returnedPositions ws ++ (selectNewest lin.refs p limit).map position) := by
    exact ((globalWindow_positions _ _ _).append_right _).trans List.perm_append_comm
  have hpart : ((unreadLog lin.refs (nextPositions lin.refs p limit)).map position ++
      (selectNewest lin.refs p limit).map position).Subperm
        ((unreadLog lin.refs p).map position) := by
    obtain ⟨l, hl', hsub'⟩ := unreadLog_append_subperm lin (p := p) hl
    rw [← List.map_append]
    exact ⟨l.map position, hl'.map _, hsub'.map _⟩
  refine ⟨globalWindow lin.refs p limit :: ws, ?_,
    (hcat.subperm.trans ((List.subperm_append_right _).mpr hsub)).trans hpart, ?_⟩
  · unfold followBefore
    rw [if_pos hmore]
    simp only [readBackfillWindow_composite ctx lin hrefs p limit (hc i) hmore, hrun, Except.map]
  · rw [reaches_step_iff hmore]
    constructor
    · intro hperm
      have hcut : CutRespectsSeq lin.refs limit p := by
        by_contra hbad
        obtain ⟨x, hx, hlost⟩ := exists_lost_of_not_cutRespectsSeq lin hl hbad
        have hret := (hcat.symm.trans hperm).mem_iff.mpr (List.mem_map_of_mem (f := position) hx)
        have hkept : position x ∈ (unreadLog lin.refs (nextPositions lin.refs p limit) ++
            selectNewest lin.refs p limit).map position := by
          rw [List.map_append]
          exact ((List.subperm_append_right _).mpr hsub).subset hret
        obtain ⟨y, hy, hyx⟩ := List.mem_map.mp hkept
        have hyu := unreadLog_append_subset lin hl hy
        have : y = x := List.inj_on_of_nodup_map (unreadLog_position_nodup lin p) hyu hx hyx
        exact hlost (this ▸ hy)
      refine ⟨hcut, hiff.mp ?_⟩
      have hsplit := (unreadLog_perm_of_cutRespectsSeq lin hl hcut).map position
      rw [List.map_append] at hsplit
      exact (List.perm_append_right_iff _).mp ((hcat.symm.trans hperm).trans hsplit.symm)
    · rintro ⟨hcut, hrest⟩
      have hsplit := (unreadLog_perm_of_cutRespectsSeq lin hl hcut).map position
      rw [List.map_append] at hsplit
      exact (hcat.trans ((hiff.mpr hrest).append_right _)).trans hsplit

theorem pagesFrom_of_fuel (hrefs : 2 ≤ lin.refs.length) (hl : 0 < limit)
    (hc : ∀ i, clock (i + 1) < clock i + cursorTtl) (fuel i : Nat) (p : CompositePositions)
    (hf : (unreadLog lin.refs p).length ≤ fuel) : PagesFrom ctx lin.refs limit clock fuel i p := by
  induction fuel generalizing i p with
  | zero =>
    have hnil : unreadLog lin.refs p = [] := List.length_eq_zero_iff.mp (by omega)
    exact pagesFrom_last ctx lin ((globalWindow_hasMoreBefore lin p limit).mpr (by simp [hnil]))
  | succ fuel ih =>
    cases hmore : (globalWindow lin.refs p limit).hasMoreBefore with
    | false => exact pagesFrom_last ctx lin hmore
    | true =>
      refine pagesFrom_step ctx lin hrefs hl hc hmore (ih _ _ ?_)
      have hlen := (unreadLog_append_subperm lin (p := p) hl).length_le
      have := List.length_pos_of_ne_nil (selectNewest_ne_nil lin hl hmore)
      rw [List.length_append] at hlen
      omega

theorem unreadLog_initialPositions :
    unreadLog lin.refs (initialPositions lin.refs) = historyLog lin.refs := by
  have hread : ∀ ref ∈ lin.refs, tagEvents (unread (initialPositions lin.refs) ref) ref =
      tagEvents ref.reader.events ref := by
    intro ref hr
    simp [unread, beforeOf_initialPositions lin hr, SessionReader.before]
  rw [unreadLog, List.flatMap_congr hread]
  simp [historyLog, lineageChunks, chunkLog, Chunk.tagged, List.flatMap_map]

end

/-- Composite paging of two or more sessions terminates, and it returns every event exactly
once if and only if no request of the run cuts across a stream's order. -/
theorem compositePaging_complete_iff (ctx : CursorContext) (lin : Lineage)
    (hrefs : 2 ≤ lin.refs.length) (limit : Nat) (hlimit : validateBackfillLimit limit = .ok limit)
    (clock : Nat → Nat) (hclock : ∀ i, clock (i + 1) < clock i + cursorTtl) :
    ∃ first windows, readBackfillWindow ctx lin.refs none limit (clock 0) = .ok first ∧
      followBefore ctx lin.refs limit clock lin.eventCount 0 first = .ok windows ∧
      (ReturnedOnce lin.refs windows ↔
        ∀ q, Relation.ReflTransGen (PagingStep lin.refs limit) (initialPositions lin.refs) q →
          CutRespectsSeq lin.refs limit q) := by
  have hl : 0 < limit := pos_of_validateBackfillLimit hlimit
  obtain ⟨windows, hrun, hsub, hiff⟩ := pagesFrom_of_fuel ctx lin hrefs hl hclock lin.eventCount 0
    (initialPositions lin.refs) (by rw [unreadLog_initialPositions]; exact le_refl _)
  rw [unreadLog_initialPositions] at hsub hiff
  exact ⟨_, windows, readBackfillWindow_initial ctx hrefs limit (clock 0), hrun,
    (returnedOnce_iff_perm lin hsub).trans hiff⟩

/-- Timestamps never go back along the stream; a missing one counts as the earliest. -/
def TimestampsAscend (ref : ConversationSessionRef) : Prop :=
  ∀ e ∈ ref.reader.events, ∀ f ∈ ref.reader.events, e.seq < f.seq →
    e.timestamp.getD datetimeMin ≤ f.timestamp.getD datetimeMin

instance (ref : ConversationSessionRef) : Decidable (TimestampsAscend ref) :=
  inferInstanceAs (Decidable (∀ e ∈ _, ∀ f ∈ _, _ → _))

theorem cutRespectsSeq_of_timestamps {refs : List ConversationSessionRef}
    (h : ∀ ref ∈ refs, TimestampsAscend ref) (limit : Nat) (p : CompositePositions) :
    CutRespectsSeq refs limit p := by
  intro ref hr e he f hf hlt hin
  have hts := h ref hr e (mem_reader_of_unread (mem_unread_of_streamEvents he)) f
    (mem_reader_of_unread (mem_unread_of_streamEvents hf)) hlt
  have hkey : globalEventKey (tag ref e) < globalEventKey (tag ref f) := by
    simp only [globalEventKey, Prod.Lex.toLex_lt_toLex, tag_timestamp, lineageIndex_tag,
      tag_storeId, tag_seq, lt_self_iff_false, false_or, hlt, true_or, and_true]
    exact lt_or_eq_of_le hts
  refine lt_of_le_of_lt (List.countP_mono_left (fun x _ hx => ?_)) hin
  simp only [decide_eq_true_eq] at hx ⊢
  exact hkey.trans hx

theorem compositePaging_complete_short :
    2 ≤ shortLineage.refs.length ∧ validateBackfillLimit 2 = .ok 2 ∧ (0 < 0 + cursorTtl) ∧
    ∃ first windows, readBackfillWindow plainContext shortLineage.refs none 2 0 = .ok first ∧
      followBefore plainContext shortLineage.refs 2 (fun _ => 0) shortLineage.eventCount 0 first =
        .ok windows ∧
      ReturnedOnce shortLineage.refs windows := by
  obtain ⟨first, windows, hfirst, hrun, hiff⟩ := compositePaging_complete_iff plainContext
    shortLineage (by decide) 2 (by decide) (fun _ => 0) (fun _ => by decide)
  exact ⟨by decide, by decide, by decide, first, windows, hfirst, hrun,
    hiff.mpr (fun q _ => cutRespectsSeq_of_timestamps (by decide) 2 q)⟩

def skewedLineage : Lineage where
  refs :=
    [{ sessionId := "first", eventStoreSessionId := "first", ordinal := 0
       reader := ⟨[⟨"intaris", "first", 1, "user_message", .empty, none, some 10, none, none⟩,
         ⟨"intaris", "first", 2, "assistant_message", .empty, none, some 5, none, none⟩], by decide⟩
       readerSession := by decide
       readerStore := by decide },
     { sessionId := "next", eventStoreSessionId := "next", ordinal := 1
       reader := ⟨[⟨"intaris", "next", 1, "user_message", .empty, none, some 7, none, none⟩],
         by decide⟩
       readerSession := by decide
       readerStore := by decide }]
  ordinals := by decide
  streams := by decide

/-- The first page takes the events at 10 and 7, and the frontier of the first stream
passes its event at 5. -/
theorem compositePaging_loses_skewed_event :
    ∃ first windows, readBackfillWindow plainContext skewedLineage.refs none 2 0 = .ok first ∧
      followBefore plainContext skewedLineage.refs 2 (fun _ => 0) skewedLineage.eventCount 0 first =
        .ok windows ∧
      ¬ ReturnedOnce skewedLineage.refs windows :=
  ⟨_, _, rfl, rfl, by decide⟩

end Cognis.Paging
