import Cognis.Client.Admission

namespace Cognis.Client

open List Option SortByKey Timeline

variable {l : List TimelineItem} {current : Option RuntimeOverlaySnapshot} {c : String}

theorem localOk_carryPrior {incoming : RuntimeOverlaySnapshot} (hl : ∀ x ∈ l, LocalOk c x)
    (hcur : ∀ x ∈ overlayItems current, OverlayOk c x) :
    ∀ x ∈ (carryPriorRuntimeItems l current incoming).getD l, LocalOk c x := by
  cases hc : carryPriorRuntimeItems l current incoming with
  | none => exact hl
  | some =>
    intro x hx
    rcases mem_carryPriorRuntimeItems hc hx with ⟨y, hy, rfl | rfl⟩ | ⟨cur, hcurrent, y, hy, rfl⟩
    · exact hl x hy
    · exact (EditOf.rekeyed y).localOk (hl y hy)
    · have hok := hcur y (mem_overlayItems.mpr ⟨cur, hcurrent, hy⟩)
      exact ((EditOf.terminalizeSettledItem y).trans (.rekeyed _)).localOk hok.localOk

variable {runtime : Option RuntimeOverlaySnapshot} {out : List TimelineItem}

theorem carrySettledRuntimeItems_admits (h : carrySettledRuntimeItems l current runtime = some out)
    (hl : ∀ x ∈ l, LocalOk c x) (hcur : ∀ x ∈ overlayItems current, OverlayOk c x)
    (hnew : ∀ x ∈ overlayItems runtime, OverlayOk c x)
    (hx : ∃ x ∈ overlayItems runtime, x.userClientId = some c) :
    ∃ y ∈ out, y.id = userItemId c ∧ (itemTurnIdOf y).isSome := by
  obtain ⟨x, hx, hxu⟩ := hx
  obtain ⟨inc, rfl, hxinc⟩ := mem_overlayItems.mp hx
  unfold carrySettledRuntimeItems at h
  dsimp only at h
  have hcarry : ∀ x ∈ (carryPriorRuntimeItems l current inc).getD l, LocalOk c x :=
    localOk_carryPrior hl hcur
  generalize (carryPriorRuntimeItems l current inc).getD l = base at h hcarry
  have hadmitted : x ∈ inc.volatileItems.filter (fun item => item.userClientId.isSome) :=
    mem_filter.mpr ⟨hxinc, by simp [hxu]⟩
  have hne : (inc.volatileItems.filter (fun item => item.userClientId.isSome)).isEmpty = false := by
    rw [← Bool.not_eq_true, List.isEmpty_iff]
    intro hnil
    rw [hnil] at hadmitted
    cases hadmitted
  unfold admitRuntimeUserItems at h
  rw [if_neg (by simp [hne]), some_or] at h
  cases h
  have hlabel := labelled_buildTimelineById base
  have hitems : ∀ i ∈ (inc.volatileItems.filter (fun item => item.userClientId.isSome)).map
      (fun item => { item with status := .value .complete }),
      OverlayOk c i ∧ i.status.get ≠ some .pending := by
    intro i hi
    obtain ⟨z, hz, rfl⟩ := mem_map.mp hi
    have hok := hnew z (mem_overlayItems.mpr ⟨inc, rfl, (mem_filter.mp hz).1⟩)
    exact ⟨(EditOf.completed z).overlayOk hok, by simp⟩
  obtain ⟨y, hy, hturn⟩ := mergeIntoById_admits hlabel
    (fun id z hz => hcarry z (mem_of_get?_buildTimelineById hz).1) hitems
    (.inr ⟨_, mem_map_of_mem hadmitted, hxu⟩)
  exact ⟨y, mem_sortTimelineItems.mpr (OrderedMap.mem_values.mpr ⟨_, hy⟩),
    labelled_mergeIntoById hlabel _ _ _ hy, hturn⟩

/-- The canonical page, the overlay, the local items, the records and the queue agree about
the client id. -/
structure Tracked (c : String) (s : ChatV2ClientState) : Prop where
  canonical : s.timeline.All (Attributed c)
  once : s.timeline.OnceAt (userItemId c)
  overlay : ∀ x ∈ s.volatileItems, OverlayOk c x
  locals : ∀ x ∈ s.localItems, LocalOk c x
  single : s.localItems.Pairwise (fun x y => x.id = userItemId c → y.id ≠ userItemId c)
  admitted : (∃ x ∈ s.volatileItems, x.userClientId = some c) →
    ∃ x ∈ s.localItems, x.id = userItemId c ∧ (itemTurnIdOf x).isSome
  kept : s.placementOf c ≠ some .deleted
  placed : ∀ x ∈ s.localItems, x.id = userItemId c →
    (itemTurnIdOf x).isSome ∨ (s.placementOf c).isSome
  queue : listsOnce c s.queueMessages

/-- A snapshot lists the id at most once, and not at all where its held version stays in front
of the page. -/
def SnapshotListsOnce (id : String) (s : ChatV2ClientState) (snapshot : ChatSnapshot) : Prop :=
  snapshot.timeline.items.countP (·.id = id) ≤ 1 ∧
    (sameScope snapshot s = true → snapshot.timeline.hasMoreBefore = true →
      id ∈ itemIds (heldBefore s (mergedSnapshotItems s snapshot)) →
      id ∉ itemIds snapshot.timeline.items)

/-- The payloads of a transition are attributed, and it neither deletes the client id nor
takes its item id for a system message. -/
structure Transition.Respects (c : String) (s : ChatV2ClientState) (t : Transition) : Prop where
  items : ∀ x ∈ t.payloadItems, Attributed c x
  turns : ∀ x ∈ overlayItems t.arrivingRuntime, x.userClientId = some c → (itemTurnIdOf x).isSome
  queues : ∀ q ∈ t.payloadQueues, listsOnce c q.messages
  snapshots : ∀ response adopt, t = .snapshot response adopt →
    SnapshotListsOnce (userItemId c) s response
  systems : ∀ input, t = .addSystem input → input.id ≠ userItemId c
  deletes : t.deletes s ≠ some c

theorem tracked_empty (c : String) : Tracked c emptyChatV2State where
  canonical := Indexed.all_ofItems (by simp)
  once := Indexed.onceAt_ofItems (by simp)
  overlay := by simp [ChatV2ClientState.volatileItems, emptyChatV2State]
  locals := by simp [emptyChatV2State]
  single := .nil
  admitted := by simp [ChatV2ClientState.volatileItems, emptyChatV2State]
  kept := by simp [ChatV2ClientState.placementOf, emptyChatV2State]
  placed := by simp [emptyChatV2State]
  queue := by simp [listsOnce, ChatV2ClientState.queueMessages, emptyChatV2State]

theorem countP_id_eq_count (items : List TimelineItem) (id : String) :
    items.countP (·.id = id) = (itemIds items).count id := by
  rw [itemIds, count, countP_map]
  exact countP_congr (fun x _ => by simp)

variable {s : ChatV2ClientState}

theorem onceAt_snapshot {id : String} (hl : Labelled s.timelineById) (ho : s.timeline.OnceAt id)
    {snapshot : ChatSnapshot} (h : SnapshotListsOnce id s snapshot)
    (adopt : Bool) : (Indexed.ofItems (snapshotTimeline snapshot
      (scopedPrevious snapshot adopt (some s)))).OnceAt id := by
  obtain ⟨hpage, hfront⟩ := h
  refine Indexed.onceAt_ofItems ?_
  have hsorted : (sortTimelineItems snapshot.timeline.items).countP (·.id = id) ≤ 1 := by
    rwa [sortTimelineItems, (sortBy_perm itemKey _).countP_eq]
  have hmerged : (mergedSnapshotItems s snapshot).countP (·.id = id) =
      snapshot.timeline.items.countP (·.id = id) := by
    rw [countP_id_eq_count, countP_id_eq_count,
      (itemIds_mergedSnapshotItems hl snapshot).count_eq]
  by_cases hs : sameScope snapshot s
  swap
  · rwa [snapshotTimeline_of_not_sameScope adopt (by simpa using hs)]
  by_cases hempty : s.timelineItems = []
  · simp only [scopedPrevious, hs, if_true]
    rwa [snapshotTimeline_of_empty hempty]
  rw [snapshotTimeline_of_held adopt hs hempty, historyAndPage]
  split_ifs with hmore
  · rw [sortTimelineItems, (sortBy_perm itemKey _).countP_eq, countP_append, hmerged]
    have hheld : (heldBefore s (mergedSnapshotItems s snapshot)).countP (·.id = id) ≤ 1 := by
      refine le_trans ?_ ho.once
      unfold heldBefore
      split
      · simp
      · exact filter_sublist.countP_le
    by_cases hmem : id ∈ itemIds (heldBefore s (mergedSnapshotItems s snapshot))
    · have hzero : snapshot.timeline.items.countP (·.id = id) = 0 := by
        rw [countP_id_eq_count]
        exact count_eq_zero_of_not_mem (hfront hs hmore.1 hmem)
      omega
    · have hzero : (heldBefore s (mergedSnapshotItems s snapshot)).countP (·.id = id) = 0 := by
        rw [countP_id_eq_count]
        exact count_eq_zero_of_not_mem hmem
      omega
  · rwa [hmerged]

variable {t : Transition}

theorem step_once (h : Tracked c s)
    (ht : t.Respects c s) : (step s t).timeline.OnceAt (userItemId c) := by
  rcases step_timeline s t with hedits | ⟨response, adopt, rfl, htl⟩
  · exact hedits.onceAt h.once
  · exact onceAt_snapshot h.canonical.labelled h.once (ht.snapshots response adopt rfl) adopt

theorem newLocalItem_ok (hc : c ≠ "") (ht : t.Respects c s) {x : TimelineItem}
    (h : t.newLocalItem s = some x) :
    LocalOk c x ∧ (x.id = userItemId c →
      ((∀ y ∈ s.localItems, y.isMessageOf c = false) ∧ ((step s t).placementOf c).isSome)) := by
  have hoptimistic (input : OptimisticInput) (hx : optimisticUserItem s input = x) :
      LocalOk c x ∧ (x.id = userItemId c → input.clientMessageId = c) := by
    subst hx
    have hsame : userItemId input.clientMessageId = userItemId c → input.clientMessageId = c := by
      intro he
      simpa [userItemId] using he
    refine ⟨⟨fun hown => ?_, fun _ hr => by simp [isResolvedNotice, optimisticUserItem] at hr⟩,
      hsame⟩
    have hcid : input.clientMessageId = c := by
      rcases hown with hown | hown
      · simpa [TimelineItem.isMessageOf, optimisticUserItem] using hown
      · exact hsame hown
    subst hcid
    exact ⟨userClientId_eq_some.mpr ⟨_, rfl, rfl, rfl, hc⟩, rfl⟩
  cases t with
  | addOptimistic input =>
    simp only [Transition.newLocalItem] at h
    split_ifs at h with hany
    obtain ⟨hok, hid⟩ := hoptimistic input (some.inj h)
    refine ⟨hok, fun hx => ?_⟩
    rw [hid hx] at hany
    refine ⟨by simpa using hany, ?_⟩
    simp only [step, addOptimisticUserMessage, ChatV2ClientState.placementOf]
    rw [hid hx, if_neg hany]
    simp
  | promote input =>
    simp only [Transition.newLocalItem] at h
    split_ifs at h with hany
    obtain ⟨hok, hid⟩ := hoptimistic input (some.inj h)
    refine ⟨hok, fun hx => ?_⟩
    rw [hid hx] at hany
    refine ⟨by simpa using hany, ?_⟩
    simp only [step, promoteQueuedUserMessage, ChatV2ClientState.placementOf]
    rw [hid hx]
    simp
  | addSystem input =>
    simp only [Transition.newLocalItem] at h
    split_ifs at h
    cases h
    have hid : (localSystemItem s input).id ≠ userItemId c := ht.systems input rfl
    refine ⟨⟨fun hown => ?_, fun _ hr => by simp [isResolvedNotice, localSystemItem] at hr⟩,
      fun hx => absurd hx hid⟩
    rcases hown with hown | hown
    · simp [TimelineItem.isMessageOf, localSystemItem] at hown
    · exact absurd hown hid
  | _ => cases h

theorem step_overlay (h : Tracked c s)
    (ht : t.Respects c s) : ∀ x ∈ (step s t).volatileItems, OverlayOk c x :=
  step_volatile_all (fun _ _ => OverlayOk.merge)
    (fun x hx => (EditOf.closePriorPhase x).overlayOk hx)
    h.overlay (fun x hx => ⟨ht.items x (mem_append_right _ hx), ht.turns x hx⟩)

theorem step_single (hc : c ≠ "") (h : Tracked c s) (ht : t.Respects c s) :
    (step s t).localItems.Pairwise (fun x y => x.id = userItemId c → y.id ≠ userItemId c) := by
  have hedits {l l' : List TimelineItem} (he : EditsFrom (t.deletes s) l l') := he.pairwise
    (R := fun x y => x.id = userItemId c → y.id ≠ userItemId c)
    (fun x y x' y' hx hy hR hid => by
      rw [hy.id]
      exact hR (hx.id ▸ hid))
  have hbase : (t.baseLocal s).Pairwise (fun x y => x.id = userItemId c → y.id ≠ userItemId c) := by
    unfold Transition.baseLocal
    split_ifs
    · exact h.single
    · exact .nil
  rcases step_localItems s t with ⟨-, -, -, he⟩ | ⟨l, hsource, he⟩
  · exact hedits he h.single
  · refine hedits he (hedits (.reconcile _ _) ?_)
    cases hsource with
    | held hl _ => exact hedits hl hbase
    | minted hx _ =>
      refine pairwise_append.mpr ⟨h.single, pairwise_singleton _ _, fun a ha b hb haid => ?_⟩
      rw [mem_singleton.mp hb]
      intro hbid
      have hnone := (newLocalItem_ok hc ht hx).2 hbid
      have hau := (h.locals a ha).1.user_iff.mpr haid
      simpa [isMessageOf_of_user hau] using hnone.1 a ha
    | carried hl hcur hcarry =>
      exact (pairwise_map.mp (carrySettledRuntimeItems_nodup hcarry)).imp
        (fun hne hxid hyid => hne (hxid.trans hyid.symm))

theorem step_locals (hc : c ≠ "") (h : Tracked c s)
    (ht : t.Respects c s) : ∀ x ∈ (step s t).localItems, LocalOk c x ∧
      (x.id = userItemId c → (itemTurnIdOf x).isSome ∨ ((step s t).placementOf c).isSome) := by
  have hoverlay := step_overlay h ht
  have hadmits (x : TimelineItem) (hx : x ∈ (step s t).volatileItems) :
      OverlayOk c { x with status := .value .complete } :=
    (EditOf.completed x).overlayOk (hoverlay x hx)
  refine step_local_all (fun x y he hx => ⟨he.localOk hx.1, fun hid => ?_⟩) (fun x hx => ?_)
    (fun x hx => ?_) (fun x hx _ => ?_) (fun e x hx _ hid he => ?_) (fun x hx => ?_)
  · rw [he.turn]
    exact hx.2 (he.id ▸ hid)
  · unfold Transition.baseLocal at hx
    split_ifs at hx with hscope
    · refine ⟨h.locals x hx, fun hid => ?_⟩
      rcases h.placed x hx hid with hturn | hplace
      · exact .inl hturn
      · refine .inr ?_
        have hstep := (step_places s t c).1
        rw [Transition.basePlacements, if_pos hscope] at hstep
        simpa [ChatV2ClientState.placementOf] using hstep (by simpa [ChatV2ClientState.placementOf]
          using hplace)
    · cases hx
  · have hok := (EditOf.terminalizeSettledItem x).overlayOk (h.overlay x hx)
    exact ⟨hok.localOk, fun hid => .inl (hok.2 (hok.1.user_iff.mpr hid))⟩
  · have hok := hadmits x hx
    exact ⟨hok.localOk, fun hid => .inl (hok.2 (hok.1.user_iff.mpr hid))⟩
  · have hok := hadmits x hx
    have hattr := he.1.1.merge (i := { x with status := .value .complete }) hid hok.1
    have hturn := turn_merge_overlay (i := { x with status := .value .complete }) he.1 hok hid
      (by simp)
    exact ⟨⟨hattr, fun hu _ => hturn hu⟩, fun hmid => .inl (hturn (hattr.user_iff.mpr hmid))⟩
  · obtain ⟨hok, hrecord⟩ := newLocalItem_ok hc ht hx
    exact ⟨hok, fun hid => .inr (hrecord hid).2⟩

variable {deleted : Option String} {l' : List TimelineItem}

theorem EditsFrom.keeps_id (h : EditsFrom deleted l l') (hd : deleted ≠ some c)
    (hl : ∀ x ∈ l, LocalOk c x) {x : TimelineItem} (hx : x ∈ l) (hid : x.id = userItemId c) :
    ∃ y ∈ l', y.id = userItemId c ∧ itemTurnIdOf y = itemTurnIdOf x := by
  obtain ⟨y, hy, hxy⟩ := h.keeps x hx c ((hl x hx).1.user_iff.mpr hid) hd
  exact ⟨y, hy, hxy.id.trans hid, hxy.turn⟩

theorem EditsFrom.localOk (h : EditsFrom deleted l l')
    (hl : ∀ x ∈ l, LocalOk c x) : ∀ x ∈ l', LocalOk c x := by
  intro y hy
  obtain ⟨x, hx, hxy⟩ := h.exists_mem hy
  exact hxy.localOk (hl x hx)

theorem localOk_carried (h : carrySettledRuntimeItems l current runtime = some out)
    (hl : ∀ x ∈ l, LocalOk c x) (hcur : ∀ x ∈ overlayItems current, OverlayOk c x)
    (hnew : ∀ x ∈ overlayItems runtime, OverlayOk c x) : ∀ x ∈ out, LocalOk c x := by
  refine carrySettledRuntimeItems_all h hl (fun x hx => (EditOf.rekeyed x).localOk hx)
    (fun cur hcurrent x hx => ((EditOf.terminalizeSettledItem x).overlayOk
      (hcur x (mem_overlayItems.mpr ⟨cur, hcurrent, hx⟩))).localOk)
    (fun inc hinc x hx _ => ((EditOf.completed x).overlayOk
      (hnew x (mem_overlayItems.mpr ⟨inc, hinc, hx⟩))).localOk) ?_
  intro inc hinc e x hx _ hid he
  have hok := (EditOf.completed x).overlayOk (hnew x (mem_overlayItems.mpr ⟨inc, hinc, hx⟩))
  exact ⟨he.1.merge (i := { x with status := .value .complete }) hid hok.1, fun hu _ =>
    turn_merge_overlay (i := { x with status := .value .complete }) he hok hid (by simp) hu⟩

section

variable {c : String} {s : ChatV2ClientState} {t : Transition}

theorem overlayOk_current (h : Tracked c s)
    (hcur : current = s.runtime ∨ current = none) : ∀ x ∈ overlayItems current, OverlayOk c x := by
  rcases hcur with rfl | rfl
  · exact h.overlay
  · simp [overlayItems]

theorem localOk_baseLocal (h : Tracked c s) : ∀ x ∈ t.baseLocal s, LocalOk c x :=
  baseLocal_all h.locals

theorem LocalSource.keeps_id (h : Tracked c s) (ht : t.Respects c s) (hl : LocalSource s t l)
    (hscope : t.inScope s) (hx : ∃ x ∈ s.localItems, x.id = userItemId c) :
    ∃ y ∈ l, y.id = userItemId c := by
  have hbase : t.baseLocal s = s.localItems := by rw [Transition.baseLocal, if_pos hscope]
  obtain ⟨x, hx, hid⟩ := hx
  cases hl with
  | held he _ =>
    obtain ⟨y, hy, hyid, -⟩ := he.keeps_id ht.deletes (localOk_baseLocal h) (hbase ▸ hx) hid
    exact ⟨y, hy, hyid⟩
  | minted _ _ => exact ⟨x, mem_append_left _ hx, hid⟩
  | carried he hcur hcarry =>
    obtain ⟨y, hy, hyid, -⟩ := he.keeps_id ht.deletes (localOk_baseLocal h) (hbase ▸ hx) hid
    exact carrySettledRuntimeItems_keeps hcarry ⟨y, hy, hyid⟩

theorem LocalSource.localOk (hc : c ≠ "") (h : Tracked c s) (ht : t.Respects c s)
    (hl : LocalSource s t l) : ∀ x ∈ l, LocalOk c x := by
  cases hl with
  | held he _ => exact he.localOk (localOk_baseLocal h)
  | minted hx _ =>
    intro y hy
    rcases mem_append.mp hy with hy | hy
    · exact h.locals y hy
    · rw [mem_singleton.mp hy]
      exact (newLocalItem_ok hc ht hx).1
  | carried he hcur hcarry =>
    exact localOk_carried hcarry (he.localOk (localOk_baseLocal h)) (overlayOk_current h hcur)
      (step_overlay h ht)

theorem step_keeps_id (hc : c ≠ "") (h : Tracked c s) (ht : t.Respects c s) (hscope : t.inScope s)
    (hx : ∃ x ∈ s.localItems, x.id = userItemId c) :
    ∃ y ∈ (step s t).localItems, y.id = userItemId c := by
  rcases step_localItems s t with ⟨-, -, -, he⟩ | ⟨l, hsource, he⟩
  · obtain ⟨x, hx, hid⟩ := hx
    obtain ⟨y, hy, hyid, -⟩ := he.keeps_id ht.deletes h.locals hx hid
    exact ⟨y, hy, hyid⟩
  · obtain ⟨y, hy, hyid⟩ := hsource.keeps_id h ht hscope hx
    have hedits := (EditsFrom.reconcile l (step s t).timeline.items).trans he
    obtain ⟨z, hz, hzid, -⟩ := hedits.keeps_id ht.deletes (hsource.localOk hc h ht) hy hyid
    exact ⟨z, hz, hzid⟩

theorem admitted_of_noAdmission (h : Tracked c s) (hn : NoAdmission s t)
    (hx : ∃ x ∈ (step s t).volatileItems, x.userClientId = some c) :
    t.inScope s ∧ ∃ x ∈ s.localItems, x.id = userItemId c ∧ (itemTurnIdOf x).isSome := by
  rcases hn with ⟨hscope, hruntime⟩ | hnone
  · refine ⟨hscope, h.admitted ?_⟩
    rwa [ChatV2ClientState.volatileItems, ← hruntime]
  · obtain ⟨x, hx, hu⟩ := hx
    rw [hnone x hx] at hu
    cases hu

theorem step_admitted (hc : c ≠ "") (h : Tracked c s) (ht : t.Respects c s)
    (hx : ∃ x ∈ (step s t).volatileItems, x.userClientId = some c) :
    ∃ y ∈ (step s t).localItems, y.id = userItemId c ∧ (itemTurnIdOf y).isSome := by
  rcases step_localItems s t with ⟨-, hn, -, he⟩ | ⟨l, hsource, he⟩
  · obtain ⟨-, x, hx, hid, hturn⟩ := admitted_of_noAdmission h hn hx
    obtain ⟨y, hy, hyid, hyturn⟩ := he.keeps_id ht.deletes h.locals hx hid
    exact ⟨y, hy, hyid, hyturn ▸ hturn⟩
  · have hmem : ∃ y ∈ l, y.id = userItemId c ∧ (itemTurnIdOf y).isSome := by
      cases hsource with
      | held hl hn =>
        obtain ⟨hscope, x, hx, hid, hturn⟩ := admitted_of_noAdmission h hn hx
        have hbase : t.baseLocal s = s.localItems := by rw [Transition.baseLocal, if_pos hscope]
        obtain ⟨y, hy, hyid, hyturn⟩ :=
          hl.keeps_id ht.deletes (localOk_baseLocal h) (hbase ▸ hx) hid
        exact ⟨y, hy, hyid, hyturn ▸ hturn⟩
      | minted _ hn =>
        obtain ⟨-, x, hx, hid, hturn⟩ := admitted_of_noAdmission h hn hx
        exact ⟨x, mem_append_left _ hx, hid, hturn⟩
      | carried hl hcur hcarry =>
        exact carrySettledRuntimeItems_admits hcarry (hl.localOk (localOk_baseLocal h))
          (overlayOk_current h hcur) (step_overlay h ht) hx
    obtain ⟨y, hy, hyid, hturn⟩ := hmem
    have hedits := (EditsFrom.reconcile l (step s t).timeline.items).trans he
    obtain ⟨z, hz, hzid, hzturn⟩ := hedits.keeps_id ht.deletes (hsource.localOk hc h ht) hy hyid
    exact ⟨z, hz, hzid, hzturn ▸ hturn⟩

theorem Tracked.step (hc : c ≠ "") (h : Tracked c s) (ht : t.Respects c s) :
    Tracked c (Client.step s t) where
  canonical := step_timeline_all (fun _ _ => Attributed.merge) h.canonical
    (fun x hx => ht.items x (mem_append_left _ hx))
  once := step_once h ht
  overlay := step_overlay h ht
  locals x hx := (step_locals hc h ht x hx).1
  single := step_single hc h ht
  admitted := step_admitted hc h ht
  kept := by
    intro hdel
    have hstep := (step_places s t c).2 ht.deletes hdel
    unfold Transition.basePlacements at hstep
    split_ifs at hstep
    · exact h.kept hstep
    · simp at hstep
  placed x hx := (step_locals hc h ht x hx).2
  queue := step_listsOnce h.queue ht.queues

end

end Cognis.Client
