import Cognis.Client.Steps
import Cognis.Client.Visible

namespace Cognis.Client

open List SortByKey Timeline

def overlayItems (runtime : Option RuntimeOverlaySnapshot) : List TimelineItem :=
  (runtime.map (·.volatileItems)).getD []

def ChatViewOp.upsertedItem : ChatViewOp → Option TimelineItem
  | .upsertItem item => some item
  | _ => none

def Transition.arrivingItems : Transition → List TimelineItem
  | .snapshot response _ => response.timeline.items
  | .backfill response => response.items
  | .sync payload _ => payload.ops.filterMap ChatViewOp.upsertedItem
  | _ => []

def Transition.arrivingRuntime : Transition → Option RuntimeOverlaySnapshot
  | .snapshot response _ => response.runtime
  | .sync payload _ => payload.runtime
  | .cancel response => response.runtime
  | .queueMutation response => response.runtime
  | _ => none

def Transition.payloadItems (t : Transition) : List TimelineItem :=
  t.arrivingItems ++ overlayItems t.arrivingRuntime

theorem mem_overlayItems {runtime : Option RuntimeOverlaySnapshot} {x : TimelineItem} :
    x ∈ overlayItems runtime ↔ ∃ r, runtime = some r ∧ x ∈ r.volatileItems := by
  cases runtime <;> simp [overlayItems]

variable {s : ChatV2ClientState} {snapshot : ChatSnapshot}

theorem mem_volatileItems {x : TimelineItem} :
    x ∈ s.volatileItems ↔ ∃ r, s.runtime = some r ∧ x ∈ r.volatileItems := mem_overlayItems

theorem foldl_applyOp_edits {arriving : List TimelineItem} {t : Indexed} {ops : List ChatViewOp}
    {target : OpTarget} (h : TimelineEdits arriving t target.timeline)
    (hi : ∀ x ∈ ops.filterMap ChatViewOp.upsertedItem, x ∈ arriving) :
    TimelineEdits arriving t (ops.foldl applyOp target).timeline := by
  induction ops generalizing target with
  | nil => exact h
  | cons op ops ih =>
    refine ih ?_ (fun x hx => hi x ?_)
    · cases op with
      | upsertItem item => exact h.upsert (hi item (by simp [ChatViewOp.upsertedItem]))
      | removeItem id =>
        dsimp only [applyOp]
        split_ifs
        · exact h.remove id
        · exact h
      | _ => exact h
    · rw [filterMap_cons]
      split
      · exact hx
      · exact mem_cons_of_mem _ hx

theorem scopedPrevious_timeline {adopt : Bool} {p : ChatV2ClientState}
    (h : scopedPrevious snapshot adopt (some s) = some p) :
    p = s ∨ (p.timeline = Indexed.ofItems s.timelineItems ∧ p.runtime = s.runtime ∧
      p.localItems = s.localItems ∧ p.admissionPlacements = s.admissionPlacements) := by
  unfold scopedPrevious at h
  dsimp only at h
  split_ifs at h <;> cases h
  · exact .inl rfl
  · exact .inr ⟨rfl, rfl, rfl, rfl⟩

/-- Everything a transition can do to the canonical timeline: a snapshot rebuilds it, the
others upsert what arrives and remove. -/
theorem step_timeline (s : ChatV2ClientState) (t : Transition) :
    TimelineEdits t.arrivingItems s.timeline (step s t).timeline ∨
      ∃ response adopt, t = .snapshot response adopt ∧ (step s t).timeline =
        Indexed.ofItems (snapshotTimeline response (scopedPrevious response adopt (some s))) := by
  rcases serverDriven_or_edit s t with hserver | ⟨_, _, hedit⟩
  swap
  · exact .inl (hedit ▸ .refl)
  cases t with
  | snapshot response adopt => exact .inr ⟨response, adopt, rfl, rfl⟩
  | backfill =>
    refine .inl ?_
    simp only [step, applyBackfill, applyBackfillResult]
    split_ifs
    · exact .refl
    · exact .refl
    · exact TimelineEdits.refl.foldl_upsertMerged (fun x hx => hx)
  | sync payload now =>
    refine .inl ?_
    change TimelineEdits _ _ (applyScopedSync s payload now).state.timeline
    have htl := applyBoundaryReceipts_timeline s payload.receipts now
    rcases applyScopedSync_cases s payload now with ⟨-, _, _, hst⟩ | ⟨-, received, rfl, hst⟩
    · rw [hst]
      exact .refl
    · rcases hst with ⟨_, _, hst, -⟩ | ⟨-, hst⟩ | ⟨-, -, _, -, hst⟩ | ⟨-, -, hst⟩ <;> rw [hst]
      · exact htl ▸ .refl
      · exact htl ▸ .refl
      · exact htl ▸ .refl
      · refine foldl_applyOp_edits ?_ (fun x hx => hx)
        exact htl ▸ .refl
  | send =>
    refine .inl ?_
    simp only [step, applySendResponse]
    split_ifs <;> exact .refl
  | cancel =>
    refine .inl ?_
    simp only [step, applyCancelResponse]
    split_ifs <;> exact .refl
  | queueMutation =>
    refine .inl ?_
    simp only [step, applyQueueMutationResponse]
    split_ifs <;> exact .refl
  | _ => cases hserver

section

variable {P : TimelineItem → Prop}
  (hmerge : ∀ e i, e.id = i.id → P e → P i → P (mergeTimelineItem e i))
include hmerge

theorem snapshotTimeline_all {base : Option ChatV2ClientState}
    (hb : ∀ p, base = some p → p.timeline.All P) (hi : ∀ x ∈ snapshot.timeline.items, P x) :
    ∀ x ∈ snapshotTimeline snapshot base, P x := by
  have hsorted : ∀ x ∈ sortTimelineItems snapshot.timeline.items, P x := fun x hx =>
    hi x (mem_sortTimelineItems.mp hx)
  have hmerged : ∀ x ∈ mergeSnapshotWithExisting (sortTimelineItems snapshot.timeline.items)
      snapshot base, P x := by
    unfold mergeSnapshotWithExisting
    split
    · exact hsorted
    next p =>
      split_ifs
      · exact hsorted
      · intro x hx
        obtain ⟨y, hy, rfl⟩ := mem_map.mp hx
        split
        next e he =>
          exact hmerge e y ((hb p rfl).labelled _ _ he) ((hb p rfl).indexed _ _ he) (hsorted y hy)
        next => exact hsorted y hy
  unfold snapshotTimeline
  generalize mergeSnapshotWithExisting (sortTimelineItems snapshot.timeline.items) snapshot base
    = merged at hmerged ⊢
  unfold mergeBackfilledHistory
  split
  next p earliest rest =>
    dsimp only
    split_ifs
    · exact hmerged
    · exact hmerged
    · intro x hx
      rcases mem_append.mp (mem_sortTimelineItems.mp hx) with hx | hx
      · exact (hb p rfl).1 x (mem_filter.mp hx).1
      · exact hmerged x hx
  · exact hmerged

/-- The canonical items of the next state have a property that merges keep, if the held
and the arriving ones have it. -/
theorem step_timeline_all {t : Transition} (h : s.timeline.All P)
    (ht : ∀ x ∈ t.arrivingItems, P x) : (step s t).timeline.All P := by
  rcases step_timeline s t with hedits | ⟨response, adopt, rfl, htl⟩
  · exact hedits.all hmerge h ht
  · refine Indexed.all_ofItems (snapshotTimeline_all hmerge (fun p hp => ?_) ht)
    rcases scopedPrevious_timeline hp with rfl | ⟨htl, -⟩
    · exact h
    · rw [htl]
      exact Indexed.all_ofItems h.items

end

/-- Every transition ends with the overlay that the arriving one, if any, makes of the held one,
or of none. -/
theorem step_runtime (s : ChatV2ClientState) (t : Transition) :
    (step s t).runtime = s.runtime ∨ ∃ current,
      (step s t).runtime = maybeApplyRuntime current t.arrivingRuntime ∧
      (current = s.runtime ∨ current = none) := by
  rcases serverDriven_or_edit s t with hserver | ⟨_, _, hedit⟩
  swap
  · exact .inl (hedit ▸ rfl)
  cases t with
  | snapshot response adopt =>
    refine .inr ⟨_, rfl, ?_⟩
    cases hp : scopedPrevious response adopt (some s) with
    | none => exact .inr rfl
    | some p =>
      rcases scopedPrevious_timeline hp with rfl | ⟨-, hr, -⟩
      · exact .inl rfl
      · exact .inl hr
  | sync payload now =>
    change (applyScopedSync s payload now).state.runtime = _ ∨ _
    have hreceipts := applyBoundaryReceipts_runtime s payload.receipts now
    rcases applyScopedSync_cases s payload now with ⟨-, _, _, hst⟩ | ⟨-, received, rfl, hst⟩
    · exact .inl (by rw [hst]; rfl)
    · rcases hst with ⟨_, _, hst, -⟩ | ⟨-, hst⟩ | ⟨-, -, r, hr, hst⟩ | ⟨-, -, hst⟩
      · exact .inl (by rw [hst]; exact hreceipts)
      · exact .inl (by rw [hst]; exact hreceipts)
      · refine .inr ⟨_, ?_, .inl hreceipts⟩
        rw [step, hst, Transition.arrivingRuntime, maybeApplyRuntime, hr]
        rfl
      · refine .inr ⟨_, ?_, .inl hreceipts⟩
        rw [step, hst]
        rfl
  | cancel =>
    simp only [step, applyCancelResponse]
    split_ifs
    · exact .inl rfl
    · exact .inr ⟨_, rfl, .inl rfl⟩
  | queueMutation =>
    simp only [step, applyQueueMutationResponse]
    split_ifs
    · exact .inl rfl
    · exact .inr ⟨_, rfl, .inl rfl⟩
  | backfill =>
    simp only [step, applyBackfill, applyBackfillResult]
    split_ifs <;> exact .inl rfl
  | send =>
    simp only [step, applySendResponse]
    split_ifs <;> exact .inl rfl
  | _ => cases hserver

section

variable {P : TimelineItem → Prop} {t : Transition}
  (hmerge : ∀ e i, e.id = i.id → P e → P i → P (mergeTimelineItem e i))
  (hclose : ∀ x, P x → P (closePriorPhase x))
include hmerge hclose

/-- The overlay items of the next state have a property that merges and closing keep, if those
of the held and of the arriving overlay have it, as far as they are about its turn. -/
theorem step_volatile_of_turn {r : RuntimeOverlaySnapshot} (hr : (step s t).runtime = some r)
    (h : ∀ c, s.runtime = some c → SameTurn c r → ∀ x ∈ c.volatileItems, P x)
    (ht : ∀ i, t.arrivingRuntime = some i → SameTurn i r → ∀ x ∈ i.volatileItems, P x) :
    ∀ x ∈ r.volatileItems, P x := by
  rcases step_runtime s t with hsame | ⟨current, hstep, hcur⟩
  · exact h r (hsame ▸ hr) ⟨rfl, rfl⟩
  · refine maybeApplyRuntime_all hmerge hclose (hstep ▸ hr) (fun c hc hturn => ?_) ht
    rcases hcur with rfl | rfl
    · exact h c hc hturn
    · cases hc

theorem step_volatile_all (h : ∀ x ∈ s.volatileItems, P x)
    (ht : ∀ x ∈ overlayItems t.arrivingRuntime, P x) : ∀ x ∈ (step s t).volatileItems, P x := by
  intro x hx
  obtain ⟨r, hr, hxr⟩ := mem_volatileItems.mp hx
  exact step_volatile_of_turn hmerge hclose hr
    (fun c hc _ y hy => h y (mem_volatileItems.mpr ⟨c, hc, hy⟩))
    (fun i hi _ y hy => ht y (mem_overlayItems.mpr ⟨i, hi, hy⟩)) x hxr

end

def mergedWithHeld (s : ChatV2ClientState) (item : TimelineItem) : TimelineItem :=
  match s.timelineById.get? item.id with
  | some existing => mergeTimelineItem existing item
  | none => item

def mergedSnapshotItems (s : ChatV2ClientState) (snapshot : ChatSnapshot) : List TimelineItem :=
  (sortTimelineItems snapshot.timeline.items).map (mergedWithHeld s)

def heldBefore (s : ChatV2ClientState) (items : List TimelineItem) : List TimelineItem :=
  match items with
  | [] => []
  | earliest :: _ => s.timelineItems.filter (fun item => itemKey item < itemKey earliest)

/-- The held item stays as it is: it has settled, or its notice is resolved. -/
def keepsHeld (existing incoming : TimelineItem) : Bool :=
  match existing.body, incoming.body with
  | .compaction _, .compaction _ =>
    existing.status.get ≠ some .running && incoming.status.get = some .running
  | .message e, .message i => e.role = i.role && keepsHeldMessage existing incoming e
  | _, _ => false

def sameKind (existing incoming : TimelineItem) : Bool :=
  match existing.body, incoming.body with
  | .handoff _, .handoff _ | .compaction _, .compaction _ | .toolCall _, .toolCall _ => true
  | .thinking _, .thinking _ => true
  | .message e, .message i => e.role = i.role
  | .other e, .other i => e.kind = i.kind
  | _, _ => false

/-- Where an arriving item comes to stand over a held one of its id. -/
def placedSortKey (existing incoming : TimelineItem) : String :=
  if keepsHeld existing incoming then existing.sortKey
  else if sameKind existing incoming then mergedSortKey existing incoming
  else incoming.sortKey

theorem sortKey_mergeTimelineItem (existing incoming : TimelineItem) :
    (mergeTimelineItem existing incoming).sortKey = placedSortKey existing incoming := by
  unfold mergeTimelineItem placedSortKey keepsHeld sameKind
  split
  next he hi => simp [he, hi, mergeHandoff, spreadBase]
  next he hi =>
    simp only [he, hi, mergeCompaction, Bool.and_eq_true, decide_eq_true_eq]
    split_ifs <;> rfl
  next he hi => simp [he, hi, mergeToolCallItem, spreadBase]
  next he hi => simp [he, hi, mergeThinkingItem, spreadBase]
  next e i he hi =>
    simp only [he, hi, mergeMessageItem]
    by_cases hrole : e.role = i.role
    · simp only [hrole, ne_eq, not_true_eq_false, if_false, decide_true, Bool.true_and, if_true]
      split_ifs <;> rfl
    · simp [hrole]
  next e i he hi =>
    simp only [he, hi, mergeOther, Bool.false_eq_true, if_false, decide_eq_true_eq]
    split_ifs <;> rfl
  next hhandoff hcompaction htool hthinking hmessage hother =>
    split
    next he hi => exact absurd hi (hcompaction _ _ he)
    next he hi => exact absurd hi (hmessage _ _ he)
    next =>
      split
      all_goals first | rfl | simp_all

/-- Where an item of a page comes to stand among what the client holds. -/
def placedKey (s : ChatV2ClientState) (item : TimelineItem) : ItemKey :=
  match s.timelineById.get? item.id with
  | some existing => toLex (placedSortKey existing item, item.id)
  | none => itemKey item

/-- The held items in front of the place of the page's first item. -/
def heldInFront (s : ChatV2ClientState) (page : List TimelineItem) : List TimelineItem :=
  match sortTimelineItems page with
  | [] => []
  | earliest :: _ => s.timelineItems.filter (fun item => itemKey item < placedKey s earliest)

/-- A snapshot for the held scope and projection keeps the canonical order: where held
history stays in front of it, none of that history is listed again by the snapshot; else
any two of its items come to stand in the order of their own sort keys. -/
def SnapshotKeepsOrder (s : ChatV2ClientState) (snapshot : ChatSnapshot) : Prop :=
  sameScope snapshot s = true →
    if snapshot.timeline.hasMoreBefore = true ∧ heldInFront s snapshot.timeline.items ≠ [] then
      ∀ x ∈ heldInFront s snapshot.timeline.items, ∀ y ∈ snapshot.timeline.items, x.id ≠ y.id
    else ∀ y ∈ snapshot.timeline.items, ∀ z ∈ snapshot.timeline.items, itemKey y < itemKey z →
      placedKey s y < placedKey s z

def Transition.DistinctIds : Transition → Prop
  | .snapshot response _ => (itemIds response.timeline.items).Nodup
  | .backfill response => (itemIds response.items).Nodup
  | _ => True

def Transition.KeepsOrder (s : ChatV2ClientState) : Transition → Prop
  | .snapshot response _ => SnapshotKeepsOrder s response
  | _ => True

section

variable (h : Labelled s.timelineById)
include h

theorem mergedWithHeld_id (item : TimelineItem) :
    (mergedWithHeld s item).id = item.id := by
  unfold mergedWithHeld
  cases hget : s.timelineById.get? item.id with
  | none => rfl
  | some => exact mergeTimelineItem_id (h _ _ hget)

theorem itemKey_mergedWithHeld (item : TimelineItem) :
    itemKey (mergedWithHeld s item) = placedKey s item := by
  rw [itemKey, mergedWithHeld_id h]
  unfold mergedWithHeld placedKey
  cases s.timelineById.get? item.id with
  | none => rfl
  | some existing => exact congrArg (toLex (·, item.id)) (sortKey_mergeTimelineItem existing item)

theorem heldBefore_mergedSnapshotItems (snapshot : ChatSnapshot) :
    heldBefore s (mergedSnapshotItems s snapshot) = heldInFront s snapshot.timeline.items := by
  unfold heldBefore mergedSnapshotItems heldInFront
  cases sortTimelineItems snapshot.timeline.items with
  | nil => rfl
  | cons => simp only [map_cons, itemKey_mergedWithHeld h]

end

variable {items : List TimelineItem}

theorem ascending_sortTimelineItems (h : (itemIds items).Nodup) :
    Ascending itemKey (sortTimelineItems items) := by
  refine ascending_sortBy ?_
  rw [Nodup, pairwise_map]
  exact (pairwise_map.mp h).imp itemKey_ne_of_id_ne

theorem ascending_mergedSnapshotItems_iff (h : Labelled s.timelineById)
    (hd : (itemIds snapshot.timeline.items).Nodup) :
    Ascending itemKey (mergedSnapshotItems s snapshot) ↔
      ∀ y ∈ snapshot.timeline.items, ∀ z ∈ snapshot.timeline.items, itemKey y < itemKey z →
        placedKey s y < placedKey s z := by
  have hplaced : Ascending itemKey (mergedSnapshotItems s snapshot) ↔
      Ascending (placedKey s) (sortTimelineItems snapshot.timeline.items) := by
    simp only [Ascending, mergedSnapshotItems, pairwise_map, itemKey_mergedWithHeld h]
  rw [hplaced, ascending_iff_of_ascending (ascending_sortTimelineItems hd)]
  simp only [sortTimelineItems, mem_sortBy]

theorem itemIds_mergedSnapshotItems (h : Labelled s.timelineById) (snapshot : ChatSnapshot) :
    (itemIds (mergedSnapshotItems s snapshot)).Perm (itemIds snapshot.timeline.items) := by
  have hids : itemIds (mergedSnapshotItems s snapshot) =
      itemIds (sortTimelineItems snapshot.timeline.items) := by
    simp only [itemIds, mergedSnapshotItems, map_map]
    exact map_congr_left (fun item _ => mergedWithHeld_id h item)
  rw [hids]
  exact (sortBy_perm itemKey _).map _

theorem labelled_of_keyed {t : Indexed} (h : t.Keyed) : Labelled t.byId :=
  fun id x hx => ((h.index id x).mp hx).2

theorem wellFormed_ofItems_iff :
    (Indexed.ofItems items).WellFormed ↔ (itemIds items).Nodup ∧ Ascending itemKey items := by
  constructor
  · intro h
    exact ⟨h.nodup, h.ascending⟩
  · rintro ⟨hn, ha⟩
    exact { toKeyed := Indexed.keyed_ofItems hn, ascending := ha }

theorem wellFormed_empty : (Indexed.ofItems []).WellFormed :=
  wellFormed_ofItems_iff.mpr ⟨nodup_nil, List.Pairwise.nil⟩

theorem snapshotTimeline_of_empty {p : ChatV2ClientState} (h : p.timelineItems = []) :
    snapshotTimeline snapshot (some p) = sortTimelineItems snapshot.timeline.items := by
  have hmerge : mergeSnapshotWithExisting (sortTimelineItems snapshot.timeline.items) snapshot
      (some p) = sortTimelineItems snapshot.timeline.items := by
    simp [mergeSnapshotWithExisting, h]
  rw [snapshotTimeline, hmerge]
  cases sortTimelineItems snapshot.timeline.items with
  | nil => rfl
  | cons => simp [mergeBackfilledHistory, h]

theorem snapshotTimeline_of_not_sameScope (adopt : Bool) (hs : sameScope snapshot s = false) :
    snapshotTimeline snapshot (scopedPrevious snapshot adopt (some s)) =
      sortTimelineItems snapshot.timeline.items := by
  unfold scopedPrevious
  dsimp only
  rw [if_neg (by simp [hs])]
  split_ifs with hadopt
  · refine snapshotTimeline_of_empty ?_
    simp only [canAdoptUnscopedLocalAdmissions, Bool.and_eq_true, List.isEmpty_iff] at hadopt
    exact hadopt.1.2
  · rfl

def historyAndPage (s : ChatV2ClientState) (snapshot : ChatSnapshot) : List TimelineItem :=
  if snapshot.timeline.hasMoreBefore = true ∧ heldBefore s (mergedSnapshotItems s snapshot) ≠ []
  then sortTimelineItems
    (heldBefore s (mergedSnapshotItems s snapshot) ++ mergedSnapshotItems s snapshot)
  else mergedSnapshotItems s snapshot

theorem snapshotTimeline_of_held (adopt : Bool) (hs : sameScope snapshot s = true)
    (hne : s.timelineItems ≠ []) :
    snapshotTimeline snapshot
      (scopedPrevious snapshot adopt (some s)) = historyAndPage s snapshot := by
  have hmerge : mergeSnapshotWithExisting (sortTimelineItems snapshot.timeline.items) snapshot
      (some s) = mergedSnapshotItems s snapshot := by
    simp only [mergeSnapshotWithExisting, hs, Bool.not_true, Bool.or_false, List.isEmpty_iff, hne]
    rfl
  simp only [scopedPrevious, hs, if_true]
  rw [snapshotTimeline, hmerge, historyAndPage]
  cases hm : mergedSnapshotItems s snapshot with
  | nil => simp [mergeBackfilledHistory, heldBefore]
  | cons =>
    simp only [mergeBackfilledHistory, hs, heldBefore, Bool.not_true, Bool.false_or]
    cases snapshot.timeline.hasMoreBefore with
    | false => simp
    | true =>
      simp only [Bool.not_true, Bool.false_eq_true, if_false, true_and, List.isEmpty_iff, ne_eq]
      split_ifs <;> rfl

/-- A snapshot for the held scope and projection: its items merged with their held versions,
behind the held history that precedes them. -/
theorem snapshotTimeline_of_sameScope (adopt : Bool) (hk : s.timeline.Keyed)
    (hs : sameScope snapshot s = true) :
    snapshotTimeline snapshot
      (scopedPrevious snapshot adopt (some s)) = historyAndPage s snapshot := by
  by_cases hempty : s.timelineItems = []
  · have hnone (item : TimelineItem) : mergedWithHeld s item = item := by
      have hget : s.timelineById.get? item.id = none := by
        rw [Option.eq_none_iff_forall_ne_some]
        intro x hx
        have hmem : x ∈ s.timelineItems := ((hk.index item.id x).mp hx).1
        simp [hempty] at hmem
      simp [mergedWithHeld, hget]
    have hmerged : mergedSnapshotItems s snapshot = sortTimelineItems snapshot.timeline.items := by
      rw [mergedSnapshotItems, map_congr_left (fun item _ => hnone item), map_id']
    have hheld : heldBefore s (mergedSnapshotItems s snapshot) = [] := by
      unfold heldBefore
      split
      · rfl
      · simp [hempty]
    rw [historyAndPage, if_neg (fun h => h.2 hheld), hmerged]
    simp only [scopedPrevious, hs, if_true]
    exact snapshotTimeline_of_empty hempty
  · exact snapshotTimeline_of_held adopt hs hempty

/-- After a snapshot the canonical timeline is well formed exactly when the snapshot keeps
the order of what the client holds. -/
theorem applySnapshot_wellFormed_iff (h : s.timeline.WellFormed) (adopt : Bool)
    (hd : (itemIds snapshot.timeline.items).Nodup) :
    (applySnapshot snapshot (some s) adopt).timeline.WellFormed ↔
      SnapshotKeepsOrder s snapshot := by
  have htl : (applySnapshot snapshot (some s) adopt).timeline =
      Indexed.ofItems (snapshotTimeline snapshot (scopedPrevious snapshot adopt (some s))) := rfl
  rw [htl, wellFormed_ofItems_iff]
  unfold SnapshotKeepsOrder
  cases hs : sameScope snapshot s with
  | false =>
    rw [snapshotTimeline_of_not_sameScope adopt hs]
    simp only [Bool.false_eq_true, false_implies, iff_true]
    exact ⟨((sortBy_perm itemKey _).map _).nodup_iff.mpr hd, ascending_sortTimelineItems hd⟩
  | true =>
    have hl := labelled_of_keyed h.toKeyed
    have hids := (itemIds_mergedSnapshotItems hl snapshot).nodup_iff.mpr hd
    rw [snapshotTimeline_of_sameScope adopt h.toKeyed hs, historyAndPage,
      heldBefore_mergedSnapshotItems hl]
    simp only [true_implies]
    split_ifs with hmore
    · have hheld : (itemIds (heldInFront s snapshot.timeline.items)).Nodup := by
        unfold heldInFront
        split
        · simp [itemIds]
        · exact h.nodup.sublist (Sublist.map _ filter_sublist)
      have happ : (itemIds (heldInFront s snapshot.timeline.items ++
          mergedSnapshotItems s snapshot)).Nodup ↔
          ∀ x ∈ heldInFront s snapshot.timeline.items,
            ∀ y ∈ snapshot.timeline.items, x.id ≠ y.id := by
        rw [itemIds, map_append, nodup_append]
        constructor
        · rintro ⟨-, -, hne⟩ x hx y hy
          refine hne _ (mem_map_of_mem hx) _ ?_
          exact (itemIds_mergedSnapshotItems hl snapshot).mem_iff.mpr (mem_map_of_mem hy)
        · intro hne
          refine ⟨hheld, hids, ?_⟩
          rintro _ ha _ hb
          obtain ⟨x, hx, rfl⟩ := mem_map.mp ha
          obtain ⟨y, hy, rfl⟩ :=
            mem_map.mp ((itemIds_mergedSnapshotItems hl snapshot).mem_iff.mp hb)
          exact hne x hx y hy
      rw [← happ]
      constructor
      · rintro ⟨hn, -⟩
        exact ((sortBy_perm itemKey _).map _).nodup_iff.mp hn
      · intro hn
        exact ⟨((sortBy_perm itemKey _).map _).nodup_iff.mpr hn, ascending_sortTimelineItems hn⟩
    · rw [← ascending_mergedSnapshotItems_iff hl hd]
      exact ⟨fun hw => hw.2, fun ha => ⟨hids, ha⟩⟩

theorem step_wellFormed_iff (h : s.timeline.WellFormed) (t : Transition)
    (hd : t.DistinctIds) : (step s t).timeline.WellFormed ↔ t.KeepsOrder s := by
  rcases step_timeline s t with hedits | ⟨response, adopt, rfl, -⟩
  · cases t with
    | snapshot response adopt => exact applySnapshot_wellFormed_iff h adopt hd
    | _ => exact iff_of_true (hedits.wellFormed h) trivial
  · exact applySnapshot_wellFormed_iff h adopt hd

/-- In every run from the empty state over payloads with distinct ids, the canonical timeline
is strictly ascending, free of repeated ids and correctly indexed in all states if and
only if every snapshot keeps the order of what the client holds at that point. -/
theorem canonicalTimeline_wellFormed_iff (transitions : List Transition)
    (hdistinct : ∀ t ∈ transitions, t.DistinctIds) :
    (∀ pre, pre <+: transitions → (run emptyChatV2State pre).timeline.WellFormed) ↔
      RunMeets (fun s t => t.KeepsOrder s) emptyChatV2State transitions := by
  exact run_preserves_iff (I := fun s => s.timeline.WellFormed)
    (fun s t ht h => step_wellFormed_iff h t (hdistinct t ht)) wellFormed_empty

theorem canonicalTimeline_wellFormed_refresh :
    let transitions := [Transition.snapshot (pageSnapshot [noticeItem "x" "5"] false) false,
      .snapshot (pageSnapshot [noticeItem "x" "5", noticeItem "y" "6"] false) false]
    (∀ t ∈ transitions, t.DistinctIds) ∧
      ∀ pre, pre <+: transitions → (run emptyChatV2State pre).timeline.WellFormed := by
  intro transitions
  have hdistinct : ∀ t ∈ transitions, t.DistinctIds := by
    simp only [transitions, mem_cons, not_mem_nil, or_false, forall_eq_or_imp, forall_eq,
      Transition.DistinctIds]
    decide
  refine ⟨hdistinct, (canonicalTimeline_wellFormed_iff transitions hdistinct).mpr ⟨?_, ?_, trivial⟩⟩
  · simp only [Transition.KeepsOrder, SnapshotKeepsOrder]
    decide
  · simp only [Transition.KeepsOrder, SnapshotKeepsOrder]
    decide

/-- The client holds `x` at 5; a snapshot lists `y` at 6 and `x` at 7. The merge keeps 5 for `x`
and leaves it behind `y`. -/
theorem canonicalTimeline_misordered :
    ¬ Ascending itemKey (run emptyChatV2State
      [.snapshot (pageSnapshot [noticeItem "x" "5"] false) false,
        .snapshot
          (pageSnapshot [noticeItem "y" "6", noticeItem "x" "7"] false) false]).timelineItems := by
  decide

end Cognis.Client
