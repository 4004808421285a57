import Cognis.Client.Placements

namespace Cognis.Client

open List SortByKey Timeline

def userItemId (clientMessageId : String) : String := "user:" ++ clientMessageId

/-- The client id stands on user messages only, under the id the projector gives them, and
that id stands on no other item. -/
def Attributed (c : String) (x : TimelineItem) : Prop :=
  x.isMessageOf c = true ∨ x.id = userItemId c → x.userClientId = some c ∧ x.id = userItemId c

instance (c : String) (x : TimelineItem) : Decidable (Attributed c x) :=
  inferInstanceAs (Decidable (_ ∨ _ → _ ∧ _))

variable {x y e i : TimelineItem} {c id : String} {byId : OrderedMap String TimelineItem}
  {items : List TimelineItem}

theorem userClientId_eq_some : x.userClientId = some c ↔ ∃ m, x.body = .message m ∧ m.role = .user ∧
      m.clientMessageId.get = some c ∧ c ≠ "" := by
  unfold TimelineItem.userClientId
  split
  next m hm =>
    simp only [hm, ItemBody.message.injEq, exists_eq_left']
    by_cases hr : m.role = .user
    · simp [hr, JsField.truthy_eq_some]
    · simp [hr]
  next h =>
    refine iff_of_false (by simp) ?_
    rintro ⟨m, hm, -⟩
    exact h m hm

theorem isMessageOf_of_user (h : x.userClientId = some c) : x.isMessageOf c := by
  obtain ⟨m, hm, -, hc, -⟩ := userClientId_eq_some.mp h
  simp [TimelineItem.isMessageOf, hm, hc]

theorem Attributed.user_iff (h : Attributed c x) : x.userClientId = some c ↔ x.id = userItemId c :=
  ⟨fun hu => (h (.inl (isMessageOf_of_user hu))).2, fun hid => (h (.inr hid)).1⟩

theorem EditOf.attributed (h : EditOf x y) (hx : Attributed c x) :
    Attributed c y := by
  unfold Attributed at hx ⊢
  rwa [h.message, h.id, h.user]

theorem isMessageOf_mergeTimelineItem (h : (mergeTimelineItem e i).isMessageOf c) :
    e.isMessageOf c ∨ i.isMessageOf c := by
  have hmessage :
    ∃ m, (mergeTimelineItem e i).body = .message m ∧ m.clientMessageId.get = some c := by
    unfold TimelineItem.isMessageOf at h
    split at h
    next m hm => exact ⟨m, hm, of_decide_eq_true h⟩
    next => cases h
  obtain ⟨m, hm, hc⟩ := hmessage
  rcases message_mergeTimelineItem hm with hsame | hsame | ⟨em, im, he, hi, -, -, rfl⟩
  · exact .inl (hsame ▸ h)
  · exact .inr (hsame ▸ h)
  · rcases JsField.get_spread em.clientMessageId im.clientMessageId with hg | hg
    · exact .inr (by simp [TimelineItem.isMessageOf, hi, ← hg, ← hc, mergeMessage])
    · exact .inl (by simp [TimelineItem.isMessageOf, he, ← hg, ← hc, mergeMessage])

/-- Two user messages of one client id: the held one is kept, or the arriving one's turn and
client id stand. -/
theorem mergeTimelineItem_user (he : e.userClientId = some c) (hi : i.userClientId = some c) :
    (mergeTimelineItem e i = e ∧ (isResolvedNotice e ∨ i.status.get = some .pending)) ∨
    ((mergeTimelineItem e i).userClientId = some c ∧
      ((itemTurnIdOf i).isSome → itemTurnIdOf (mergeTimelineItem e i) = itemTurnIdOf i)) := by
  obtain ⟨em, hem, her, _, hc⟩ := userClientId_eq_some.mp he
  obtain ⟨im, him, hir, hic, -⟩ := userClientId_eq_some.mp hi
  have hmerge : mergeTimelineItem e i = mergeMessageItem e i em im (mergedSortKey e i) := by
    simp [mergeTimelineItem, hem, him]
  rw [hmerge, mergeMessageItem, if_neg (by simp [her, hir])]
  split_ifs with hkeep
  · refine .inl ⟨rfl, ?_⟩
    simp only [keepsHeldMessage, her, Bool.or_eq_true, Bool.and_eq_true, decide_eq_true_eq,
      reduceCtorEq, false_and, or_false, true_and] at hkeep
    rcases hkeep with hres | hpend
    · exact .inl (by simp [isResolvedNotice, hem, hres])
    · exact .inr hpend.2
  · refine .inr ⟨?_, fun hturn => ?_⟩
    · have hne : im.clientMessageId ≠ .absent := by
        intro habs
        simp [habs] at hic
      refine userClientId_eq_some.mpr ⟨_, rfl, hir, ?_, hc⟩
      simp only [mergeMessage]
      rw [JsField.spread_of_ne_absent hne]
      exact hic
    · simp only [itemTurnIdOf, TimelineItem.turnIdField, him] at hturn ⊢
      have hne : im.turnId ≠ .absent := by
        intro habs
        simp [habs, JsField.truthy] at hturn
      simp only [spreadBase, mergeMessage]
      rw [JsField.spread_of_ne_absent hne]

theorem Attributed.merge (hid : e.id = i.id) (he : Attributed c e)
    (hi : Attributed c i) : Attributed c (mergeTimelineItem e i) := by
  intro h
  have hiid : i.id = userItemId c := by
    rcases h with h | h
    · rcases isMessageOf_mergeTimelineItem h with h | h
      · exact hid ▸ (he (.inl h)).2
      · exact (hi (.inl h)).2
    · rwa [mergeTimelineItem_id hid] at h
  refine ⟨?_, by rwa [mergeTimelineItem_id hid]⟩
  rcases mergeTimelineItem_user (he.user_iff.mpr (hid.trans hiid)) (hi.user_iff.mpr hiid) with
    ⟨hkept, -⟩ | ⟨huser, -⟩
  · rw [hkept]
    exact he.user_iff.mpr (hid.trans hiid)
  · exact huser

def OverlayOk (c : String) (x : TimelineItem) : Prop :=
  Attributed c x ∧ (x.userClientId = some c → (itemTurnIdOf x).isSome)

def LocalOk (c : String) (x : TimelineItem) : Prop :=
  Attributed c x ∧ (x.userClientId = some c → isResolvedNotice x = true → (itemTurnIdOf x).isSome)

theorem OverlayOk.localOk (h : OverlayOk c x) : LocalOk c x :=
  ⟨h.1, fun hu _ => h.2 hu⟩

theorem EditOf.overlayOk (h : EditOf x y) (hx : OverlayOk c x) :
    OverlayOk c y := by
  refine ⟨h.attributed hx.1, fun hu => ?_⟩
  rw [h.turn]
  exact hx.2 (h.user ▸ hu)

theorem EditOf.localOk (h : EditOf x y) (hx : LocalOk c x) :
    LocalOk c y := by
  refine ⟨h.attributed hx.1, fun hu hr => ?_⟩
  rw [h.turn]
  exact hx.2 (h.user ▸ hu) (h.notice ▸ hr)

theorem turn_merge_overlay (he : LocalOk c e) (hi : OverlayOk c i) (hid : e.id = i.id)
    (hpend : i.status.get ≠ some .pending) (hu : (mergeTimelineItem e i).userClientId = some c) :
    (itemTurnIdOf (mergeTimelineItem e i)).isSome := by
  have hmid := ((he.1.merge hid hi.1).user_iff.mp hu)
  rw [mergeTimelineItem_id hid] at hmid
  have hiu := hi.1.user_iff.mpr hmid
  have heu := he.1.user_iff.mpr (hid.trans hmid)
  rcases mergeTimelineItem_user heu hiu with ⟨hkept, hres | hp⟩ | ⟨-, hturn⟩
  · rw [hkept]
    exact he.2 heu hres
  · exact absurd hp hpend
  · rw [hturn (hi.2 hiu)]
    exact hi.2 hiu

theorem OverlayOk.merge (hid : e.id = i.id) (he : OverlayOk c e)
    (hi : OverlayOk c i) : OverlayOk c (mergeTimelineItem e i) := by
  refine ⟨he.1.merge hid hi.1, fun hu => ?_⟩
  have hmid := ((he.1.merge hid hi.1).user_iff.mp hu)
  rw [mergeTimelineItem_id hid] at hmid
  have hiu := hi.1.user_iff.mpr hmid
  have heu := he.1.user_iff.mpr (hid.trans hmid)
  rcases mergeTimelineItem_user heu hiu with ⟨hkept, -⟩ | ⟨-, hturn⟩
  · rw [hkept]
    exact he.2 heu
  · rw [hturn (hi.2 hiu)]
    exact hi.2 hiu

theorem mem_ids_values (h : Labelled byId) :
    (∃ x ∈ byId.values, x.id = id) ↔ (byId.get? id).isSome := by
  constructor
  · rintro ⟨x, hx, rfl⟩
    obtain ⟨k, hk⟩ := OrderedMap.mem_values.mp hx
    rw [h k x hk, hk]
    rfl
  · intro hs
    obtain ⟨x, hx⟩ := Option.isSome_iff_exists.mp hs
    exact ⟨x, OrderedMap.mem_values.mpr ⟨id, hx⟩, h id x hx⟩

theorem isSome_get?_buildTimelineById
    (h : ∃ x ∈ items, x.id = id) : ((buildTimelineById items).get? id).isSome := by
  obtain ⟨x, hx, hid⟩ := h
  refine OrderedMap.isSome_get?_ofList ?_
  rw [map_map]
  exact mem_map.mpr ⟨x, hx, hid⟩

theorem isSome_get?_mergeIntoById
    (h : (byId.get? id).isSome) : ((mergeIntoById byId items).get? id).isSome := by
  induction items generalizing byId with
  | nil => exact h
  | cons item _ ih =>
    refine ih ?_
    rw [OrderedMap.get?_set]
    split_ifs
    · rfl
    · exact h

theorem exists_id_sort (h : ∃ x ∈ items, x.id = id) : ∃ x ∈ sortTimelineItems items, x.id = id := by
  obtain ⟨x, hx, hid⟩ := h
  exact ⟨x, mem_sortTimelineItems.mpr hx, hid⟩

variable {l out : List TimelineItem}

theorem carryPriorRuntimeItems_keeps {current : Option RuntimeOverlaySnapshot}
    {incoming : RuntimeOverlaySnapshot} (h : carryPriorRuntimeItems l current incoming = some out)
    (hx : ∃ x ∈ l, x.id = id) : ∃ x ∈ out, x.id = id := by
  unfold carryPriorRuntimeItems at h
  split at h
  · cases h
  next cur =>
    by_cases hskip : (!replacesCurrentTurn cur incoming && !cur.volatileItems.any (fun item =>
        isCompaction item && !(itemIds incoming.volatileItems).contains item.id))
    · rw [if_pos hskip] at h
      cases h
    rw [if_neg hskip] at h
    cases h
    refine exists_id_sort ((mem_ids_values (labelled_buildTimelineById _)).mpr
      (isSome_get?_buildTimelineById ?_))
    obtain ⟨x, hx, hid⟩ := hx
    refine ⟨_, mem_append_left _ (mem_map_of_mem hx), ?_⟩
    split_ifs <;> exact hid

theorem carrySettledRuntimeItems_keeps {current incoming : Option RuntimeOverlaySnapshot}
    (h : carrySettledRuntimeItems l current incoming = some out)
    (hx : ∃ x ∈ l, x.id = id) : ∃ x ∈ out, x.id = id := by
  unfold carrySettledRuntimeItems at h
  split at h
  · cases h
  next inc =>
    dsimp only at h
    have hcarry : ∃ x ∈ (carryPriorRuntimeItems l current inc).getD l, x.id = id := by
      cases hc : carryPriorRuntimeItems l current inc with
      | none => exact hx
      | some => exact carryPriorRuntimeItems_keeps hc hx
    cases ha : admitRuntimeUserItems ((carryPriorRuntimeItems l current inc).getD l) inc with
    | none =>
      rw [ha, Option.none_or] at h
      rwa [h] at hcarry
    | some =>
      rw [ha, Option.some_or] at h
      cases h
      unfold admitRuntimeUserItems at ha
      dsimp only at ha
      split_ifs at ha
      cases ha
      exact exists_id_sort
        ((mem_ids_values (labelled_mergeIntoById (labelled_buildTimelineById _) _)).mpr
        (isSome_get?_mergeIntoById (isSome_get?_buildTimelineById hcarry)))

theorem mergeIntoById_admits (hl : Labelled byId)
    (hbyId : ∀ id x, byId.get? id = some x → LocalOk c x)
    (hitems : ∀ i ∈ items, OverlayOk c i ∧ i.status.get ≠ some .pending)
    (h : (∃ y, byId.get? (userItemId c) = some y ∧ (itemTurnIdOf y).isSome) ∨
      ∃ i ∈ items, i.userClientId = some c) :
    ∃ y, (mergeIntoById byId items).get? (userItemId c) = some y ∧ (itemTurnIdOf y).isSome := by
  unfold mergeIntoById
  induction items generalizing byId with
  | nil => simpa using h
  | cons item items ih =>
    obtain ⟨hitem, hpend⟩ := hitems item mem_cons_self
    refine ih (labelled_setMerged hl item) (fun id x hx => ?_)
      (fun i hi => hitems i (mem_cons_of_mem _ hi)) ?_
    · rw [OrderedMap.get?_set] at hx
      split_ifs at hx
      · cases hx
        split
        next e he =>
          have heok := hbyId _ e he
          have hid := hl _ _ he
          exact ⟨heok.1.merge hid hitem.1, fun hu _ => turn_merge_overlay heok hitem hid hpend hu⟩
        next => exact hitem.localOk
      · exact hbyId id x hx
    · by_cases hid : userItemId c = item.id
      · refine .inl ⟨_, by rw [OrderedMap.get?_set, if_pos hid], ?_⟩
        have hiu := hitem.1.user_iff.mpr hid.symm
        split
        next e he =>
          have heok := hbyId _ e he
          have heid := hl _ _ he
          refine turn_merge_overlay heok hitem heid hpend ?_
          refine (heok.1.merge heid hitem.1).user_iff.mpr ?_
          rw [mergeTimelineItem_id heid, hid]
        next => exact hitem.2 hiu
      · rcases h with ⟨y, hy, hturn⟩ | ⟨i, hi, hu⟩
        · exact .inl ⟨y, by rw [OrderedMap.get?_set, if_neg hid]; exact hy, hturn⟩
        · rcases mem_cons.mp hi with rfl | hi
          · exact absurd (hitem.1.user_iff.mp hu).symm hid
          · exact .inr ⟨i, hi, hu⟩

end Cognis.Client
