import Cognis.Client.Coverage

namespace Cognis.Client

open List SortByKey Timeline

def mergedWith (arriving : List TimelineItem) (item : TimelineItem) : TimelineItem :=
  (arriving.filter (fun i => i.id = item.id)).foldl mergeTimelineItem item

def admittedItems (items : List TimelineItem) : List TimelineItem :=
  (items.filter (fun item => item.userClientId.isSome)).map
    (fun item => { item with status := .value .complete })

/-- What a transition can make of an overlay item: it stays, is merged with the arriving
overlay, or moves to the local items with its turn settled. -/
def Transition.versions (t : Transition) (item : TimelineItem) : List TimelineItem :=
  [item, mergedWith (overlayItems t.arrivingRuntime) item,
    mergedWith (admittedItems (overlayItems t.arrivingRuntime))
      (TimelineItem.rekeyed (terminalizeSettledItem item))]

@[simp] theorem closePriorPhase_id (item : TimelineItem) : (closePriorPhase item).id = item.id := by
  unfold closePriorPhase
  repeat' split
  all_goals rfl

theorem closePriorPhase_phaseField (item : TimelineItem) :
    (closePriorPhase item).phaseField = item.phaseField := by
  unfold closePriorPhase
  repeat' split
  all_goals simp_all [TimelineItem.phaseField]

theorem spread_nonneg {e i : JsField Int} (he : 0 ≤ e.get.getD 0) (hi : 0 ≤ i.get.getD 0) :
    0 ≤ (e.spread i).get.getD 0 := by
  cases i <;> simp_all [JsField.spread]

theorem coalesce_nonneg {e i : JsField Int} (he : 0 ≤ e.get.getD 0) (hi : 0 ≤ i.get.getD 0) :
    0 ≤ (i.coalesce e).get.getD 0 := by
  cases i <;> cases e <;> simp_all [JsField.coalesce, JsField.get, JsField.ofOption]

theorem phaseOk_mergeTimelineItem {e i : TimelineItem} (he : PhaseOk e) (hi : PhaseOk i) :
    PhaseOk (mergeTimelineItem e i) := by
  unfold mergeTimelineItem
  split
  next _ _ => simp [PhaseOk, TimelineItem.phaseField, mergeHandoff, spreadBase, JsField.get]
  next _ _ =>
    unfold mergeCompaction
    split_ifs
    · exact he
    · simp [PhaseOk, TimelineItem.phaseField, spreadBase, JsField.get]
  next he' hi' =>
    simp only [PhaseOk, TimelineItem.phaseField, he', hi'] at he hi
    exact coalesce_nonneg he hi
  next he' hi' =>
    simp only [PhaseOk, TimelineItem.phaseField, he', hi'] at he hi
    exact spread_nonneg he hi
  next he' hi' =>
    unfold mergeMessageItem
    split_ifs
    · exact hi
    · exact he
    · simp only [PhaseOk, TimelineItem.phaseField, he', hi'] at he hi
      exact spread_nonneg he hi
  next he' hi' =>
    unfold mergeOther
    split_ifs
    · simp only [PhaseOk, TimelineItem.phaseField, he', hi'] at he hi
      exact spread_nonneg he hi
    · exact hi
  next => exact hi

theorem foldl_mergeTimelineItem {P : TimelineItem → Prop} {arriving : List TimelineItem}
    {item : TimelineItem} (hid : ∀ i ∈ arriving, i.id = item.id) (h : P item)
    (hmerge : ∀ e, ∀ i ∈ arriving, P e → P (mergeTimelineItem e i)) :
    (arriving.foldl mergeTimelineItem item).id = item.id ∧
      P (arriving.foldl mergeTimelineItem item) := by
  induction arriving generalizing item with
  | nil => exact ⟨rfl, h⟩
  | cons i arriving ih =>
    have hi := hid i mem_cons_self
    have hmerged :
      (mergeTimelineItem item i).id = item.id := (mergeTimelineItem_id hi.symm).trans hi
    obtain ⟨hrest, hP⟩ := ih (fun j hj => (hid j (mem_cons_of_mem _ hj)).trans hmerged.symm)
      (hmerge item i mem_cons_self h) (fun e j hj => hmerge e j (mem_cons_of_mem _ hj))
    exact ⟨hrest.trans hmerged, hP⟩

theorem mergedWith_spec (arriving : List TimelineItem) (item : TimelineItem) :
    (mergedWith arriving item).id = item.id ∧
      ((∀ i ∈ arriving, PhaseOk i) → PhaseOk item → PhaseOk (mergedWith arriving item)) := by
  have hid : ∀ i ∈ arriving.filter (fun i => i.id = item.id), i.id = item.id := fun i hi => by
    simpa using (mem_filter.mp hi).2
  refine ⟨(foldl_mergeTimelineItem (P := fun _ => True) hid trivial (fun _ _ _ _ => trivial)).1,
    fun harriving hitem => ?_⟩
  exact (foldl_mergeTimelineItem hid hitem (fun e i hi he =>
    phaseOk_mergeTimelineItem he (harriving i (mem_filter.mp hi).1))).2

theorem mergeIntoById_get? (items : List TimelineItem) {byId : OrderedMap String TimelineItem}
    {y : TimelineItem} (hy : byId.get? y.id = some y) :
    (mergeIntoById byId items).get? y.id = some (mergedWith items y) := by
  unfold mergeIntoById mergedWith
  induction items generalizing byId y with
  | nil => exact hy
  | cons item items ih =>
    by_cases hitem : item.id = y.id
    · have hmerged :
        (mergeTimelineItem y item).id = y.id := (mergeTimelineItem_id hitem.symm).trans hitem
      rw [filter_cons_of_pos (by simpa using hitem), foldl_cons, foldl_cons, ← hmerged]
      refine ih ?_
      rw [OrderedMap.get?_set, if_pos (hmerged.trans hitem.symm), hitem, hy]
    · rw [filter_cons_of_neg (by simpa using hitem), foldl_cons]
      refine ih ?_
      rw [OrderedMap.get?_set, if_neg (fun h => hitem h.symm), hy]

theorem covered_closePriorPhase (s : ChatV2ClientState) (item : TimelineItem) :
    covered s (closePriorPhase item) = covered s item := by
  unfold closePriorPhase
  split
  next m hm =>
    split_ifs with hc
    · simp [covered, coveredByIdentity, coveredOtherwise, assistantReached, thinkingContained,
        userEchoed, overtaken, sameText, assistantContentKey, isConfirmedLegacyAdmission,
        TimelineItem.userClientId, progressOf, hm, hc.1]
    · rfl
  next t ht =>
    split_ifs with hc
    · simp [covered, coveredByIdentity, coveredOtherwise, assistantReached, thinkingContained,
        userEchoed, overtaken, sameText, assistantContentKey, isConfirmedLegacyAdmission,
        TimelineItem.userClientId, progressOf, ht, completeBlock, Function.comp_def]
      rfl
    · rfl
  next => rfl

theorem mergeVolatileItems_keeps {current : List TimelineItem} (incoming : List TimelineItem)
    {id : String} (h : ∃ x ∈ current, x.id = id) : ∃ r ∈ current, r.id = id ∧
      (mergedWith incoming r ∈ mergeVolatileItems current incoming ∨
        closePriorPhase (mergedWith incoming r) ∈ mergeVolatileItems current incoming) := by
  obtain ⟨r, hr⟩ := Option.isSome_iff_exists.mp (isSome_get?_buildTimelineById h)
  obtain ⟨hmem, rfl⟩ := mem_of_get?_buildTimelineById hr
  have hvalues := OrderedMap.mem_values.mpr ⟨_, mergeIntoById_get? incoming hr⟩
  refine ⟨r, hmem, rfl, ?_⟩
  unfold mergeVolatileItems
  simp only [mem_sortTimelineItems]
  split_ifs with hclose
  · have hmap := mem_map_of_mem (f := fun item =>
      if (incoming.map (·.id)).contains item.id then item else closePriorPhase item) hvalues
    split_ifs at hmap
    · exact .inl hmap
    · exact .inr hmap
  · exact .inl hvalues

theorem admitRuntimeUserItems_keeps {l : List TimelineItem} (incoming : RuntimeOverlaySnapshot)
    {y : TimelineItem} (hy : y ∈ l) (hnodup : (itemIds l).Nodup) :
    mergedWith (admittedItems incoming.volatileItems) y ∈
      (admitRuntimeUserItems l incoming).getD l := by
  unfold admitRuntimeUserItems
  dsimp only
  split_ifs with hnone
  · rw [List.isEmpty_iff] at hnone
    rw [admittedItems, hnone]
    exact hy
  · obtain ⟨w, hw⟩ := Option.isSome_iff_exists.mp (isSome_get?_buildTimelineById ⟨y, hy, rfl⟩)
    obtain ⟨hwl, hid⟩ := mem_of_get?_buildTimelineById hw
    obtain rfl : w = y := inj_on_of_nodup_map hnodup hwl hy hid
    exact mem_sortTimelineItems.mpr (OrderedMap.mem_values.mpr ⟨_, mergeIntoById_get? _ hw⟩)

theorem get?_buildTimelineById_append (l₁ : List TimelineItem) {l₂ : List TimelineItem}
    {id : String}
    (h : ∃ x ∈ l₂, x.id = id) :
    ∃ y ∈ l₂, y.id = id ∧ (buildTimelineById (l₁ ++ l₂)).get? id = some y := by
  obtain ⟨x, hx, hid⟩ := h
  obtain ⟨y, hy⟩ := Option.isSome_iff_exists.mp
    (isSome_get?_buildTimelineById ⟨x, mem_append_right l₁ hx, hid⟩)
  have hsplit := hy
  rw [buildTimelineById, map_append] at hsplit
  have hkey : id ∈ (l₂.map (fun item => (item.id, item))).map Prod.fst := by
    rw [map_map]
    exact mem_map.mpr ⟨x, hx, hid⟩
  obtain ⟨z, hz, heq⟩ := mem_map.mp (OrderedMap.mem_right_of_get?_ofList hsplit hkey)
  obtain ⟨rfl, rfl⟩ := Prod.mk.inj heq
  exact ⟨z, hz, rfl, hy⟩

variable {cur incoming r : RuntimeOverlaySnapshot} {x : TimelineItem} {s : ChatV2ClientState}

section

variable (l : List TimelineItem) (hreplaces : replacesCurrentTurn cur incoming)
  (hx : x ∈ cur.volatileItems) (hnotice : isTransientRuntimeNotice x = false)

include l hreplaces hx hnotice

variable (hpatch : isIncompleteApplyPatchPreparation x = false)
include hpatch

theorem carryPriorRuntimeItems_carries :
    ∃ out, carryPriorRuntimeItems l (some cur) incoming = some out ∧ (itemIds out).Nodup ∧
      ∃ r ∈ cur.volatileItems, r.id = x.id ∧
        TimelineItem.rekeyed (terminalizeSettledItem r) ∈ out := by
  have hid (y : TimelineItem) : (TimelineItem.rekeyed (terminalizeSettledItem y)).id = y.id :=
    terminalizeSettledItem_id y
  unfold carryPriorRuntimeItems
  simp only [hreplaces, Bool.not_true, Bool.false_and, Bool.false_eq_true, if_false]
  refine ⟨_, rfl, nodup_itemIds_sort (nodup_values_of_labelled (labelled_buildTimelineById _)), ?_⟩
  have hcarries :
    x ∈ cur.volatileItems.filter (carriesRuntimeItem true (itemIds incoming.volatileItems)) :=
    mem_filter.mpr ⟨hx, by simp [carriesRuntimeItem, hnotice, hpatch]⟩
  have hsettled :=
    mem_map_of_mem (f := fun item => TimelineItem.rekeyed (terminalizeSettledItem item))
    hcarries
  obtain ⟨y, hy, hyid, hget⟩ := get?_buildTimelineById_append _ ⟨_, hsettled, hid x⟩
  obtain ⟨r, hr, rfl⟩ := mem_map.mp hy
  exact ⟨r, (mem_filter.mp hr).1, (hid r).symm.trans hyid,
    mem_sortTimelineItems.mpr (OrderedMap.mem_values.mpr ⟨_, hget⟩)⟩

theorem carrySettledRuntimeItems_carries :
    ∃ out, carrySettledRuntimeItems l (some cur) (some incoming) = some out ∧
      ∃ r ∈ cur.volatileItems, r.id = x.id ∧ mergedWith (admittedItems incoming.volatileItems)
        (TimelineItem.rekeyed (terminalizeSettledItem r)) ∈ out := by
  obtain ⟨carried, hcarried, hnodup, r, hr, hid, hmem⟩ :=
    carryPriorRuntimeItems_carries l hreplaces hx hnotice hpatch
  refine ⟨(admitRuntimeUserItems carried incoming).getD carried, ?_, r, hr, hid,
    admitRuntimeUserItems_keeps incoming hmem hnodup⟩
  simp only [carrySettledRuntimeItems, hcarried, Option.getD_some]
  cases admitRuntimeUserItems carried incoming <;> rfl

end

/-- Acceptance and carrying agree on whether the overlay goes on with the held turn: it is
carried as replaced, or both overlays name one active turn under one kind of authority, with
the same epoch where there is none. -/
def turnsAgree (current incoming : RuntimeOverlaySnapshot) : Bool :=
  replacesCurrentTurn current incoming || (incoming.activeTurnId = current.activeTurnId
    && (runtimeAuthorityV1 current).isSome = (runtimeAuthorityV1 incoming).isSome
    && ((runtimeAuthorityV1 incoming).isSome || incoming.runtimeEpoch = current.runtimeEpoch))

theorem runtimeAuthorityV1_eq_some {runtime : RuntimeOverlaySnapshot} {a : RuntimeAuthority}
    (h : runtimeAuthorityV1 runtime = some a) : runtime.authority = some a := by
  unfold runtimeAuthorityV1 at h
  split at h
  next b hb =>
    split_ifs at h
    cases h
    exact hb
  next => cases h

@[simp] theorem replacesCurrentTurn_dropTransientNotices (cur inc : RuntimeOverlaySnapshot) :
    replacesCurrentTurn cur (dropTransientNotices inc) = replacesCurrentTurn cur inc := by
  unfold dropTransientNotices
  split_ifs <;> rfl

theorem applySameGeneration_merges {c i : RuntimeAuthority} (hcur : cur.hasActiveTurn)
    (hactive : incoming.hasActiveTurn) (hcomplete : incoming.volatileItemsComplete = false)
    (h : applySameGeneration cur incoming c i = .accept r) :
      r = mergeRuntimeOverlay cur incoming := by
  have hsame (h : applySameRevision cur incoming = .accept r) :
    r = mergeRuntimeOverlay cur incoming := by
    unfold applySameRevision at h
    split_ifs at h <;> cases h
    · simp_all
    · rfl
  unfold applySameGeneration at h
  rw [hcur, hactive, hcomplete] at h
  simp only [Bool.not_true, Bool.and_false, Bool.false_and, Bool.false_eq_true, if_false] at h
  split_ifs at h
  split at h
  · split_ifs at h
    · cases h
      rfl
    · exact hsame h
  · exact hsame h

variable {inc : RuntimeOverlaySnapshot}

theorem decideRuntime_continues (hcur : cur.hasActiveTurn)
    (hcomplete : inc.volatileItemsComplete = false) (hagree : turnsAgree cur inc)
    (hreplaces : replacesCurrentTurn cur inc = false)
    (h : decideRuntime (some cur) (some inc) = .accept r) :
    inc.hasActiveTurn ∧ inc.activeTurnId = cur.activeTurnId ∧ r = mergeRuntimeOverlay cur inc := by
  have hactive : inc.hasActiveTurn := by
    unfold replacesCurrentTurn at hreplaces
    rw [hcur, Bool.true_and] at hreplaces
    simpa using (Bool.or_eq_false_iff.mp hreplaces).1
  simp only [turnsAgree, hreplaces, Bool.false_or, Bool.and_eq_true, Bool.or_eq_true,
    decide_eq_true_eq] at hagree
  obtain ⟨⟨hturn, hkind⟩, hepoch⟩ := hagree
  refine ⟨hactive, hturn, ?_⟩
  unfold decideRuntime at h
  dsimp only at h
  rw [show dropTransientNotices inc = inc by simp [dropTransientNotices, hactive]] at h
  cases hi : runtimeAuthorityV1 inc with
  | none =>
    rw [hi, Option.isSome_none, Option.isSome_eq_false_iff, Option.isNone_iff_eq_none] at hkind
    rw [hi, Option.bind_some, hkind] at h
    have hepoch' : inc.runtimeEpoch = cur.runtimeEpoch := by simpa [hi] using hepoch
    simp only [Option.isSome_none, Bool.or_self, Bool.false_eq_true, if_false, applyLegacyRuntime,
      hepoch', ne_eq, not_true_eq_false, hactive, Bool.not_true, hturn, RuntimeDecision.of] at h
    split_ifs at h
    cases h
    rfl
  | some i =>
    rw [hi, Option.isSome_some, Option.isSome_iff_exists] at hkind
    obtain ⟨c, hc⟩ := hkind
    unfold replacesCurrentTurn at hreplaces
    simp only [hcur, hactive, runtimeAuthorityV1_eq_some hi, runtimeAuthorityV1_eq_some hc,
      Bool.not_true, Bool.false_or, Bool.true_and, Bool.or_eq_false_iff, decide_eq_false_iff_not,
      ne_eq, not_not] at hreplaces
    obtain ⟨⟨hfencing, hrequest⟩, hturnId⟩ := hreplaces
    simp only [hi, Option.isSome_some, Bool.true_or, if_true, applyAuthoritativeRuntime, hc,
      hfencing,
      hrequest, hturnId, ne_eq, not_true_eq_false, or_self, if_false] at h
    exact applySameGeneration_merges hcur hactive hcomplete h

theorem decideRuntime_replaces_or_merges (hcur : cur.hasActiveTurn)
    (hcomplete : inc.volatileItemsComplete = false) (hagree : turnsAgree cur inc)
    (h : decideRuntime (some cur) (some inc) = .accept r) :
    (r = dropTransientNotices inc ∧ replacesCurrentTurn cur r) ∨ (r.hasActiveTurn ∧
        r.volatileItems = mergeVolatileItems cur.volatileItems inc.volatileItems) := by
  cases hreplaces : replacesCurrentTurn cur inc with
  | true =>
    obtain ⟨inc', hinc', hfrom⟩ := decideRuntime_accept h
    cases hinc'
    rcases hfrom with rfl | ⟨cur', hcur', rfl⟩
    · exact .inl ⟨rfl, by simpa using hreplaces⟩
    · cases hcur'
      unfold mergeRuntimeOverlay
      split_ifs with hidle hturn
      · exact .inl ⟨rfl, by simpa using hreplaces⟩
      · exact .inl ⟨rfl, by simpa using hreplaces⟩
      · simp only [hcur, Bool.not_true, Bool.or_false, Bool.not_eq_true', Bool.not_eq_false]
          at hidle
        have hactive : inc.hasActiveTurn := by
          unfold dropTransientNotices at hidle
          split_ifs at hidle <;> assumption
        exact .inr ⟨hidle, by simp [dropTransientNotices, hactive]⟩
  | false =>
    obtain ⟨hactive, hturn, rfl⟩ := decideRuntime_continues hcur hcomplete hagree hreplaces h
    refine .inr ?_
    unfold mergeRuntimeOverlay
    rw [if_neg (by simp [hactive, hcur]), if_neg (by simp [hturn])]
    exact ⟨hactive, rfl⟩

def Transition.isLive : Transition → Bool
  | .sync _ _ | .cancel _ | .queueMutation _ => true
  | _ => false

theorem step_live (s : ChatV2ClientState) {t : Transition} (ht : t.isLive) :
    (step s t).runtime = s.runtime ∨ ∃ inc r l, t.arrivingRuntime = some inc ∧
      decideRuntime s.runtime (some inc) = .accept r ∧ (step s t).runtime = some r ∧
      (step s t).localItems = match carrySettledRuntimeItems l s.runtime (some r) with
        | none => l
        | some carried => reconcileLocalItems carried (step s t).timelineItems := by
  have htakes (mid : ChatV2ClientState) (incoming : Option RuntimeOverlaySnapshot)
      (hmid : mid.runtime = s.runtime) :
      maybeApplyRuntime mid.runtime incoming = s.runtime ∨ ∃ inc r, incoming = some inc ∧
        decideRuntime s.runtime (some inc) = .accept r ∧
          maybeApplyRuntime mid.runtime incoming = some r := by
    rw [hmid, maybeApplyRuntime]
    cases hd : decideRuntime s.runtime incoming with
    | keep => exact .inl rfl
    | accept r =>
      obtain ⟨inc, rfl, -⟩ := decideRuntime_accept hd
      exact .inr ⟨inc, r, rfl, hd, rfl⟩
  cases t with
  | sync payload now =>
    change (applyScopedSync s payload now).state.runtime = _ ∨ _
    have hreceipts := applyBoundaryReceipts_runtime s payload.receipts now
    rcases applyScopedSync_cases s payload now with ⟨-, _, _, hst⟩ | ⟨-, received, rfl, hst⟩
    · exact .inl (by rw [hst]; rfl)
    · rcases hst with ⟨_, _, hst, -⟩ | ⟨-, hst⟩ | ⟨-, -, r, hr, hst⟩ | ⟨-, -, hst⟩
      · exact .inl (by rw [hst]; exact hreceipts)
      · exact .inl (by rw [hst]; exact hreceipts)
      · obtain ⟨inc, hinc, -⟩ := decideRuntime_accept hr
        rw [hreceipts, hinc] at hr
        refine .inr
          ⟨inc, r, (applyBoundaryReceipts s payload.receipts now).localItems, hinc, hr, ?_, ?_⟩
        · rw [step, hst]
          rfl
        · rw [step, hst, ← hreceipts]
          rfl
      · rcases htakes (applyOps (applyBoundaryReceipts s payload.receipts now) payload.ops)
          payload.runtime hreceipts with hkeep | ⟨inc, r, hinc, hr, htake⟩
        · exact .inl (by rw [hst]; exact hkeep)
        · refine .inr ⟨inc, r, (applyOps (applyBoundaryReceipts s payload.receipts now)
            payload.ops).localItems, hinc, hr, ?_, ?_⟩
          · rw [step, hst]
            exact htake
          · rw [step, hst, ← hreceipts, ← htake]
            rfl
  | cancel response =>
    simp only [step, applyCancelResponse]
    split_ifs
    · exact .inl rfl
    · rcases htakes s response.runtime rfl with hkeep | ⟨inc, r, hinc, hr, htake⟩
      · exact .inl hkeep
      · refine .inr ⟨inc, r, s.localItems, hinc, hr, htake, ?_⟩
        rw [← htake]
        rfl
  | queueMutation response =>
    simp only [step, applyQueueMutationResponse]
    split_ifs
    · exact .inl rfl
    · rcases htakes s response.runtime rfl with hkeep | ⟨inc, r, hinc, hr, htake⟩
      · exact .inl hkeep
      · refine .inr ⟨inc, r, s.localItems, hinc, hr, htake, ?_⟩
        rw [← htake]
        rfl
  | _ => cases ht

theorem covered_acknowledge (s : ChatV2ClientState) (confirmed : List String)
    (item : TimelineItem) :
    covered s (acknowledge confirmed item) = covered s item := by
  unfold acknowledge
  split
  · split_ifs <;> rfl
  · rfl

theorem admittedItems_dropTransientNotices (inc : RuntimeOverlaySnapshot) :
    admittedItems (dropTransientNotices inc).volatileItems = admittedItems inc.volatileItems := by
  unfold dropTransientNotices
  split_ifs
  · rfl
  · simp only [admittedItems, filter_filter]
    congr 2
    funext x
    -- A transient notice is a system message, never an admission.
    unfold isTransientRuntimeNotice TimelineItem.userClientId
    split
    next m _ =>
      by_cases hrole : m.role = .user
      · simp [hrole]
      · simp [hrole]
    next => simp

theorem overlay_shown_or_covered (hp : PhaseOk x)
    (h : x ∈ activeVolatileItems s) : x.id ∈ itemIds (visibleTimelineItems s) ∨ covered s x := by
  cases hshow : showsRuntimeItem s.timelineItems x with
  | true => exact .inl (visible_of_overlay h hshow)
  | false => exact .inr (covered_of_not_shown hp hshow)

theorem local_shown_or_covered {carried : List TimelineItem}
    (hlocal : s.localItems = reconcileLocalItems carried s.timelineItems)
    (h : x ∈ carried) : x.id ∈ itemIds (visibleTimelineItems s) ∨ covered s x := by
  cases hretain : retainsLocalItem s.timelineItems x with
  | false => exact covered_of_evicted hretain
  | true =>
    have hmem : acknowledge (canonicalUserClientMessageIds s.timelineItems) x ∈ s.localItems := by
      rw [hlocal]
      exact mem_reconcileLocalItems.mpr ⟨x, h, hretain, rfl⟩
    cases hshow : showLocal s (acknowledge (canonicalUserClientMessageIds s.timelineItems) x) with
    | none => exact .inr (covered_acknowledge s _ x ▸ covered_of_not_showLocal hshow)
    | some y => exact .inl (acknowledge_id _ x ▸ visible_of_local hmem (by simp [hshow]))

theorem step_keeps_streamed {t : Transition} (hlive : t.isLive)
    (hheld : ∀ x ∈ s.volatileItems, PhaseOk x)
      (harriving : ∀ x ∈ overlayItems t.arrivingRuntime, PhaseOk x)
    (hcomplete : ∀ inc, t.arrivingRuntime = some inc → inc.volatileItemsComplete = false)
    (hagree : ∀ cur inc r, s.runtime = some cur → t.arrivingRuntime = some inc →
      decideRuntime (some cur) (some inc) = .accept r → turnsAgree cur inc)
    (hx : x ∈ activeVolatileItems s) (hnotice : isTransientRuntimeNotice x = false)
    (hpatch : isIncompleteApplyPatchPreparation x = false) :
    x.id ∈ itemIds (visibleTimelineItems (step s t)) ∨ ∃ r ∈ s.volatileItems, r.id = x.id ∧
      ∃ y ∈ t.versions r, covered (step s t) y := by
  obtain ⟨cur, hcur, hactive, hxcur⟩ : ∃ cur, s.runtime = some cur ∧ cur.hasActiveTurn ∧
      x ∈ cur.volatileItems := by
    unfold activeVolatileItems at hx
    split at hx
    next cur hcur =>
      split_ifs at hx with hactive
      · exact ⟨cur, hcur, hactive, hx⟩
      · cases hx
    next => cases hx
  have hmem (y : TimelineItem) (hy : y ∈ cur.volatileItems) : y ∈ s.volatileItems :=
    mem_volatileItems.mpr ⟨cur, hcur, hy⟩
  rcases step_live s hlive with hsame | ⟨inc, next, l, hinc, hdecide, hnext, hlocal⟩
  · have hx' : x ∈ activeVolatileItems (step s t) := by
      rw [activeVolatileItems, hsame]
      exact hx
    rcases overlay_shown_or_covered (hheld x (hmem x hxcur)) hx' with hshown | hcovered
    · exact .inl hshown
    · exact .inr ⟨x, hmem x hxcur, rfl, x, mem_cons_self, hcovered⟩
  · rw [hcur] at hdecide hlocal
    have hitems : overlayItems t.arrivingRuntime = inc.volatileItems := by rw [hinc]; rfl
    rcases decideRuntime_replaces_or_merges hactive (hcomplete inc hinc)
      (hagree cur inc next hcur hinc hdecide) hdecide with ⟨hdrop, hreplaces⟩ |
        ⟨hnextActive, hmerged⟩
    · obtain ⟨out, hout, r, hr, hid, hcarried⟩ :=
        carrySettledRuntimeItems_carries l hreplaces hxcur hnotice hpatch
      rw [hout] at hlocal
      rw [hdrop, admittedItems_dropTransientNotices, ← hitems] at hcarried
      have hyid := (mergedWith_spec (admittedItems (overlayItems t.arrivingRuntime))
        (TimelineItem.rekeyed (terminalizeSettledItem r))).1.trans
          ((terminalizeSettledItem_id r : _).trans hid)
      rcases local_shown_or_covered hlocal hcarried with hshown | hcovered
      · exact .inl (hyid ▸ hshown)
      · exact .inr ⟨r, hmem r hr, hid, _, by simp [Transition.versions], hcovered⟩
    · obtain ⟨r, hr, hid, hkept⟩ := mergeVolatileItems_keeps inc.volatileItems ⟨x, hxcur, rfl⟩
      rw [← hitems] at hkept hmerged
      have hspec := mergedWith_spec (overlayItems t.arrivingRuntime) r
      have hphase := hspec.2 harriving (hheld r (hmem r hr))
      have hactiveItems : activeVolatileItems (step s t) = mergeVolatileItems cur.volatileItems
          (overlayItems t.arrivingRuntime) := by
        rw [activeVolatileItems, hnext, ← hmerged]
        simp [hnextActive]
      have hversion : mergedWith (overlayItems t.arrivingRuntime) r ∈ t.versions r := by
        simp [Transition.versions]
      rcases hkept with hkept | hkept <;> rw [← hactiveItems] at hkept
      · rcases overlay_shown_or_covered hphase hkept with hshown | hcovered
        · exact .inl (hspec.1.trans hid ▸ hshown)
        · exact .inr ⟨r, hmem r hr, hid, _, hversion, hcovered⟩
      · rcases overlay_shown_or_covered (by rwa [PhaseOk, closePriorPhase_phaseField]) hkept with
          hshown | hcovered
        · rw [closePriorPhase_id, hspec.1, hid] at hshown
          exact .inl hshown
        · rw [covered_closePriorPhase] at hcovered
          exact .inr ⟨r, hmem r hr, hid, _, hversion, hcovered⟩

/-- In every state of a run, a live transition whose overlay is not marked complete loses
nothing that the active overlay streams: each item stays visible under its id, unless the next
timeline covers the item as held, merged or carried. -/
theorem streamed_kept_or_covered (ts : List Transition) (t : Transition) (hlive : t.isLive)
    (hphases : ∀ t' ∈ ts ++ [t], ∀ x ∈ overlayItems t'.arrivingRuntime, PhaseOk x)
    (hcomplete : ∀ inc, t.arrivingRuntime = some inc → inc.volatileItemsComplete = false)
    (hagree : ∀ cur inc r, (run emptyChatV2State ts).runtime = some cur →
      t.arrivingRuntime = some inc →
      decideRuntime (some cur) (some inc) = .accept r → turnsAgree cur inc) :
    ∀ x ∈ activeVolatileItems (run emptyChatV2State ts), isTransientRuntimeNotice x = false →
      isIncompleteApplyPatchPreparation x = false →
      x.id ∈ itemIds (visibleTimelineItems (step (run emptyChatV2State ts) t)) ∨
        ∃ r ∈ (run emptyChatV2State ts).volatileItems, r.id = x.id ∧
          ∃ y ∈ t.versions r, covered (step (run emptyChatV2State ts) t) y := by
  have hheld : ∀ x ∈ (run emptyChatV2State ts).volatileItems, PhaseOk x := by
    refine run_preserves_of_mem (I := fun s => ∀ x ∈ s.volatileItems, PhaseOk x)
      (fun s t' ht' hs => ?_)
      (fun x hx => absurd hx not_mem_nil)
    refine step_volatile_all (fun e i _ => phaseOk_mergeTimelineItem)
      (fun x hx => by rwa [PhaseOk, closePriorPhase_phaseField]) hs
      (hphases t' (mem_append_left _ ht'))
  intro x hx hnotice hpatch
  exact step_keeps_streamed hlive hheld (hphases t (mem_append_right _ mem_cons_self))
    hcomplete hagree hx hnotice hpatch

/-- The text of message `m` at a phase. -/
def phaseText (id : String) (phase : Int) (status : TimelineItemStatus) : TimelineItem where
  id := id
  sortKey := "9998:999999999999999:000000:00:000000001"
  stable := false
  status := .value status
  body := .message {
    role := .assistant
    content := "text"
    messageId := "m"
    turnId := .value "t1"
    assistantPhaseIndex := .value phase }

/-- Turn `t2` starts while the text of turn `t1` is not canonical yet. -/
theorem streamed_kept_next_turn : "live" ∈ itemIds (visibleTimelineItems (step
      (run emptyChatV2State [openWith [] (overlayOf (some "t1") [phaseText "live" 1 .running])])
      (.cancel { conversationId := "c", runtime := some (overlayOf (some "t2") []) }))) := by
  have hkept :=
    streamed_kept_or_covered [openWith [] (overlayOf (some "t1") [phaseText "live" 1 .running])]
    (.cancel { conversationId := "c", runtime := some (overlayOf (some "t2") []) }) rfl
    (by unfold PhaseOk; decide) (fun inc h => by cases h; rfl)
    (fun cur inc r hcur hinc _ => by cases hcur; cases hinc; decide)
    (phaseText "live" 1 .running) (by decide) (by decide) (by decide)
  exact hkept.resolve_right (by decide)

/-- A canonical text equal to the streamed one hides it although it is at an earlier phase. -/
theorem streamed_hidden_by_equal_text :
    ¬ ∀ (ts : List Transition) (t : Transition), t.isLive →
      (∀ t' ∈ ts ++ [t], ∀ x ∈ overlayItems t'.arrivingRuntime, PhaseOk x) →
      (∀ inc, t.arrivingRuntime = some inc → inc.volatileItemsComplete = false) →
      ∀ x ∈ activeVolatileItems (run emptyChatV2State ts),
        showsRuntimeItem (run emptyChatV2State ts).timelineItems x →
        isTransientRuntimeNotice x = false → isIncompleteApplyPatchPreparation x = false →
        x.id ∈ itemIds (visibleTimelineItems (step (run emptyChatV2State ts) t)) ∨
          ∃ r ∈ (run emptyChatV2State ts).volatileItems, r.id = x.id ∧ ∃ y ∈ t.versions r,
              coveredByIdentity (step (run emptyChatV2State ts) t).timelineItems y := by
  intro h
  have hkept := h [openWith [] (overlayOf (some "t1") [phaseText "live" 1 .running])] (.sync
      { realtime := false, projectionVersion := "v9", conversationId := "c", cursorBefore := "k",
        cursorAfter := "k1", ops := [.upsertItem (phaseText "final" 0 .complete)] } "now")
    rfl (by unfold PhaseOk; decide) (fun inc h => by cases h) (phaseText "live" 1 .running)
    (by decide) (by decide) (by decide) (by decide)
  revert hkept
  decide

end Cognis.Client
