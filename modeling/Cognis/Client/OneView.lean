import Cognis.Client.Tracking

namespace Cognis.Client

open List Option SortByKey Timeline

variable {v : Indexed} {x : TimelineItem} {items : List TimelineItem} {visible : List QueueMessage}
  {admission : LocalAdmissionPlacement}

theorem contains_upsertMerged (hl : Labelled v.byId) (item : TimelineItem) (id : String) :
    (upsertMerged v item).byId.contains id ↔ v.byId.contains id ∨ item.id = id := by
  rw [OrderedMap.contains, OrderedMap.contains, upsertMerged_get? hl]
  split_ifs with hid
  · simp [hid]
  · simp [Ne.symm hid]

theorem contains_foldl_upsertMerged (hl : Labelled v.byId) (items : List TimelineItem)
    (id : String) : (items.foldl upsertMerged v).byId.contains id ↔
      v.byId.contains id ∨ ∃ i ∈ items, i.id = id := by
  induction items generalizing v with
  | nil => simp
  | cons item items ih =>
    rw [foldl_cons, ih (hl.upsertMerged item), contains_upsertMerged hl]
    simp only [mem_cons, exists_eq_or_imp]
    tauto

/-- Settling is an edit. -/
theorem EditOf.settleForRuntime (runtime : RuntimeOverlaySnapshot) (x : TimelineItem) :
    EditOf x (settleForRuntime runtime x) := by
  unfold Client.settleForRuntime
  repeat' split
  all_goals first
    | exact .terminalizeSettledItem x
    | exact .refl x

variable {s : ChatV2ClientState}

theorem exists_of_mem_adjusted {y : TimelineItem}
    (h : y ∈ runtimeAdjustedCanonicalItems s) : ∃ x ∈ s.timelineItems, EditOf x y := by
  unfold runtimeAdjustedCanonicalItems at h
  split at h
  · exact ⟨y, h, .refl y⟩
  · obtain ⟨x, hx, rfl⟩ := mem_map.mp h
    exact ⟨x, hx, .settleForRuntime _ x⟩

theorem exists_adjusted_of_mem (h : x ∈ s.timelineItems) :
    ∃ y ∈ runtimeAdjustedCanonicalItems s, EditOf x y := by
  unfold runtimeAdjustedCanonicalItems
  split
  · exact ⟨x, h, .refl x⟩
  · exact ⟨_, mem_map_of_mem h, .settleForRuntime _ x⟩

/-- The item as `showRuntime` shows it. -/
def shownItem (r : TimelineItem) : TimelineItem :=
  if r.userClientId.isSome then { r with status := .value .complete } else r

theorem EditOf.shownItem (r : TimelineItem) : EditOf r (shownItem r) := by
  unfold Client.shownItem
  split_ifs
  · exact .completed r
  · exact .refl r

theorem showRuntime_shownItem (s : ChatV2ClientState) (v : Indexed) (r : TimelineItem) :
    showRuntime s v r = v ∨ showRuntime s v r = upsertMerged v (shownItem r) := by
  rcases showRuntime_cases s v r with h | ⟨hu, h⟩ | ⟨hu, h⟩
  · exact .inl h
  · exact .inr (by rw [h, Client.shownItem, if_pos hu])
  · exact .inr (by rw [h, Client.shownItem, if_neg (by simp [hu])])

theorem foldl_showRuntime_edits {v' : Indexed} {arriving : List TimelineItem}
    (h : TimelineEdits arriving v v') (hi : ∀ r ∈ items, shownItem r ∈ arriving) :
    TimelineEdits arriving v (items.foldl (showRuntime s) v') := by
  induction items generalizing v' with
  | nil => exact h
  | cons r items ih =>
    refine ih ?_ (fun x hx => hi x (mem_cons_of_mem _ hx))
    rcases showRuntime_shownItem s v' r with hr | hr <;> rw [hr]
    · exact h
    · exact h.upsert (hi r mem_cons_self)

theorem contains_foldl_showRuntime (hl : Labelled v.byId) {id : String}
    (hi : ∀ r ∈ items, r.id = id → v.byId.contains id) :
    (items.foldl (showRuntime s) v).byId.contains id = v.byId.contains id := by
  induction items generalizing v with
  | nil => rfl
  | cons r items ih =>
    have htail (x : TimelineItem) (hx : x ∈ items) := hi x (mem_cons_of_mem _ hx)
    rw [foldl_cons]
    rcases showRuntime_shownItem s v r with hr | hr <;> rw [hr]
    · exact ih hl htail
    · have hcontains : (upsertMerged v (shownItem r)).byId.contains id = v.byId.contains id := by
        rw [Bool.eq_iff_iff, contains_upsertMerged hl, (EditOf.shownItem r).id]
        constructor
        · rintro (h | h)
          · exact h
          · exact hi r mem_cons_self h
        · exact .inl
      rw [ih (hl.upsertMerged _) (fun x hx hid => hcontains ▸ htail x hx hid), hcontains]

theorem eq_of_single {id : String} {y : TimelineItem}
    (h : items.Pairwise (fun x y => x.id = id → y.id ≠ id)) (hx : x ∈ items) (hxid : x.id = id)
    (hy : y ∈ items) (hyid : y.id = id) : x = y := by
  induction items with
  | nil => cases hx
  | cons a rest ih =>
    obtain ⟨ha, hrest⟩ := pairwise_cons.mp h
    rcases mem_cons.mp hx with rfl | hxr <;> rcases mem_cons.mp hy with rfl | hyr
    · rfl
    · exact absurd hyid (ha y hyr hxid)
    · exact absurd hxid (ha x hxr hyid)
    · exact ih hrest hxr hyr

section

variable {c : String} {s : ChatV2ClientState}

def canonicalHas (c : String) (s : ChatV2ClientState) : Bool :=
  (canonicalUserClientMessageIds s.timelineItems).contains c

theorem canonicalHas_iff (h : Tracked c s) :
    canonicalHas c s ↔ ∃ x ∈ s.timelineItems, x.id = userItemId c := by
  simp only [canonicalHas, canonicalUserClientMessageIds, contains_iff_mem, mem_filterMap]
  refine exists_congr (fun x => and_congr_right (fun hx => ?_))
  exact (h.canonical.items x hx).user_iff

theorem contains_visibleBase (h : Tracked c s) :
    (Indexed.ofItems (visibleBase s)).byId.contains (userItemId c) = canonicalHas c s := by
  rw [Bool.eq_iff_iff, canonicalHas_iff h]
  constructor
  · intro hc
    obtain ⟨y, hy⟩ := isSome_iff_exists.mp hc
    obtain ⟨hmem, hid⟩ := mem_of_get?_buildTimelineById hy
    obtain ⟨x, hx, hxy⟩ := exists_of_mem_adjusted (mem_visibleBase hmem)
    exact ⟨x, hx, hxy.id.symm.trans hid⟩
  · rintro ⟨x, hx, hid⟩
    obtain ⟨y, hy, hxy⟩ := exists_adjusted_of_mem hx
    have huser : y.userClientId = some c := by
      rw [hxy.user]
      exact (h.canonical.items x hx).user_iff.mpr hid
    have hshown : isDeletedAdmission s y = false := by
      simp [isDeletedAdmission, huser, h.kept]
    exact isSome_get?_buildTimelineById
      ⟨y, mem_filter.mpr ⟨hy, by simp [hshown]⟩, hxy.id.trans hid⟩

theorem runtimeHistoryVisibility_of_user
    (h : x.userClientId = some c) : runtimeHistoryVisibility items x := by
  obtain ⟨m, hm, hr, -⟩ := userClientId_eq_some.mp h
  simp [runtimeHistoryVisibility, progressOf, hm, hr]

theorem showLocal_isSome (h : x.userClientId = some c) : (showLocal s x).isSome ↔
      ¬ (s.placementOf c = some .queue ∧ itemTurnIdOf x = none) ∧ canonicalHas c s = false := by
  simp only [showLocal, runtimeHistoryVisibility_of_user h, hidesLocalUser, h, Bool.true_and]
  change (if (!((decide (s.placementOf c = some .queue) && (itemTurnIdOf x).isNone) ||
    canonicalHas c s)) = true then _ else none).isSome ↔ _
  cases canonicalHas c s <;> cases itemTurnIdOf x <;> simp

theorem contains_visibleSettled (h : Tracked c s) (hx : x ∈ s.localItems)
    (hid : x.id = userItemId c) :
    (visibleSettled s).byId.contains (userItemId c) ↔
      canonicalHas c s ∨ ¬ (s.placementOf c = some .queue ∧ itemTurnIdOf x = none) := by
  have hxu := (h.locals x hx).1.user_iff.mpr hid
  have hshow := showLocal_isSome (s := s) hxu
  rw [visibleSettled, contains_foldl_upsertMerged (labelled_buildTimelineById _),
    contains_visibleBase h]
  constructor
  · rintro (hk | ⟨y, hy, hyid⟩)
    · exact .inl hk
    · obtain ⟨z, hz, hzy⟩ := mem_filterMap.mp hy
      obtain ⟨k, rfl⟩ := showLocal_eq_some hzy
      have hzx : z = x := eq_of_single h.single hz hyid hx hid
      rw [hzx] at hzy
      exact .inr (hshow.mp (by rw [hzy]; rfl)).1
  · rintro (hk | hq)
    · exact .inl hk
    · by_cases hk : canonicalHas c s
      · exact .inl hk
      · obtain ⟨y, hy⟩ := isSome_iff_exists.mp (hshow.mpr ⟨hq, by simpa using hk⟩)
        obtain ⟨k, rfl⟩ := showLocal_eq_some hy
        exact .inr ⟨_, mem_filterMap.mpr ⟨x, hx, hy⟩, hid⟩

theorem labelled_visibleSettled (s : ChatV2ClientState) : Labelled (visibleSettled s).byId :=
  ((TimelineEdits.refl.foldl_upsertMerged (fun _ hx => hx)).all (P := fun _ => True)
    (fun _ _ _ _ _ => trivial) (Indexed.all_ofItems (fun _ _ => trivial))
      (fun _ _ => trivial)).labelled

theorem mem_volatile_of_active {r : TimelineItem} (h : r ∈ activeVolatileItems s) :
    r ∈ s.volatileItems := by
  unfold activeVolatileItems at h
  unfold ChatV2ClientState.volatileItems
  split at h
  next run hrun =>
    split_ifs at h
    · simpa [hrun] using h
    · cases h
  next => cases h

/-- All that is visible comes from the settled timeline by merges and removals. -/
theorem visible_edits (s : ChatV2ClientState) :
    TimelineEdits (s.localItems.filterMap (showLocal s) ++ (activeVolatileItems s).map shownItem)
      (Indexed.ofItems (visibleBase s))
        ((activeVolatileItems s).foldl (showRuntime s) (visibleSettled s)) :=
  foldl_showRuntime_edits (TimelineEdits.refl.foldl_upsertMerged (fun _ hx => mem_append_left _ hx))
    (fun _ hr => mem_append_right _ (mem_map_of_mem hr))

theorem visible_ok (h : Tracked c s) :
    ((activeVolatileItems s).foldl (showRuntime s) (visibleSettled s)).All (Attributed c) ∧
    ((activeVolatileItems s).foldl (showRuntime s) (visibleSettled s)).OnceAt (userItemId c) := by
  constructor
  · refine (visible_edits s).all (fun _ _ => Attributed.merge)
      (Indexed.all_ofItems (fun y hy => ?_))
      (fun y hy => ?_)
    · obtain ⟨x, hx, hxy⟩ := exists_of_mem_adjusted (mem_visibleBase hy)
      exact hxy.attributed (h.canonical.items x hx)
    · rcases mem_append.mp hy with hy | hy
      · obtain ⟨x, hx, hxy⟩ := mem_filterMap.mp hy
        obtain ⟨k, rfl⟩ := showLocal_eq_some hxy
        exact (EditOf.of_body rfl rfl (.inl rfl) : EditOf x _).attributed (h.locals x hx).1
      · obtain ⟨r, hr, rfl⟩ := mem_map.mp hy
        exact (EditOf.shownItem r).attributed (h.overlay r (mem_volatile_of_active hr)).1
  · refine (visible_edits s).onceAt (Indexed.onceAt_ofItems (le_trans ?_ h.once.once))
    refine le_trans filter_sublist.countP_le (le_of_eq ?_)
    rw [countP_id_eq_count, itemIds_runtimeAdjustedCanonicalItems, ← countP_id_eq_count]
    rfl

/-- The timeline shows the message once, unless it is only in the queue. -/
theorem countP_visibleTimelineItems (hc : c ≠ "") (h : Tracked c s) (hx : x ∈ s.localItems)
    (hid : x.id = userItemId c) :
    (visibleTimelineItems s).countP (·.isUserMessageOf c) =
      if canonicalHas c s = true ∨ ¬ (s.placementOf c = some .queue ∧ itemTurnIdOf x = none)
      then 1 else 0 := by
  obtain ⟨hall, honce⟩ := visible_ok h
  have hcount : (visibleTimelineItems s).countP (·.isUserMessageOf c) =
      (visibleTimelineItems s).countP (·.id = userItemId c) := by
    refine countP_congr (fun y hy => ?_)
    rw [isUserMessageOf_iff hc, (hall.items y hy).user_iff, decide_eq_true_eq]
  have hsettled := contains_visibleSettled h hx hid
  have hoverlay : ∀ r ∈ activeVolatileItems s, r.id = userItemId c →
      (visibleSettled s).byId.contains (userItemId c) := by
    intro r hr hrid
    have hrv := mem_volatile_of_active hr
    obtain ⟨y, hy, hyid, hturn⟩ := h.admitted ⟨r, hrv, (h.overlay r hrv).1.user_iff.mpr hrid⟩
    rw [eq_of_single h.single hy hyid hx hid] at hturn
    refine hsettled.mpr (.inr (fun hq => ?_))
    rw [hq.2] at hturn
    cases hturn
  rw [hcount, visibleTimelineItems, honce.countP,
    contains_foldl_showRuntime (labelled_visibleSettled s) hoverlay]
  simp only [hsettled]

theorem timelineClientIds_contains (h : Tracked c s) (hx : x ∈ s.localItems)
    (hid : x.id = userItemId c) : (timelineClientIds s).contains c ↔
      canonicalHas c s ∨ (itemTurnIdOf x).isSome := by
  have hxu := (h.locals x hx).1.user_iff.mpr hid
  simp only [timelineClientIds, canonicalHas, canonicalUserClientMessageIds, contains_iff_mem,
    filterMap_append, mem_append]
  constructor
  · rintro ((hk | hv) | hl)
    · exact .inl hk
    · obtain ⟨r, hr, hru⟩ := mem_filterMap.mp hv
      obtain ⟨y, hy, hyid, hturn⟩ := h.admitted ⟨r, hr, hru⟩
      exact .inr (eq_of_single h.single hy hyid hx hid ▸ hturn)
    · obtain ⟨y, hy, hyu⟩ := mem_filterMap.mp hl
      obtain ⟨hy, hturn⟩ := mem_filter.mp hy
      have hyid := (h.locals y hy).1.user_iff.mp hyu
      exact .inr (eq_of_single h.single hy hyid hx hid ▸ hturn)
  · rintro (hk | hturn)
    · exact .inl (.inl hk)
    · exact .inr (mem_filterMap.mpr ⟨x, mem_filter.mpr ⟨hx, hturn⟩, hxu⟩)

def isEntryOf (c : String) (message : QueueMessage) : Bool := message.clientMessageId = some c

variable {projected : QueueMessage}

theorem countP_replaceLast {k : String} (hp : projected.clientMessageId = some k)
    (messages : List QueueMessage) :
    (replaceLast k projected messages).countP (isEntryOf c) = messages.countP (isEntryOf c) := by
  induction messages with
  | nil => rfl
  | cons message rest ih =>
    unfold replaceLast
    split_ifs with hm
    · simp [countP_cons, isEntryOf, hp, hm.1]
    · simp [countP_cons, ih]

theorem projectAdmission_clientMessageId {k : String} {existing : Option QueueMessage}
    (h : projectAdmission s visible k admission existing = some projected) :
    projected.clientMessageId = some k := by
  obtain ⟨content, -, rfl⟩ := map_eq_some_iff.mp h
  rfl

theorem countP_showAdmission_of_ne {entry : String × LocalAdmissionPlacement} (hne : entry.1 ≠ c) :
    (showAdmission s visible entry).countP (isEntryOf c) = visible.countP (isEntryOf c) := by
  unfold showAdmission
  by_cases hskip : entry.2.placement ≠ .queue ∨ (timelineClientIds s).contains entry.1
  · rw [if_pos hskip]
  rw [if_neg hskip]
  dsimp only
  generalize (if entry.1 = "" then none else
    (visible.filter (fun message => message.clientMessageId = some entry.1)).getLast?) = existing
  split
  · rfl
  next projected hp =>
    have hclient := projectAdmission_clientMessageId hp
    split_ifs
    · exact countP_replaceLast hclient visible
    · simp [countP_append, isEntryOf, hclient, hne]

theorem countP_showAdmission_self (hc : c ≠ "") (hq : admission.placement = .queue)
    (ht : (timelineClientIds s).contains c = false) (hx : x ∈ s.localItems)
    (hxu : x.userClientId = some c) (hv : visible.countP (isEntryOf c) ≤ 1) :
    (showAdmission s visible (c, admission)).countP (isEntryOf c) = 1 := by
  unfold showAdmission
  rw [if_neg (by simp [hq]; simpa using ht)]
  simp only [if_neg hc]
  have hlocal : ∃ content, (localByClientId s c).bind itemContent = some content := by
    unfold localByClientId
    cases hlast : (s.localItems.filter (fun item => item.userClientId = some c)).getLast? with
    | none =>
      have hmem : x ∈ s.localItems.filter (fun item => item.userClientId = some c) :=
        mem_filter.mpr ⟨hx, by simp [hxu]⟩
      rw [getLast?_eq_none_iff.mp hlast] at hmem
      cases hmem
    | some y =>
      have hy := (mem_filter.mp (mem_of_getLast? hlast)).2
      obtain ⟨m, hm, -⟩ := userClientId_eq_some.mp (by simpa using hy : y.userClientId = some c)
      exact ⟨m.content, by simp [itemContent, TimelineItem.message?, hm]⟩
  obtain ⟨content, hcontent⟩ := hlocal
  generalize hex :
    (visible.filter (fun message => message.clientMessageId = some c)).getLast? = existing
  have hcount : visible.countP (isEntryOf c) = if existing.isSome then 1 else 0 := by
    have hlen : visible.countP (isEntryOf c) =
        (visible.filter (fun message => message.clientMessageId = some c)).length :=
      countP_eq_length_filter
    rw [hlen] at hv ⊢
    cases hf : visible.filter (fun message => message.clientMessageId = some c) with
    | nil =>
      rw [hf] at hex
      subst hex
      rfl
    | cons =>
      rw [hf, length_cons] at hv
      rw [hf, getLast?_cons] at hex
      subst hex
      simp only [isSome_some, if_true, length_cons]
      omega
  cases hp : projectAdmission s visible c admission existing with
  | none =>
    unfold projectAdmission at hp
    simp [hcontent] at hp
  | some =>
    have hclient := projectAdmission_clientMessageId hp
    split_ifs at hcount ⊢
    · rw [countP_replaceLast hclient, hcount]
    · rw [countP_append, hcount]
      simp [isEntryOf, hclient]

variable {entries : List (String × LocalAdmissionPlacement)}

theorem foldl_showAdmission_of_not_mem (h : c ∉ entries.map Prod.fst)
    (visible : List QueueMessage) :
    (entries.foldl (showAdmission s) visible).countP (isEntryOf c) = visible.countP
      (isEntryOf c) := by
  induction entries generalizing visible with
  | nil => rfl
  | cons entry entries ih =>
    simp only [map_cons, mem_cons, not_or] at h
    rw [foldl_cons, ih h.2, countP_showAdmission_of_ne (Ne.symm h.1)]

/-- Of all entries only the message's own changes its count. -/
theorem foldl_showAdmission (hn : (entries.map Prod.fst).Nodup) (h : (c, admission) ∈ entries)
    {n : Nat} (visible : List QueueMessage)
    (hstep : ∀ v : List QueueMessage, v.countP (isEntryOf c) = visible.countP (isEntryOf c) →
      (showAdmission s v (c, admission)).countP (isEntryOf c) = n) :
    (entries.foldl (showAdmission s) visible).countP (isEntryOf c) = n := by
  induction entries generalizing visible with
  | nil => cases h
  | cons entry entries ih =>
    obtain ⟨hentry, hrest⟩ := nodup_cons.mp hn
    rw [foldl_cons]
    rcases mem_cons.mp h with rfl | h
    · rw [foldl_showAdmission_of_not_mem hentry]
      exact hstep visible rfl
    · have hne : entry.1 ≠ c := by
        rintro rfl
        exact hentry (mem_map.mpr ⟨_, h, rfl⟩)
      refine ih hrest h _ (fun v hv => hstep v ?_)
      rw [hv, countP_showAdmission_of_ne hne]

/-- The queue shows the message once, where the timeline does not. -/
theorem countP_visibleQueueMessages (hc : c ≠ "") (h : Tracked c s) (hx : x ∈ s.localItems)
    (hid : x.id = userItemId c) :
    (visibleQueueMessages s).countP (isEntryOf c) =
      if canonicalHas c s = true ∨ ¬ (s.placementOf c = some .queue ∧ itemTurnIdOf x = none)
      then 0 else 1 := by
  have hxu := (h.locals x hx).1.user_iff.mpr hid
  have htimeline := timelineClientIds_contains h hx hid
  rw [visibleQueueMessages, (sortBy_perm _ _).countP_eq]
  change ((s.admissionPlacements.entries.foldl (showAdmission s)
    (s.queueMessages.filter (showsQueueMessage s))).countP (isEntryOf c)) = _
  have hplace : s.placementOf c = (s.admissionPlacements.get? c).map (·.placement) := rfl
  split_ifs with hshown
  · -- The timeline shows the message: neither the server's entry nor a record gets through.
    have hzero : (s.queueMessages.filter (showsQueueMessage s)).countP (isEntryOf c) = 0 := by
      rw [countP_eq_zero]
      intro message hm hentry
      have hclient : message.clientMessageId = some c := by simpa [isEntryOf] using hentry
      have hshows := (mem_filter.mp hm).2
      simp only [showsQueueMessage, hclient, decide_eq_false hc, Bool.false_or, Bool.and_eq_true,
        Bool.not_eq_true', decide_eq_true_eq] at hshows
      obtain ⟨⟨hnot, hnt⟩, hnd⟩ := hshows
      rw [← Bool.not_eq_true, htimeline] at hnot
      rcases hshown with hk | hq
      · exact hnot (.inl hk)
      · have hturn : itemTurnIdOf x = none := by simpa using fun hs => hnot (.inr hs)
        cases hp : s.placementOf c with
        | none =>
          rcases h.placed x hx hid with ht | ht
          · exact hnot (.inr ht)
          · rw [hp] at ht
            cases ht
        | some place =>
          cases place with
          | timeline => exact hnt hp
          | queue => exact hq ⟨hp, hturn⟩
          | deleted => exact hnd hp
    cases hget : s.admissionPlacements.get? c with
    | none =>
      rw [foldl_showAdmission_of_not_mem ((OrderedMap.get?_eq_none_iff _).mp hget), hzero]
    | some admission =>
      refine foldl_showAdmission s.admissionPlacements.nodup
        ((OrderedMap.get?_eq_some_iff _).mp hget) _ (fun v hv => ?_)
      have hskip : admission.placement ≠ .queue ∨ (timelineClientIds s).contains c := by
        rw [htimeline]
        by_cases hturn : (itemTurnIdOf x).isSome
        · exact .inr (.inr hturn)
        · rcases hshown with hk | hq
          · exact .inr (.inl hk)
          · refine .inl (fun hqueue => hq ⟨?_, by simpa using hturn⟩)
            rw [hplace, hget, map_some, hqueue]
      rw [showAdmission, if_pos hskip, hv, hzero]
  · obtain ⟨hk, hq⟩ := not_or.mp hshown
    obtain ⟨hqueue, hturn⟩ := not_not.mp hq
    obtain ⟨admission, hget, hqueue⟩ := map_eq_some_iff.mp hqueue
    have hnot : (timelineClientIds s).contains c = false := by
      rw [← Bool.not_eq_true, htimeline, hturn]
      simpa using hk
    refine foldl_showAdmission s.admissionPlacements.nodup
      ((OrderedMap.get?_eq_some_iff _).mp hget) _ (fun v hv => ?_)
    refine countP_showAdmission_self hc hqueue hnot hx hxu ?_
    rw [hv]
    exact le_trans filter_sublist.countP_le h.queue

/-- Either the timeline or the queue shows the message, and it shows it once. -/
def ShownOnce (c : String) (s : ChatV2ClientState) : Prop :=
  ((visibleTimelineItems s).countP (·.isUserMessageOf c) = 1 ∧
    (visibleQueueMessages s).countP (isEntryOf c) = 0) ∨
  ((visibleTimelineItems s).countP (·.isUserMessageOf c) = 0 ∧
    (visibleQueueMessages s).countP (isEntryOf c) = 1)

theorem Tracked.shownOnce (hc : c ≠ "") (h : Tracked c s)
    (hx : ∃ x ∈ s.localItems, x.id = userItemId c) : ShownOnce c s := by
  obtain ⟨x, hx, hid⟩ := hx
  rw [ShownOnce, countP_visibleTimelineItems hc h hx hid, countP_visibleQueueMessages hc h hx hid]
  split_ifs
  · exact .inl ⟨rfl, rfl⟩
  · exact .inr ⟨rfl, rfl⟩

end

end Cognis.Client
