import Cognis.Client.OneView

namespace Cognis.Client

open Bool List SortByKey Timeline

def Listed (v : Indexed) : Prop := ∀ id, v.byId.contains id = true → id ∈ itemIds v.items

theorem listed_ofItems (items : List TimelineItem) : Listed (Indexed.ofItems items) := by
  intro id hc
  obtain ⟨x, hx⟩ := Option.isSome_iff_exists.mp hc
  obtain ⟨hmem, hid⟩ := mem_of_get?_buildTimelineById hx
  exact mem_map.mpr ⟨x, hmem, hid⟩

variable {v : Indexed} {x : TimelineItem}

theorem mem_itemIds_upsert {id : String} (h : id ∈ itemIds v.items) (item : TimelineItem) :
    id ∈ itemIds (upsertSortedTimelineItem v item).items := by
  obtain ⟨x, hx, rfl⟩ := mem_map.mp h
  by_cases hid : x.id = item.id
  · exact mem_map.mpr ⟨item, SortedInsert.mem_insertSorted.mpr (.inl rfl), hid.symm⟩
  · refine mem_map.mpr ⟨x, SortedInsert.mem_insertSorted.mpr (.inr ?_), rfl⟩
    split_ifs
    · exact (mem_eraseP_of_neg (by simpa using hid)).mpr hx
    · exact hx

theorem mem_itemIds_upsertMerged_self (hl : Labelled v.byId) (item : TimelineItem) :
    item.id ∈ itemIds (upsertMerged v item).items := by
  refine mem_map.mpr ⟨_, SortedInsert.mem_insertSorted.mpr (.inl rfl), ?_⟩
  split
  next e he => exact mergeTimelineItem_id (hl _ _ he)
  next => rfl

structure ViewOk (v : Indexed) : Prop where
  labelled : Labelled v.byId
  listed : Listed v

theorem ViewOk.upsertMerged (h : ViewOk v) (item : TimelineItem) :
    ViewOk (upsertMerged v item) where
  labelled := h.labelled.upsertMerged item
  listed := by
    intro id hc
    rcases (contains_upsertMerged h.labelled item id).mp hc with hc | rfl
    · exact mem_itemIds_upsert (h.listed id hc) _
    · exact mem_itemIds_upsertMerged_self h.labelled item

theorem viewOk_ofItems (items : List TimelineItem) : ViewOk (Indexed.ofItems items) :=
  ⟨labelled_buildTimelineById items, listed_ofItems items⟩

theorem foldl_upsertMerged_lists (h : ViewOk v) (items : List TimelineItem) :
    ViewOk (items.foldl upsertMerged v) ∧
      (∀ id ∈ itemIds v.items, id ∈ itemIds (items.foldl upsertMerged v).items) ∧
      ∀ x ∈ items, x.id ∈ itemIds (items.foldl upsertMerged v).items := by
  induction items generalizing v with
  | nil => exact ⟨h, fun _ hid => hid, fun _ hx => absurd hx not_mem_nil⟩
  | cons item items ih =>
    obtain ⟨hok, hkeep, hmem⟩ := ih (h.upsertMerged item)
    refine ⟨hok, fun id hid => hkeep id (mem_itemIds_upsert hid _), fun x hx => ?_⟩
    rcases mem_cons.mp hx with rfl | hx
    · exact hkeep _ (mem_itemIds_upsertMerged_self h.labelled x)
    · exact hmem x hx

variable (canonicalItems : List TimelineItem) (item : TimelineItem)

def showsRuntimeItem : Bool :=
  runtimeHistoryVisibility canonicalItems item
    && !isConfirmedLegacyAdmission item (itemIds canonicalItems)
    && match item.userClientId with
      | some clientId => !(canonicalUserClientMessageIds canonicalItems).contains clientId
      | none => !canonicalCoversAssistant canonicalItems item

variable {s : ChatV2ClientState}

theorem showRuntime_of_shows {r : TimelineItem} (h : showsRuntimeItem s.timelineItems r) :
    showRuntime s v r = upsertMerged v (shownItem r) ∨
      (v.byId.contains r.id ∧ showRuntime s v r = v) := by
  simp only [showsRuntimeItem, and_eq_true, not_eq_true'] at h
  obtain ⟨⟨hvisible, hlegacy⟩, hcovers⟩ := h
  rw [showRuntime, if_neg (by simp [hvisible, hlegacy])]
  unfold shownItem
  cases hu : r.userClientId with
  | some c =>
    rw [hu] at hcovers
    dsimp only at hcovers ⊢
    rw [if_neg (by simpa using hcovers), if_pos (by simp : (some c).isSome)]
    exact .inl rfl
  | none =>
    rw [hu] at hcovers
    simp only [not_eq_true'] at hcovers
    rw [hcovers, Bool.false_or, if_neg (by simp : ¬ (none : Option String).isSome)]
    by_cases hskip : (v.byId.contains r.id && isIncompleteApplyPatchPreparation r)
    · rw [if_pos hskip]
      exact .inr ⟨(and_eq_true_iff.mp hskip).1, rfl⟩
    · rw [if_neg hskip]
      exact .inl rfl

theorem ViewOk.showRuntime (h : ViewOk v) (r : TimelineItem) :
    ViewOk (showRuntime s v r) ∧ ∀ id ∈ itemIds v.items, id ∈ itemIds
      (showRuntime s v r).items := by
  rcases showRuntime_shownItem s v r with hr | hr <;> rw [hr]
  · exact ⟨h, fun _ hid => hid⟩
  · exact ⟨h.upsertMerged _, fun id hid => mem_itemIds_upsert hid _⟩

theorem foldl_showRuntime_lists (h : ViewOk v) (items : List TimelineItem) :
    (∀ id ∈ itemIds v.items, id ∈ itemIds (items.foldl (showRuntime s) v).items) ∧
      ∀ r ∈ items, showsRuntimeItem s.timelineItems r →
        r.id ∈ itemIds (items.foldl (showRuntime s) v).items := by
  induction items generalizing v with
  | nil => exact ⟨fun _ hid => hid, fun _ hx => absurd hx not_mem_nil⟩
  | cons item items ih =>
    obtain ⟨hok, hkeep⟩ := h.showRuntime (s := s) item
    obtain ⟨hrest, hmem⟩ := ih hok
    refine ⟨fun id hid => hrest id (hkeep id hid), fun r hr hshows => ?_⟩
    rcases mem_cons.mp hr with rfl | hr
    · refine hrest _ ?_
      rcases showRuntime_of_shows (v := v) hshows with hr | ⟨hc, hr⟩ <;> rw [hr]
      · rw [← (EditOf.shownItem r).id]
        exact mem_itemIds_upsertMerged_self h.labelled _
      · exact h.listed _ hc
    · exact hmem r hr hshows

section

variable {s : ChatV2ClientState}

theorem visibleSettled_lists (s : ChatV2ClientState) : ViewOk (visibleSettled s) ∧
    (∀ id ∈ itemIds (visibleBase s), id ∈ itemIds (visibleSettled s).items) ∧
    ∀ x ∈ s.localItems, (showLocal s x).isSome → x.id ∈ itemIds (visibleSettled s).items := by
  obtain ⟨hok, hkeep, hmem⟩ := foldl_upsertMerged_lists (viewOk_ofItems (visibleBase s))
    (s.localItems.filterMap (showLocal s))
  refine ⟨hok, hkeep, fun x hx hshow => ?_⟩
  obtain ⟨y, hy⟩ := Option.isSome_iff_exists.mp hshow
  have hid : y.id = x.id := by
    obtain ⟨k, rfl⟩ := showLocal_eq_some hy
    rfl
  rw [← hid]
  exact hmem y (mem_filterMap.mpr ⟨x, hx, hy⟩)

theorem visible_of_base {id : String} (h : id ∈ itemIds (visibleBase s)) :
    id ∈ itemIds (visibleTimelineItems s) :=
  (foldl_showRuntime_lists (visibleSettled_lists s).1 _).1 id ((visibleSettled_lists s).2.1 id h)

theorem visible_of_local (h : x ∈ s.localItems) (hshow : (showLocal s x).isSome) :
    x.id ∈ itemIds (visibleTimelineItems s) :=
  (foldl_showRuntime_lists (visibleSettled_lists s).1 _).1 _
    ((visibleSettled_lists s).2.2 x h hshow)

theorem visible_of_overlay {r : TimelineItem} (h : r ∈ activeVolatileItems s)
    (hshow : showsRuntimeItem s.timelineItems r) : r.id ∈ itemIds (visibleTimelineItems s) :=
  (foldl_showRuntime_lists (visibleSettled_lists s).1 _).2 r h hshow

end

def assistantReached : Bool :=
  match item.body with
  | .message m => m.role = .assistant && m.messageId ≠ ""
    && canonicalItems.any (reachesAssistantPhase m.messageId (m.assistantPhaseIndex.get.getD 0))
  | _ => false

def thinkingContained : Bool :=
  match item.body with
  | .thinking t => match t.messageId.truthy with
    | some messageId => t.blocks.all (fun block =>
        (canonicalItems.flatMap thinkingBlockKeys).contains (messageId ++ "|" ++ block.id))
    | none => false
  | _ => false

def userEchoed : Bool :=
  match item.userClientId with
  | some clientId => (canonicalUserClientMessageIds canonicalItems).contains clientId
  | none => false

def overtaken : Bool :=
  match progressOf item with
  | some progress => advancedBeyond canonicalItems progress
  | none => false

def sameText : Bool :=
  match assistantContentKey item with
  | some key => (canonicalItems.filterMap assistantContentKey).contains key
  | none => false

def coveredByIdentity : Bool :=
  assistantReached canonicalItems item || thinkingContained canonicalItems item
    || userEchoed canonicalItems item || overtaken canonicalItems item

/-- The canonical timeline shows the item in another way: by its text, as a confirmed legacy
admission, or because its id is taken by an admission the user deleted; or a user message
without a turn is shown by the queue. -/
def coveredOtherwise (s : ChatV2ClientState) (item : TimelineItem) : Bool :=
  sameText s.timelineItems item || isConfirmedLegacyAdmission item (itemIds s.timelineItems)
    || s.timelineItems.any (fun held => held.id = item.id && isDeletedAdmission s held)
    || match item.userClientId with
      | some clientId => s.placementOf clientId = some .queue && (itemTurnIdOf item).isNone
      | none => false

def covered (s : ChatV2ClientState) (item : TimelineItem) : Bool :=
  coveredByIdentity s.timelineItems item || coveredOtherwise s item

def PhaseOk : Prop := 0 ≤ item.phaseField.get.getD 0

theorem overtaken_of_not_visible {canonicalItems : List TimelineItem}
    (h : runtimeHistoryVisibility canonicalItems x = false) : overtaken canonicalItems x := by
  simp only [runtimeHistoryVisibility, or_eq_false_iff] at h
  unfold overtaken
  cases hp : progressOf x with
  | none => simp [hp] at h
  | some => simpa [hp] using h.2

theorem le_foldl_max {l : List Int} {a p : Int} (h : p ≤ l.foldl max a) :
    p ≤ a ∨ ∃ x ∈ l, p ≤ x := by
  induction l generalizing a with
  | nil => exact .inl h
  | cons y l ih =>
    rcases ih h with hm | ⟨x, hx, hpx⟩
    · rcases le_max_iff.mp hm with hm | hm
      · exact .inl hm
      · exact .inr ⟨y, mem_cons_self, hm⟩
    · exact .inr ⟨x, mem_cons_of_mem _ hx, hpx⟩

theorem covered_of_canonicalCoversAssistant (hp : PhaseOk x)
    (h : canonicalCoversAssistant s.timelineItems x) : covered s x := by
  unfold canonicalCoversAssistant at h
  split at h
  next m hm =>
    simp only [and_eq_true, or_eq_true, decide_eq_true_eq] at h
    obtain ⟨⟨hrole, hmid⟩, hcontent | hphase⟩ := h
    · have hkey : assistantContentKey x = some (m.messageId ++ "\x00" ++ m.content) := by
        simp only [assistantContentKey, hm]
        rw [if_pos ⟨hrole, hmid⟩]
      have hsame : sameText s.timelineItems x := by
        rw [sameText, hkey]
        exact hcontent
      simp [covered, coveredOtherwise, hsame]
    · have hnonneg : 0 ≤ m.assistantPhaseIndex.get.getD 0 := by
        simpa [PhaseOk, TimelineItem.phaseField, hm] using hp
      have hreached : assistantReached s.timelineItems x := by
        simp only [assistantReached, hm, hrole, hmid, decide_true, Bool.true_and, ne_eq,
          not_false_eq_true]
        rcases le_foldl_max hphase with hneg | ⟨phase, hmem, hle⟩
        · omega
        · obtain ⟨y, hy, hyp⟩ := mem_filterMap.mp hmem
          refine any_eq_true.mpr ⟨y, hy, ?_⟩
          split at hyp
          next ym hym =>
            split_ifs at hyp with hc
            cases hyp
            simp [reachesAssistantPhase, hym, hc.1, hc.2.1, hle]
          next => cases hyp
      simp [covered, coveredByIdentity, hreached]
  next => cases h

theorem covered_of_not_shown (hp : PhaseOk x)
    (h : showsRuntimeItem s.timelineItems x = false) : covered s x := by
  unfold showsRuntimeItem at h
  cases hv : runtimeHistoryVisibility s.timelineItems x with
  | false => simp [covered, coveredByIdentity, overtaken_of_not_visible hv]
  | true =>
    cases hlegacy : isConfirmedLegacyAdmission x (itemIds s.timelineItems) with
    | true => simp [covered, coveredOtherwise, hlegacy]
    | false =>
      rw [hv, hlegacy, Bool.true_and, Bool.not_false, Bool.true_and] at h
      cases hu : x.userClientId with
      | none =>
        rw [hu] at h
        exact covered_of_canonicalCoversAssistant hp (by simpa using h)
      | some c =>
        rw [hu] at h
        have hecho : userEchoed s.timelineItems x := by
          rw [userEchoed, hu]
          simpa using h
        simp [covered, coveredByIdentity, hecho]

theorem covered_of_not_showLocal (h : showLocal s x = none) : covered s x := by
  unfold showLocal at h
  split_ifs at h with hshow
  cases hv : runtimeHistoryVisibility s.timelineItems x with
  | false => simp [covered, coveredByIdentity, overtaken_of_not_visible hv]
  | true =>
    rw [hv, Bool.true_and, not_eq_true', not_eq_false] at hshow
    unfold hidesLocalUser at hshow
    cases hu : x.userClientId with
    | none => simp [hu] at hshow
    | some c =>
      rw [hu] at hshow
      rcases or_eq_true_iff.mp hshow with hq | hecho
      · simp [covered, coveredOtherwise, hu, and_eq_true_iff.mp hq]
      · have : userEchoed s.timelineItems x := by rw [userEchoed, hu]; exact hecho
        simp [covered, coveredByIdentity, this]

theorem covered_of_evicted (h : retainsLocalItem s.timelineItems x = false) :
    x.id ∈ itemIds (visibleTimelineItems s) ∨ covered s x := by
  unfold retainsLocalItem at h
  cases hlegacy : isConfirmedLegacyAdmission x (itemIds s.timelineItems) with
  | true => exact .inr (by simp [covered, coveredOtherwise, hlegacy])
  | false =>
    cases hid : ((itemIds s.timelineItems).contains x.id && x.userClientId.isNone) with
    | true =>
      obtain ⟨held, hheld, hheldid⟩ := mem_map.mp
        (contains_iff_mem.mp (and_eq_true_iff.mp hid).1)
      by_cases hdel : isDeletedAdmission s held
      · refine .inr ?_
        have hany : s.timelineItems.any (fun held => held.id = x.id && isDeletedAdmission s held) :=
          any_eq_true.mpr ⟨held, hheld, by simp [hheldid, hdel]⟩
        simp [covered, coveredOtherwise, hany]
      · refine .inl (visible_of_base ?_)
        obtain ⟨y, hy, hxy⟩ := exists_adjusted_of_mem hheld
        refine mem_map.mpr ⟨y, mem_filter.mpr ⟨hy, ?_⟩, hxy.id.trans hheldid⟩
        simpa [isDeletedAdmission, hxy.user] using hdel
    | false =>
      rw [hlegacy, hid, Bool.not_false, Bool.true_and, Bool.true_and] at h
      refine .inr ?_
      split at h
      next m hm =>
        split_ifs at h with ha
        have hreached : assistantReached s.timelineItems x := by
          simp only [assistantReached, hm, ha.1, ha.2, decide_true, Bool.true_and, ne_eq,
            not_false_eq_true]
          simpa using h
        simp [covered, coveredByIdentity, hreached]
      next t ht =>
        split at h
        next messageId hmid =>
          have hcontained : thinkingContained s.timelineItems x := by
            simp only [thinkingContained, ht, hmid]
            exact (by simpa using h : _ ∧ _).2
          simp [covered, coveredByIdentity, hcontained]
        next => cases h
      next => cases h

end Cognis.Client
