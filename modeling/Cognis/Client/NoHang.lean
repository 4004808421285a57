import Cognis.Client.Spinner

namespace Cognis.Client

open Bool List SortByKey Timeline

variable {r : RuntimeOverlaySnapshot} {x : TimelineItem} {v : Indexed}

theorem Quiet.inactive {s : ChatV2ClientState} (h : Quiet s) (hr : s.runtime = some r)
    (hactive : r.hasActiveTurn = false) :
    ∀ x ∈ visibleTimelineItems s, isSpinning x = false := by
  have hvolatile : activeVolatileItems s = [] := by simp [activeVolatileItems, hr, hactive]
  have hbase : (Indexed.ofItems (visibleBase s)).All (fun x => isSpinning x = false) := by
    refine Indexed.all_ofItems (fun x hx => ?_)
    have hx := mem_visibleBase hx
    rw [runtimeAdjustedCanonicalItems, hr] at hx
    obtain ⟨y, hy, rfl⟩ := mem_map.mp hx
    simp only [settleForRuntime, hactive]
    exact isSpinning_terminalizeSettledItem (h.canonical.1 y hy)
  have hlocal : ∀ x ∈ s.localItems.filterMap (showLocal s), isSpinning x = false := by
    intro y hy
    obtain ⟨x, hx, hxy⟩ := mem_filterMap.mp hy
    obtain ⟨k, rfl⟩ := showLocal_eq_some hxy
    exact h.settled x hx
  rw [visibleTimelineItems, hvolatile]
  exact ((TimelineEdits.refl.foldl_upsertMerged (fun _ hx => hx)).all
    (fun _ _ _ => isSpinning_merge_false) hbase hlocal).items

variable {turnId : String}

theorem spinsElsewhere_of_not_spinning
    (h : isSpinning x = false) : spinsElsewhere turnId x = false := by
  simp [spinsElsewhere, h]

theorem spinsElsewhere_settleForRuntime (hturn : r.activeTurnId = some turnId) (hne : turnId ≠ "")
    (hx : isPendingAssistant x = false) : spinsElsewhere turnId (settleForRuntime r x) = false := by
  have hsettled : spinsElsewhere turnId (terminalizeSettledItem x) = false :=
    spinsElsewhere_of_not_spinning (isSpinning_terminalizeSettledItem hx)
  unfold settleForRuntime
  split_ifs
  · exact hsettled
  · rw [hturn]
    cases hit : itemTurnIdOf x with
    | none => simp [spinsElsewhere, ofTurnOrNone, hit]
    | some u =>
      dsimp only
      split_ifs with hu
      · exact hsettled
      · have : u = turnId := by simpa [hne] using hu
        simp [spinsElsewhere, ofTurnOrNone, hit, this]

theorem namesOther_settleForRuntime :
    namesOther turnId (settleForRuntime r x) = namesOther turnId x := by
  unfold settleForRuntime
  split_ifs
  · exact (EditOf.terminalizeSettledItem x).namesOther
  · split
    · split_ifs
      · exact (EditOf.terminalizeSettledItem x).namesOther
      · rfl
    · rfl

section

variable {s : ChatV2ClientState} {turnId : String}

/-- No overlay item can set the item going again in a turn other than the active one. -/
def Unclaimed (s : ChatV2ClientState) (turnId : String) (e : TimelineItem) : Prop :=
  ∀ r ∈ s.volatileItems, mayResume r → e.id = r.id → namesOther turnId e = false

/-- The view while local items are merged in, `done` being those already looked at. -/
structure LocalView (s : ChatV2ClientState) (turnId : String) (done : List TimelineItem)
    (v : Indexed) : Prop where
  calm : v.All (fun x => spinsElsewhere turnId x = false)
  unclaimed : v.All (Unclaimed s turnId)
  known : ∀ id e, v.byId.get? id = some e → id ∈ itemIds s.timelineItems ∨ id ∈ itemIds done

variable {done : List TimelineItem}

theorem LocalView.skip (h : LocalView s turnId done v)
    (x : TimelineItem) : LocalView s turnId (done ++ [x]) v where
  calm := h.calm
  unclaimed := h.unclaimed
  known id e he := by
    rcases h.known id e he with hid | hid
    · exact .inl hid
    · exact .inr (by simp only [itemIds, map_append, mem_append] at hid ⊢; exact .inl hid)

theorem Unclaimed.of_not_execution {e : TimelineItem} (h : isExecution e = false) :
    Unclaimed s turnId e := by
  intro r _ _ _
  rw [namesOther, h, Bool.false_and]

theorem LocalView.show (h : LocalView s turnId done v) (hunclaimed : Unclaimed s turnId x)
    (hspin : isSpinning x = false)
    (hclash : x.id ∈ itemIds s.timelineItems ∨ x.id ∈ itemIds done → isExecution x = false)
    (k : String) : LocalView s turnId (done ++ [x]) (upsertMerged v { x with sortKey := k }) where
  calm := by
    refine h.calm.upsertMerged (spinsElsewhere_of_not_spinning hspin) (fun e he _ _ => ?_)
    refine spinsElsewhere_of_not_spinning (isSpinning_of_not_execution ?_)
    rw [isExecution_mergeTimelineItem]
    exact hclash (h.known x.id e he)
  unclaimed := by
    refine h.unclaimed.upsertMerged hunclaimed (fun e he _ _ => .of_not_execution ?_)
    rw [isExecution_mergeTimelineItem]
    exact hclash (h.known x.id e he)
  known id e he := by
    rw [upsertMerged_get? h.calm.labelled] at he
    split_ifs at he with hid
    · exact .inr (by simp [itemIds, hid])
    · exact (h.skip x).known id e he

theorem Quiet.localView (h : Quiet s) (hr : s.runtime = some r)
    (hturn : r.activeTurnId = some turnId) (hne : turnId ≠ "")
    (hapart : ∀ x ∈ s.timelineItems ++ s.localItems, Unclaimed s turnId x) :
    LocalView s turnId s.localItems (visibleSettled s) := by
  have hbase : LocalView s turnId [] (Indexed.ofItems (visibleBase s)) := by
    refine ⟨Indexed.all_ofItems (fun x hx => ?_), Indexed.all_ofItems (fun x hx => ?_),
      fun id e he => ?_⟩
    · have hx := mem_visibleBase hx
      rw [runtimeAdjustedCanonicalItems, hr] at hx
      obtain ⟨y, hy, rfl⟩ := mem_map.mp hx
      exact spinsElsewhere_settleForRuntime hturn hne (h.canonical.1 y hy)
    · have hx := mem_visibleBase hx
      rw [runtimeAdjustedCanonicalItems, hr] at hx
      obtain ⟨y, hy, rfl⟩ := mem_map.mp hx
      intro z hz hresume hid
      rw [namesOther_settleForRuntime]
      exact hapart y (mem_append_left _ hy) z hz hresume ((settleForRuntime_id r y).symm.trans hid)
    · obtain ⟨hmem, rfl⟩ := mem_of_get?_buildTimelineById he
      rw [← itemIds_runtimeAdjustedCanonicalItems]
      exact .inl (mem_map.mpr ⟨e, mem_visibleBase hmem, rfl⟩)
  -- The induction is on the local items still to come; `done` are those before them.
  have hfold : ∀ (rest done : List TimelineItem) (v : Indexed), s.localItems = done ++ rest →
      LocalView s turnId done v →
      LocalView s turnId s.localItems ((rest.filterMap (showLocal s)).foldl upsertMerged v) := by
    intro rest
    induction rest with
    | nil =>
      intro done v hl hv
      rw [hl, append_nil]
      exact hv
    | cons x rest ih =>
      intro done v hl hv
      have hl' : s.localItems = (done ++ [x]) ++ rest := by rw [hl]; simp
      have hx : x ∈ s.localItems := by rw [hl]; simp
      have hlate : x.id ∈ itemIds done → isExecution x = false := by
        intro hid
        obtain ⟨z, hz, hzx⟩ := mem_map.mp hid
        have hpair := h.late
        rw [hl] at hpair
        exact (pairwise_append.mp hpair).2.2 z hz x mem_cons_self hzx
      have hclash : x.id ∈ itemIds s.timelineItems ∨ x.id ∈ itemIds done →
        isExecution x = false := by
        rintro (hid | hid)
        · cases hu : x.userClientId with
          | none => exact absurd hid (h.apart x hx hu)
          | some c => exact isExecution_of_userClientId (by simp [hu])
        · exact hlate hid
      rw [filterMap_cons]
      cases hshow : showLocal s x with
      | none => exact ih _ _ hl' (hv.skip x)
      | some y =>
        obtain ⟨k, rfl⟩ := showLocal_eq_some hshow
        exact ih _ _ hl' (hv.show (hapart x (mem_append_right _ hx)) (h.settled x hx) hclash k)
  exact hfold s.localItems [] _ rfl hbase

theorem spinsElsewhere_merge {e r : TimelineItem} (hcalm : spinsElsewhere turnId e = false)
    (hunclaimed : Unclaimed s turnId e) (hid : e.id = r.id) (hr : r ∈ s.volatileItems)
    (hturn : ofTurnOrNone turnId r) : spinsElsewhere turnId (mergeTimelineItem e r) = false := by
  rw [← not_eq_true]
  intro hspin
  rcases spinsElsewhere_mergeTimelineItem hspin with h | h | ⟨hresume, h⟩
  · exact false_ne_true (hcalm.symm.trans h)
  · simp [namesOther, hturn] at h
  · exact false_ne_true ((hunclaimed r hr hresume hid).symm.trans h)

theorem foldl_showRuntime_calm {items : List TimelineItem}
    (hitems : ∀ r ∈ items, r ∈ s.volatileItems)
    (hnodup : (itemIds items).Nodup) (hturn : ∀ r ∈ s.volatileItems, ofTurnOrNone turnId r)
    (hcalm : v.All (fun x => spinsElsewhere turnId x = false))
    (hunclaimed : ∀ id ∈ itemIds items, ∀ e, v.byId.get? id = some e → Unclaimed s turnId e) :
    (items.foldl (showRuntime s) v).All (fun x => spinsElsewhere turnId x = false) := by
  induction items generalizing v with
  | nil => exact hcalm
  | cons r items ih =>
    obtain ⟨hr, hrest⟩ := nodup_cons.mp hnodup
    have hmem := hitems r mem_cons_self
    have htail : ∀ id ∈ itemIds items, ∀ e, v.byId.get? id = some e → Unclaimed s turnId e :=
      fun id hid => hunclaimed id (mem_cons_of_mem _ hid)
    have hstep (i : TimelineItem) (hi : i.id = r.id) (hicalm : spinsElsewhere turnId i = false)
        (hmerge : ∀ e, v.byId.get? r.id = some e →
          spinsElsewhere turnId (mergeTimelineItem e i) = false) :
        (items.foldl (showRuntime s) (upsertMerged v i)).All
          (fun x => spinsElsewhere turnId x = false) := by
      refine ih (fun x hx => hitems x (mem_cons_of_mem _ hx)) hrest
        (hcalm.upsertMerged hicalm (fun e he _ _ => hmerge e (hi ▸ he))) (fun id hid e he => ?_)
      rw [upsertMerged_get? hcalm.labelled, if_neg] at he
      · exact htail id hid e he
      · intro heq
        rw [heq, hi] at hid
        exact hr hid
    rw [foldl_cons]
    rcases showRuntime_cases s v r with heq | ⟨huser, heq⟩ | ⟨-, heq⟩ <;> rw [heq]
    · exact ih (fun x hx => hitems x (mem_cons_of_mem _ hx)) hrest hcalm htail
    · have hexec : isExecution { r with status := .value .complete } = false :=
        isExecution_of_userClientId huser
      refine hstep _ rfl (spinsElsewhere_of_not_spinning (isSpinning_of_not_execution hexec))
        (fun e _ => spinsElsewhere_of_not_spinning (isSpinning_of_not_execution ?_))
      rw [isExecution_mergeTimelineItem, hexec]
    · refine hstep r rfl (by simp [spinsElsewhere, hturn r hmem]) (fun e he => ?_)
      exact spinsElsewhere_merge (hcalm.indexed _ e he) (hunclaimed r.id mem_cons_self e he)
        (hcalm.labelled _ _ he) hmem (hturn r hmem)

theorem Quiet.active (h : Quiet s) (hr : s.runtime = some r) (hactive : r.hasActiveTurn)
    (hturn : r.activeTurnId = some turnId) (hne : turnId ≠ "")
    (hitems : ∀ x ∈ r.volatileItems, ofTurnOrNone turnId x)
    (hnodup : (itemIds r.volatileItems).Nodup) (hapart : TurnsApart s) :
    ∀ x ∈ visibleTimelineItems s, spinsElsewhere turnId x = false := by
  have hvolatile : activeVolatileItems s = r.volatileItems := by
    simp [activeVolatileItems, hr, hactive]
  have hheld : s.volatileItems = r.volatileItems := by simp [ChatV2ClientState.volatileItems, hr]
  have hview := h.localView hr hturn hne fun e he x hx hresume =>
    hapart r hr hactive turnId hturn x (hheld ▸ hx) hresume e he
  rw [visibleTimelineItems, hvolatile]
  exact (foldl_showRuntime_calm (fun x hx => hheld ▸ hx) hnodup (fun x hx => hitems x (hheld ▸ hx))
    hview.calm (fun id _ e he => hview.unclaimed.indexed id e he)).1

end

/-- In every run without pending assistant messages nothing shown is still going on once no
turn is active. If no overlay item of the run can set an item of another turn going again either,
nothing of another turn goes on next to the active one. -/
theorem visible_settled_unless_active (ts : List Transition)
    (hts : ∀ t ∈ ts, ∀ x ∈ t.payloadItems, isPendingAssistant x = false) (s : ChatV2ClientState)
    (hs : s = run emptyChatV2State ts) (r : RuntimeOverlaySnapshot) (hr : s.runtime = some r) :
    (r.hasActiveTurn = false → ∀ x ∈ visibleTimelineItems s, isSpinning x = false) ∧
    (RunMeets (fun s t => t.KeepsTurns s) emptyChatV2State ts →
      ∀ turnId, r.hasActiveTurn → r.activeTurnId = some turnId → turnId ≠ "" →
        (itemIds r.volatileItems).Nodup → (∀ x ∈ r.volatileItems, ofTurnOrNone turnId x) →
        ∀ x ∈ visibleTimelineItems s, isSpinning x → ofTurnOrNone turnId x) := by
  have hquiet : Quiet s := by
    rw [hs]
    exact run_preserves_of_mem (fun s t ht h => h.step (hts t ht)) quiet_empty
  refine ⟨fun hactive => hquiet.inactive hr hactive, ?_⟩
  intro hmeets turnId hactive hturn hne hnodup hitems x hx hspin
  have hapart : TurnsApart s := by
    rw [hs]
    exact turnsApart_run hmeets
  have hcalm := hquiet.active hr hactive hturn hne hitems hnodup hapart x hx
  simpa [spinsElsewhere, hspin] using hcalm

/-- A call of turn `t1` that is left running. -/
def runningCall : TimelineItem where
  id := "tool:1"
  sortKey := "0001:000000000000001:000000:00:000000001"
  stable := true
  status := .value .running
  body := .toolCall { callId := "1", toolName := "bash", turnId := .value "t1" }

def assistantItem (id turnId : String) (status : TimelineItemStatus) : TimelineItem where
  id := id
  sortKey := "0001:000000000000001:000000:00:000000002"
  stable := true
  status := .value status
  body :=
    .message { role := .assistant, content := "text", messageId := id, turnId := .value turnId }

def thinkingItem (turnId : JsField String) (status : TimelineItemStatus) : TimelineItem where
  id := "thinking:1"
  sortKey := "0001:000000000000001:000000:00:000000003"
  stable := true
  status := .value status
  body := .thinking { turnId := turnId, blocks := [] }

/-- A call left running by turn `t1` is settled, both when no turn is active and next to the
thoughts of turn `t2`, which its overlay lists again without a turn. -/
theorem visible_settled_left_running :
    (∀ x ∈ visibleTimelineItems (run emptyChatV2State [openWith [runningCall] (overlayOf none [])]),
      isSpinning x = false) ∧
    ∀ x ∈ visibleTimelineItems (run emptyChatV2State
      [openWith [runningCall, thinkingItem (.value "t2") .complete]
        (overlayOf (some "t2") [thinkingItem .absent .running])]),
      isSpinning x → ofTurnOrNone "t2" x :=
  ⟨(visible_settled_unless_active _ (by decide) _ rfl (overlayOf none []) (by decide)).1 rfl,
    (visible_settled_unless_active [openWith [runningCall, thinkingItem (.value "t2") .complete]
        (overlayOf (some "t2") [thinkingItem .absent .running])] (by decide) _ rfl
      (overlayOf (some "t2") [thinkingItem .absent .running]) (by decide)).2
      ⟨by decide, trivial⟩ "t2" rfl rfl (by decide) (by decide) (by decide)⟩

/-- Settling overlooks a pending assistant message, which stays pending with no turn active;
and an overlay item without a turn id sets a finished item of another turn running again. -/
theorem pending_assistant_hangs :
    (¬ ∀ (ts : List Transition) (r : RuntimeOverlaySnapshot),
      (run emptyChatV2State ts).runtime = some r → r.hasActiveTurn = false →
      ∀ x ∈ visibleTimelineItems (run emptyChatV2State ts), isSpinning x = false) ∧
    ¬ ∀ (ts : List Transition) (r : RuntimeOverlaySnapshot) (turnId : String),
      (run emptyChatV2State ts).runtime = some r → r.hasActiveTurn →
      r.activeTurnId = some turnId → (∀ x ∈ r.volatileItems, ofTurnOrNone turnId x) →
      ∀ x ∈ visibleTimelineItems (run emptyChatV2State ts),
        isSpinning x → ofTurnOrNone turnId x := by
  constructor
  · intro h
    have hspin := h [openWith [assistantItem "m" "t1" .pending] (overlayOf none [])]
      (overlayOf none []) (by decide) rfl (assistantItem "m" "t1" .pending) (by decide)
    exact absurd hspin (by decide)
  · intro h
    have hturn := h [openWith [thinkingItem (.value "t1") .complete]
      (overlayOf (some "t2") [thinkingItem .absent .running])]
      (overlayOf (some "t2") [thinkingItem .absent .running]) "t2" (by decide) rfl rfl (by decide)
    exact absurd hturn (by decide)

end Cognis.Client
