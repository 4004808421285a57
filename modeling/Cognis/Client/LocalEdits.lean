import Cognis.Client.StepItems

namespace Cognis.Client

open Bool List SortByKey Timeline

def isResolvedNotice (item : TimelineItem) : Bool :=
  match item.body with
  | .message m => m.noticeResolved.get = some true
  | _ => false

/-- A transition may rekey a local item, rewrite its text or acknowledge it, but it keeps who
sent it and for which turn. -/
structure EditOf (x y : TimelineItem) : Prop where
  id : y.id = x.id
  user : y.userClientId = x.userClientId
  message : ∀ c, y.isMessageOf c = x.isMessageOf c
  turn : itemTurnIdOf y = itemTurnIdOf x
  execution : isExecution y = isExecution x
  notice : isResolvedNotice y = isResolvedNotice x
  status : y.status = x.status ∨ y.status = .value .complete ∨ y.status = .value .failed

theorem EditOf.refl (x : TimelineItem) : EditOf x x :=
  ⟨rfl, rfl, fun _ => rfl, rfl, rfl, rfl, .inl rfl⟩

variable {x y : TimelineItem}

theorem EditOf.trans {z : TimelineItem} (h : EditOf x y) (h' : EditOf y z) : EditOf x z where
  id := h'.id.trans h.id
  user := h'.user.trans h.user
  message c := (h'.message c).trans (h.message c)
  turn := h'.turn.trans h.turn
  execution := h'.execution.trans h.execution
  notice := h'.notice.trans h.notice
  status := by
    rcases h'.status with hs | hs
    · rw [hs]
      exact h.status
    · exact .inr hs

theorem EditOf.of_body (hid : y.id = x.id) (hbody : y.body = x.body)
    (hstatus : y.status = x.status ∨ y.status = .value .complete ∨ y.status = .value .failed) :
    EditOf x y where
  id := hid
  user := by simp only [TimelineItem.userClientId, hbody]
  message c := by simp only [TimelineItem.isMessageOf, hbody]
  turn := by simp only [itemTurnIdOf, TimelineItem.turnIdField, hbody]
  execution := by simp only [isExecution, hbody]
  notice := by simp only [isResolvedNotice, hbody]
  status := hstatus

theorem EditOf.of_message {m m' : MessageTimelineItem} (hx : x.body = .message m)
    (hy : y.body = .message m') (hid : y.id = x.id) (hrole : m'.role = m.role)
    (hclient : m'.clientMessageId = m.clientMessageId) (hturn : m'.turnId = m.turnId)
    (hnotice : m'.noticeResolved = m.noticeResolved)
    (hstatus : y.status = x.status ∨ y.status = .value .complete ∨ y.status = .value .failed) :
    EditOf x y where
  id := hid
  user := by simp only [TimelineItem.userClientId, hx, hy, hrole, hclient]
  message c := by simp only [TimelineItem.isMessageOf, hx, hy, hclient]
  turn := by simp only [itemTurnIdOf, TimelineItem.turnIdField, hx, hy, hturn]
  execution := by simp only [isExecution, hx, hy, hrole]
  notice := by simp only [isResolvedNotice, hx, hy, hnotice]
  status := hstatus

theorem EditOf.acknowledge (confirmed : List String) (x : TimelineItem) :
    EditOf x (acknowledge confirmed x) := by
  refine .of_body (acknowledge_id _ _) (acknowledge_body _ _) ?_
  rcases acknowledge_status confirmed x with h | h
  · exact .inl h
  · exact .inr (.inl h)

theorem EditOf.rekeyed (x : TimelineItem) : EditOf x (TimelineItem.rekeyed x) :=
  .of_body rfl rfl (.inl rfl)

theorem EditOf.withContent (content now : String) (x : TimelineItem) :
    EditOf x (withContent content now x) := by
  unfold Client.withContent
  split
  next m hm => exact .of_message hm rfl rfl rfl rfl rfl rfl (.inl rfl)
  · exact .refl x

theorem EditOf.promotedItem (input : OptimisticInput) (x : TimelineItem) :
    EditOf x (promotedItem input x) := by
  unfold Client.promotedItem
  split
  next m hm =>
    split_ifs
    · exact .of_message hm rfl rfl rfl rfl rfl rfl (.inr (.inl rfl))
    · exact .refl x
  · exact .refl x

theorem EditOf.terminalizeSettledItem (x : TimelineItem) : EditOf x (terminalizeSettledItem x) := by
  unfold Timeline.terminalizeSettledItem
  split
  next m hm =>
    split_ifs
    · exact .of_body rfl rfl (.inr (.inl rfl))
    · exact .of_message hm rfl rfl rfl rfl rfl rfl (.inr (.inl rfl))
    · exact .refl x
  next t ht =>
    split_ifs
    · exact .refl x
    · exact ⟨rfl, by simp [TimelineItem.userClientId, ht], fun c =>
        by simp [TimelineItem.isMessageOf, ht],
        by simp [itemTurnIdOf, TimelineItem.turnIdField, ht], by simp [isExecution, ht],
        by simp [isResolvedNotice, ht], .inr (.inl rfl)⟩
  next t _ =>
    split_ifs
    · exact .of_body rfl rfl (.inr (.inl rfl))
    · exact .refl x
  · exact .refl x

theorem EditOf.closePriorPhase (x : TimelineItem) : EditOf x (closePriorPhase x) := by
  unfold Client.closePriorPhase
  split
  next m hm =>
    split_ifs
    · exact .of_message hm rfl rfl rfl rfl rfl rfl (.inr (.inl rfl))
    · exact .refl x
  next t ht =>
    split_ifs
    · exact ⟨rfl, by simp [TimelineItem.userClientId, ht], fun c =>
        by simp [TimelineItem.isMessageOf, ht],
        by simp [itemTurnIdOf, TimelineItem.turnIdField, ht], by simp [isExecution, ht],
        by simp [isResolvedNotice, ht], .inr (.inl rfl)⟩
    · exact .refl x
  · exact .refl x

theorem EditOf.completed (x : TimelineItem) : EditOf x { x with status := .value .complete } :=
  .of_body rfl rfl (.inr (.inl rfl))

variable (s : ChatV2ClientState)

def Transition.newLocalItem : Transition → Option TimelineItem
  | .addOptimistic input | .promote input =>
    if s.localItems.any (·.isMessageOf input.clientMessageId) then none
    else some (optimisticUserItem s input)
  | .addSystem input =>
    if s.localItems.any (fun item => item.id = input.id) then none
    else some (localSystemItem s input)
  | _ => none

def Transition.deletes : Transition → Option String
  | .deleteQueued queueId hint _ => queuedClientMessageId s queueId hint
  | _ => none

/-- One list is made of another by leaving items out and editing the rest in place; the user
messages of every other client id than the deleted one stay. -/
structure EditsFrom (deleted : Option String) (l l' : List TimelineItem) : Prop where
  edited : ∃ k, k.Sublist l ∧ Forall₂ EditOf k l'
  keeps : ∀ x ∈ l, ∀ c, x.userClientId = some c → deleted ≠ some c → ∃ y ∈ l', EditOf x y

theorem sublist_of_forall₂_edits {l l' k' : List TimelineItem} (h : Forall₂ EditOf l l')
    (hk : k'.Sublist l') : ∃ k, k.Sublist l ∧ Forall₂ EditOf k k' := by
  induction h generalizing k' with
  | nil => exact ⟨[], .slnil, by rw [sublist_nil.mp hk]; exact .nil⟩
  | cons hab _ ih =>
    rcases sublist_cons_iff.mp hk with hk | ⟨r, rfl, hr⟩
    · obtain ⟨k, hkl, hf⟩ := ih hk
      exact ⟨k, hkl.cons _, hf⟩
    · obtain ⟨k, hkl, hf⟩ := ih hr
      exact ⟨_, hkl.cons_cons _, .cons hab hf⟩

theorem forall₂_edits_trans {l l' l'' : List TimelineItem} (h : Forall₂ EditOf l l')
    (h' : Forall₂ EditOf l' l'') : Forall₂ EditOf l l'' := by
  induction h generalizing l'' with
  | nil =>
    cases h'
    exact .nil
  | cons hab _ ih =>
    cases h' with
    | cons hbc htail => exact .cons (hab.trans hbc) (ih htail)

section

variable {deleted : Option String} {l l' l'' : List TimelineItem}

theorem EditsFrom.refl (l : List TimelineItem) : EditsFrom deleted l l where
  edited := ⟨l, .refl l, forall₂_same.mpr (fun x _ => .refl x)⟩
  keeps x hx _ _ _ := ⟨x, hx, .refl x⟩

theorem EditsFrom.trans (h : EditsFrom deleted l l') (h' : EditsFrom deleted l' l'') :
    EditsFrom deleted l l'' where
  edited := by
    obtain ⟨k, hk, hkl⟩ := h.edited
    obtain ⟨m, hm, hml⟩ := h'.edited
    obtain ⟨n, hn, hnm⟩ := sublist_of_forall₂_edits hkl hm
    exact ⟨n, hn.trans hk, forall₂_edits_trans hnm hml⟩
  keeps x hx c hc hd := by
    obtain ⟨y, hy, hxy⟩ := h.keeps x hx c hc hd
    obtain ⟨z, hz, hyz⟩ := h'.keeps y hy c (hxy.user.trans hc) hd
    exact ⟨z, hz, hxy.trans hyz⟩

theorem EditsFrom.exists_mem (h : EditsFrom deleted l l') (hy : y ∈ l') : ∃ x ∈ l, EditOf x y := by
  obtain ⟨k, hk, hf⟩ := h.edited
  obtain ⟨m, hm, hf⟩ := sublist_of_forall₂_edits hf (singleton_sublist.mpr hy)
  cases hf with
  | cons hxy htail =>
    cases htail
    exact ⟨_, hk.subset (singleton_sublist.mp hm), hxy⟩

theorem EditsFrom.pairwise {R : TimelineItem → TimelineItem → Prop}
    (hR : ∀ x y x' y', EditOf x x' → EditOf y y' → R x y → R x' y') (h : EditsFrom deleted l l')
    (hl : l.Pairwise R) : l'.Pairwise R := by
  obtain ⟨k, hk, hf⟩ := h.edited
  have hpair := hl.sublist hk
  clear hk h
  induction hf with
  | nil => exact .nil
  | @cons x x' k l' hxx' hf ih =>
    obtain ⟨hx, hk⟩ := pairwise_cons.mp hpair
    refine pairwise_cons.mpr ⟨fun y' hy' => ?_, ?_⟩
    · obtain ⟨m, hm, hyy'⟩ := sublist_of_forall₂_edits hf (singleton_sublist.mpr hy')
      cases hyy' with
      | cons hyy' htail =>
        cases htail
        exact hR x _ x' y' hxx' hyy' (hx _ (singleton_sublist.mp hm))
    · exact ih hk

theorem EditsFrom.map {f : TimelineItem → TimelineItem} (hf : ∀ x, EditOf x (f x))
    (l : List TimelineItem) : EditsFrom deleted l (l.map f) where
  edited := ⟨l, .refl l, forall₂_map_right_iff.mpr (forall₂_same.mpr (fun x _ => hf x))⟩
  keeps x hx _ _ _ := ⟨f x, mem_map_of_mem hx, hf x⟩

theorem retainsLocalItem_of_user {canonicalItems : List TimelineItem} {c : String}
    (h : x.userClientId = some c) : retainsLocalItem canonicalItems x := by
  unfold TimelineItem.userClientId at h
  split at h
  next m hm =>
    split_ifs at h with hr
    have hlegacy : isConfirmedLegacyAdmission x (itemIds canonicalItems) = false := by
      simp [isConfirmedLegacyAdmission, hm, h]
    simp [retainsLocalItem, hlegacy, TimelineItem.userClientId, hm, hr, h]
  next => cases h

theorem EditsFrom.reconcile (l canonicalItems : List TimelineItem) :
    EditsFrom deleted l (reconcileLocalItems l canonicalItems) := by
  have hfilter : EditsFrom deleted l (l.filter (retainsLocalItem canonicalItems)) :=
    ⟨⟨_, filter_sublist, forall₂_same.mpr (fun x _ => .refl x)⟩,
      fun x hx c hc _ => ⟨x, mem_filter.mpr ⟨hx, retainsLocalItem_of_user hc⟩, .refl x⟩⟩
  exact hfilter.trans (.map (.acknowledge _) _)

end

section

variable {deleted : Option String} (s : ChatV2ClientState)

theorem EditsFrom.receipts (receipts : List BoundaryReceipt) (now : String) :
    EditsFrom deleted s.localItems (applyBoundaryReceipts s receipts now).localItems := by
  refine applyBoundaryReceipts_induct s (P := fun t => EditsFrom deleted s.localItems t.localItems)
    (fun t receipt h => h.trans ?_) receipts (.refl _)
  unfold applyReceipt
  split
  · split_ifs
    · refine .map (fun x => ?_) _
      split_ifs
      · exact .completed x
      · exact .refl x
    · exact .refl _
  · exact .refl _

theorem EditsFrom.applyOps (ops : List ChatViewOp) :
    EditsFrom deleted s.localItems (applyOps s ops).localItems := by
  dsimp only [Client.applyOps]
  split_ifs
  · exact .reconcile _ _
  · exact .refl _

theorem EditsFrom.send (response : SendMessageV2Response) :
    EditsFrom deleted s.localItems (applySendResponse s response).localItems := by
  unfold applySendResponse
  split_ifs
  · exact .refl _
  · refine .map (fun x => ?_) _
    split_ifs
    · exact .of_body rfl rfl (.inr (.inl rfl))
    · exact .refl x

theorem EditsFrom.markFailed (clientMessageId now : String) : EditsFrom deleted s.localItems
      (markOptimisticUserMessageFailed s clientMessageId now).localItems := by
  unfold markOptimisticUserMessageFailed
  by_cases h : ((s.admissionPlacements.get? clientMessageId).map (·.status)) = some .complete
      ∨ s.localItems.any (fun item => item.isMessageOf clientMessageId
        && item.status.get = some .complete)
      ∨ (canonicalUserClientMessageIds s.timelineItems).contains clientMessageId
  · rw [if_pos h]
    exact .refl _
  · rw [if_neg h]
    refine .map (fun x => ?_) _
    split_ifs
    · exact .of_body rfl rfl (.inr (.inr rfl))
    · exact .refl x

theorem EditsFrom.updateQueued (queueId content : String) (hint : QueueHint) (now : String) :
    EditsFrom deleted s.localItems
      (updateQueuedAdmissionContent s queueId content hint now).localItems := by
  unfold updateQueuedAdmissionContent
  split
  · exact .refl _
  · split_ifs
    · exact .refl _
    · refine .map (fun x => ?_) _
      split_ifs
      · exact .withContent _ _ x
      · exact .refl x

theorem isUserMessageOf_iff {c : String} (hc : c ≠ "") :
    x.isUserMessageOf c ↔ x.userClientId = some c := by
  unfold TimelineItem.isUserMessageOf TimelineItem.userClientId
  split
  next m _ =>
    by_cases hr : m.role = .user
    · rw [if_pos hr, JsField.truthy_eq_some]
      simp [hr, hc]
    · simp [hr]
  next => simp

theorem EditsFrom.deleteQueued (queueId : String) (hint : Option String) (now : String) :
    EditsFrom (queuedClientMessageId s queueId hint) s.localItems
      (deleteQueuedAdmission s queueId hint now).localItems := by
  unfold deleteQueuedAdmission
  cases hq : queuedClientMessageId s queueId hint with
  | none => exact .refl _
  | some d =>
    refine ⟨⟨_, filter_sublist, forall₂_same.mpr (fun x _ => .refl x)⟩, ?_⟩
    intro x hx c hc hd
    refine ⟨x, mem_filter.mpr ⟨hx, ?_⟩, .refl x⟩
    simp only [not_eq_true']
    rw [← not_eq_true]
    intro huser
    by_cases hempty : d = ""
    · subst hempty
      unfold queuedClientMessageId at hq
      dsimp only at hq
      split_ifs at hq with hnone
      exact hnone hq
    · rw [isUserMessageOf_iff hempty, hc] at huser
      exact hd huser.symm

end

theorem foldl_applyOp_unchanged (ops : List ChatViewOp) (t : OpTarget)
    (h : (ops.foldl applyOp t).timelineChanged = false) :
    t.timelineChanged = false ∧ (ops.foldl applyOp t).timeline = t.timeline := by
  induction ops generalizing t with
  | nil => exact ⟨h, rfl⟩
  | cons op ops ih =>
    obtain ⟨hch, htl⟩ := ih (applyOp t op) h
    rw [foldl_cons, htl]
    cases op with
    | upsertItem => simp [applyOp] at hch
    | removeItem id =>
      dsimp only [applyOp] at hch ⊢
      split_ifs at hch ⊢
      exact ⟨hch, rfl⟩
    | _ => exact ⟨hch, rfl⟩

def Transition.inScope : Transition → Bool
  | .snapshot response adopt => (scopedPrevious response adopt (some s)).isSome
  | _ => true

def Transition.baseLocal (t : Transition) : List TimelineItem :=
  if t.inScope s then s.localItems else []

def NoAdmission (t : Transition) : Prop :=
  (t.inScope s = true ∧ (step s t).runtime = s.runtime) ∨
    ∀ x ∈ (step s t).volatileItems, x.userClientId = none

/-- Where the local items after a transition come from. -/
inductive LocalSource (s : ChatV2ClientState) (t : Transition) : List TimelineItem → Prop
  | held {l : List TimelineItem} : EditsFrom (t.deletes s) (t.baseLocal s) l → NoAdmission s t →
      LocalSource s t l
  | minted {x : TimelineItem} : t.newLocalItem s = some x → NoAdmission s t →
      LocalSource s t (s.localItems ++ [x])
  | carried {l c : List TimelineItem} {current : Option RuntimeOverlaySnapshot} :
      EditsFrom (t.deletes s) (t.baseLocal s) l → (current = s.runtime ∨ current = none) →
      carrySettledRuntimeItems l current (step s t).runtime = some c → LocalSource s t c

/-- Either the canonical items are as they were and local ones are edited, or the local ones
are reconciled with the canonical ones and edited. -/
def LocalStep (t : Transition) (timeline : Indexed)
    (localItems : List TimelineItem) : Prop :=
  (timeline = s.timeline ∧ NoAdmission s t ∧ t.inScope s = true ∧
    EditsFrom (t.deletes s) s.localItems localItems) ∨
  ∃ l, LocalSource s t l ∧ EditsFrom (t.deletes s) (reconcileLocalItems l timeline.items) localItems

theorem userClientId_of_carry_none {l : List TimelineItem}
    {current runtime : Option RuntimeOverlaySnapshot}
    (h : carrySettledRuntimeItems l current runtime = none) :
    ∀ x ∈ overlayItems runtime, x.userClientId = none := by
  intro x hx
  obtain ⟨inc, rfl, _⟩ := mem_overlayItems.mp hx
  obtain ⟨hadmits, -⟩ := Option.or_eq_none_iff.mp h
  unfold admitRuntimeUserItems at hadmits
  dsimp only at hadmits
  split_ifs at hadmits with hempty
  by_contra hne
  have hmem : x ∈ inc.volatileItems.filter (fun item => item.userClientId.isSome) :=
    mem_filter.mpr ⟨hx, Option.isSome_iff_ne_none.mpr hne⟩
  rw [List.isEmpty_iff.mp hempty] at hmem
  cases hmem

section

variable {s s' : ChatV2ClientState} {t : Transition}

theorem LocalSource.of_carry {l : List TimelineItem} {current : Option RuntimeOverlaySnapshot}
    (hl : EditsFrom (t.deletes s) (t.baseLocal s) l) (hcur : current = s.runtime ∨ current = none) :
    LocalSource s t ((carrySettledRuntimeItems l current (step s t).runtime).getD l) := by
  cases hc : carrySettledRuntimeItems l current (step s t).runtime with
  | none => exact .held hl (.inr (userClientId_of_carry_none hc))
  | some c => exact .carried hl hcur hc

theorem LocalStep.withRuntime (hscope : t.inScope s) (htl : s'.runtime = s.runtime)
    (hl : EditsFrom (t.deletes s) s.localItems s'.localItems)
    (h : NoAdmission s t → LocalStep s t s'.timeline s'.localItems)
    {runtime : Option RuntimeOverlaySnapshot} (hr : (step s t).runtime = runtime) :
    LocalStep s t s'.timeline (withRuntime s' runtime).localItems := by
  dsimp only [Client.withRuntime]
  cases hc : carrySettledRuntimeItems s'.localItems s'.runtime runtime with
  | none =>
    refine h (.inr ?_)
    rw [ChatV2ClientState.volatileItems, hr]
    exact userClientId_of_carry_none hc
  | some c =>
    refine .inr ⟨c, .carried ?_ (.inl htl) (hr ▸ hc), .refl _⟩
    rwa [Transition.baseLocal, if_pos hscope]

theorem LocalStep.applyOps (hscope : t.inScope s) (ops : List ChatViewOp)
    (htl : s'.timeline = s.timeline) (hl : EditsFrom (t.deletes s) s.localItems s'.localItems)
    (hn : NoAdmission s t) :
    LocalStep s t (applyOps s' ops).timeline (applyOps s' ops).localItems := by
  dsimp only [Client.applyOps]
  split_ifs with hch
  · refine .inr ⟨_, .held ?_ hn, .refl _⟩
    rwa [Transition.baseLocal, if_pos hscope]
  · have hun := foldl_applyOp_unchanged ops s'.opTarget (by simpa using hch)
    exact .inl ⟨hun.2.trans htl, hn, hscope, hl⟩

theorem step_localItems (s : ChatV2ClientState) (t : Transition) :
    LocalStep s t (step s t).timeline (step s t).localItems := by
  have hedit (h : ¬ t.serverDriven) :
      (step s t).timeline = s.timeline ∧ (step s t).runtime = s.runtime := by
    obtain ⟨_, _, hstep⟩ := (serverDriven_or_edit s t).resolve_left h
    exact hstep ▸ ⟨rfl, rfl⟩
  cases t with
  | snapshot response adopt =>
    have hbase : (((scopedPrevious response adopt (some s)).map (·.localItems)).getD []) =
        (Transition.snapshot response adopt).baseLocal s ∧
        (((scopedPrevious response adopt (some s)).bind (·.runtime)) = s.runtime ∨
          ((scopedPrevious response adopt (some s)).bind (·.runtime)) = none) := by
      change _ =
        (if (scopedPrevious response adopt (some s)).isSome = true then s.localItems else []) ∧ _
      cases hp : scopedPrevious response adopt (some s) with
      | none => exact ⟨rfl, .inr rfl⟩
      | some p =>
        rcases scopedPrevious_timeline hp with rfl | ⟨-, hr, hl, -⟩
        · exact ⟨rfl, .inl rfl⟩
        · exact ⟨hl, .inl hr⟩
    refine .inr ⟨_, LocalSource.of_carry ?_ hbase.2, .refl _⟩
    rw [hbase.1]
    exact .refl _
  | backfill response =>
    simp only [step, applyBackfill, applyBackfillResult]
    have hruntime : (step s (.backfill response)).runtime = s.runtime := by
      simp only [step, applyBackfill, applyBackfillResult]
      split_ifs <;> rfl
    split_ifs
    · exact .inl ⟨rfl, .inl ⟨rfl, hruntime⟩, rfl, .refl _⟩
    · exact .inl ⟨rfl, .inl ⟨rfl, hruntime⟩, rfl, .refl _⟩
    · exact .inr ⟨_, .held (.refl _) (.inl ⟨rfl, hruntime⟩), .refl _⟩
  | sync payload now =>
    have hl : EditsFrom ((Transition.sync payload now).deletes s) s.localItems _ :=
      EditsFrom.receipts s payload.receipts now
    have htl := applyBoundaryReceipts_timeline s payload.receipts now
    have hrt := applyBoundaryReceipts_runtime s payload.receipts now
    rcases applyScopedSync_cases s payload now with ⟨-, _, _, hst⟩ | ⟨-, received, rfl, hst⟩
    · have hstep : step s (.sync payload now) = _ := hst
      refine .inl ⟨?_, .inl ⟨rfl, ?_⟩, rfl, ?_⟩ <;> rw [hstep]
      · rfl
      · rfl
      · exact .refl _
    · rcases hst with ⟨_, _, hst, -⟩ | ⟨-, hst⟩ | ⟨-, -, r, _, hst⟩ | ⟨-, -, hst⟩ <;>
        have hstep : step s (.sync payload now) = _ := hst
      · refine .inl ⟨?_, .inl ⟨rfl, ?_⟩, rfl, ?_⟩ <;> rw [hstep]
        · exact htl
        · exact hrt
        · exact hl
      · refine .inl ⟨?_, .inl ⟨rfl, ?_⟩, rfl, ?_⟩ <;> rw [hstep]
        · exact htl
        · exact hrt
        · exact hl
      · have hruntime : (step s (.sync payload now)).runtime = some r := by rw [hstep]; rfl
        rw [hstep]
        exact LocalStep.withRuntime rfl hrt hl (fun hn => .inl ⟨htl, hn, rfl, hl⟩) hruntime
      · have hruntime : (step s (.sync payload now)).runtime = maybeApplyRuntime
            (applyBoundaryReceipts s payload.receipts now).runtime payload.runtime := by
          rw [hstep]
          rfl
        have hops : (applyOps (applyBoundaryReceipts s payload.receipts now) payload.ops).runtime =
            s.runtime := hrt
        rw [hstep]
        exact LocalStep.withRuntime rfl hops (hl.trans (.applyOps _ _))
          (.applyOps rfl _ htl hl) hruntime
  | send response =>
    refine .inl ⟨?_, .inl ⟨rfl, ?_⟩, rfl, EditsFrom.send s response⟩ <;>
      (simp only [step, applySendResponse]; split_ifs <;> rfl)
  | cancel response =>
    by_cases hconv : s.conversationId ≠ some response.conversationId
    · have hstep : step s (.cancel response) = _ := if_pos hconv
      refine .inl ⟨?_, .inl ⟨rfl, ?_⟩, rfl, ?_⟩ <;> rw [hstep]
      · rfl
      · rfl
      · exact .refl _
    · have hstep : (step s (.cancel response)).timeline = s.timeline ∧
          (step s (.cancel response)).localItems =
            (withRuntime s (maybeApplyRuntime s.runtime response.runtime)).localItems ∧
          (step s (.cancel response)).runtime = maybeApplyRuntime s.runtime response.runtime := by
        rw [step, applyCancelResponse, if_neg hconv]
        exact ⟨rfl, rfl, rfl⟩
      rw [hstep.1, hstep.2.1]
      exact LocalStep.withRuntime rfl rfl (.refl _)
        (fun hn => .inl ⟨rfl, hn, rfl, .refl _⟩) hstep.2.2
  | queueMutation response =>
    by_cases hconv : s.conversationId ≠ some response.conversationId
    · have hstep : step s (.queueMutation response) = _ := if_pos hconv
      refine .inl ⟨?_, .inl ⟨rfl, ?_⟩, rfl, ?_⟩ <;> rw [hstep]
      · rfl
      · rfl
      · exact .refl _
    · have hstep : (step s (.queueMutation response)).timeline = s.timeline ∧
          (step s (.queueMutation response)).localItems =
            (withRuntime s (maybeApplyRuntime s.runtime response.runtime)).localItems ∧
          (step s (.queueMutation response)).runtime =
            maybeApplyRuntime s.runtime response.runtime := by
        rw [step, applyQueueMutationResponse, if_neg hconv]
        exact ⟨rfl, rfl, rfl⟩
      rw [hstep.1, hstep.2.1]
      exact LocalStep.withRuntime rfl rfl (.refl _)
        (fun hn => .inl ⟨rfl, hn, rfl, .refl _⟩) hstep.2.2
  | addOptimistic =>
    obtain ⟨-, hruntime⟩ := hedit false_ne_true
    simp only [step, addOptimisticUserMessage]
    split_ifs with hany
    · exact .inl ⟨rfl, .inl ⟨rfl, hruntime⟩, rfl, .refl _⟩
    · exact .inr ⟨_, .minted (if_neg hany) (.inl ⟨rfl, hruntime⟩), .refl _⟩
  | promote input =>
    obtain ⟨-, hruntime⟩ := hedit false_ne_true
    have hpromoted (l : List TimelineItem) : EditsFrom none l (l.map (promotedItem input)) :=
      EditsFrom.map (EditOf.promotedItem input) l
    simp only [step, promoteQueuedUserMessage]
    split_ifs with hany
    · exact .inl ⟨rfl, .inl ⟨rfl, hruntime⟩, rfl, hpromoted _⟩
    · rw [addOptimisticUserMessage, if_neg hany]
      exact .inr ⟨_, .minted (if_neg hany) (.inl ⟨rfl, hruntime⟩), hpromoted _⟩
  | markFailed clientMessageId now =>
    obtain ⟨htimeline, hruntime⟩ := hedit false_ne_true
    exact .inl ⟨htimeline, .inl ⟨rfl, hruntime⟩, rfl, EditsFrom.markFailed s clientMessageId now⟩
  | updateQueued queueId content hint now =>
    obtain ⟨htimeline, hruntime⟩ := hedit false_ne_true
    exact .inl
      ⟨htimeline, .inl ⟨rfl, hruntime⟩, rfl, EditsFrom.updateQueued s queueId content hint now⟩
  | deleteQueued queueId hint now =>
    obtain ⟨htimeline, hruntime⟩ := hedit false_ne_true
    exact .inl ⟨htimeline, .inl ⟨rfl, hruntime⟩, rfl, EditsFrom.deleteQueued s queueId hint now⟩
  | addSystem =>
    obtain ⟨-, hruntime⟩ := hedit false_ne_true
    simp only [step, addLocalSystemMessage]
    split_ifs with hany
    · exact .inl ⟨rfl, .inl ⟨rfl, hruntime⟩, rfl, .refl _⟩
    · exact .inr ⟨_, .minted (if_neg hany) (.inl ⟨rfl, hruntime⟩), .refl _⟩

theorem inScope_of_newLocalItem (h : t.newLocalItem s = some x) : t.inScope s := by
  cases t with
  | snapshot => cases h
  | _ => rfl

variable {P : TimelineItem → Prop}

theorem baseLocal_all (h : ∀ x ∈ s.localItems, P x) :
    ∀ x ∈ t.baseLocal s, P x := by
  unfold Transition.baseLocal
  split_ifs
  · exact h
  · simp

/-- A property of local items that edits keep, and that carried, admitted and minted items
have, is kept by every transition. -/
theorem step_local_all (hedit : ∀ x y, EditOf x y → P x → P y) (h : ∀ x ∈ t.baseLocal s, P x)
    (hcarried : ∀ x ∈ s.volatileItems, P (terminalizeSettledItem x))
    (hadmits : ∀ x ∈ (step s t).volatileItems, x.userClientId.isSome →
      P { x with status := .value .complete })
    (hmerge : ∀ e, ∀ x ∈ (step s t).volatileItems, x.userClientId.isSome → e.id = x.id → P e →
      P (mergeTimelineItem e { x with status := .value .complete }))
    (hnew : ∀ x, t.newLocalItem s = some x → P x) : ∀ x ∈ (step s t).localItems, P x := by
  have hedits {l l' : List TimelineItem} (he : EditsFrom (t.deletes s) l l') (hl : ∀ x ∈ l, P x) :
      ∀ x ∈ l', P x := by
    intro y hy
    obtain ⟨x, hx, hxy⟩ := he.exists_mem hy
    exact hedit x y hxy (hl x hx)
  rcases step_localItems s t with ⟨-, -, hscope, he⟩ | ⟨l, hsource, he⟩
  · rw [Transition.baseLocal, if_pos hscope] at h
    exact hedits he h
  · refine hedits he (hedits (.reconcile _ _) ?_)
    cases hsource with
    | held hl _ => exact hedits hl h
    | minted hx _ =>
      intro x hmem
      rcases mem_append.mp hmem with hmem | hmem
      · rw [Transition.baseLocal, if_pos (inScope_of_newLocalItem hx)] at h
        exact h x hmem
      · exact hnew x (mem_singleton.mp hmem ▸ hx)
    | carried hl hcur hc =>
      refine carrySettledRuntimeItems_all hc (hedits hl h) (fun x hx => hedit _ _ (.rekeyed x) hx)
        (fun c hcurrent x hx => hcarried x ?_)
        (fun i hi x hx => hadmits x (mem_volatileItems.mpr ⟨i, hi, hx⟩))
        (fun i hi e x hx => hmerge e x (mem_volatileItems.mpr ⟨i, hi, hx⟩))
      rcases hcur with rfl | rfl
      · exact mem_volatileItems.mpr ⟨c, hcurrent, hx⟩
      · cases hcurrent

end

def Apart (localItems : List TimelineItem) (canonicalItems : List TimelineItem) : Prop :=
  ∀ x ∈ localItems, x.userClientId = none → x.id ∉ itemIds canonicalItems

theorem Apart.edits {deleted : Option String} {l l' canonicalItems : List TimelineItem}
    (h : Apart l canonicalItems) (he : EditsFrom deleted l l') : Apart l' canonicalItems := by
  intro y hy huser
  obtain ⟨x, hx, hxy⟩ := he.exists_mem hy
  rw [hxy.id]
  exact h x hx (hxy.user ▸ huser)

theorem apart_reconcileLocalItems (l canonicalItems : List TimelineItem) :
    Apart (reconcileLocalItems l canonicalItems) canonicalItems := by
  intro y hy huser hmem
  obtain ⟨x, -, hretain, rfl⟩ := mem_reconcileLocalItems.mp hy
  have hack := EditOf.acknowledge (canonicalUserClientMessageIds canonicalItems) x
  rw [hack.id] at hmem
  rw [hack.user] at huser
  simp [retainsLocalItem, huser, hmem] at hretain

theorem step_apart {s : ChatV2ClientState} (t : Transition)
    (h : Apart s.localItems s.timelineItems) :
    Apart (step s t).localItems (step s t).timelineItems := by
  rcases step_localItems s t with ⟨htl, -, -, he⟩ | ⟨l, -, he⟩
  · refine Apart.edits ?_ he
    rwa [ChatV2ClientState.timelineItems, htl]
  · exact (apart_reconcileLocalItems l _).edits he

@[simp] theorem terminalizeSettledItem_id (item : TimelineItem) :
    (terminalizeSettledItem item).id = item.id := by
  unfold terminalizeSettledItem
  repeat' split
  all_goals rfl

@[simp] theorem settleForRuntime_id (runtime : RuntimeOverlaySnapshot) (item : TimelineItem) :
    (settleForRuntime runtime item).id = item.id := by
  unfold settleForRuntime
  repeat' split
  all_goals simp

theorem itemIds_runtimeAdjustedCanonicalItems :
    itemIds (runtimeAdjustedCanonicalItems s) = itemIds s.timelineItems := by
  unfold runtimeAdjustedCanonicalItems
  split
  · rfl
  · simp [itemIds]

theorem localHistoryPlacement_eq (item : TimelineItem) :
    ∃ k, localHistoryPlacement s item = { item with sortKey := k } := by
  unfold localHistoryPlacement
  repeat' split
  all_goals exact ⟨_, rfl⟩

theorem showLocal_eq_some {s : ChatV2ClientState} (h : showLocal s x = some y) :
    ∃ k, y = { x with sortKey := k } := by
  unfold showLocal at h
  split_ifs at h
  cases h
  exact localHistoryPlacement_eq s x

theorem mem_visibleBase {s : ChatV2ClientState} (h : x ∈ visibleBase s) :
    x ∈ runtimeAdjustedCanonicalItems s := (mem_filter.mp h).1

theorem showRuntime_cases (v : Indexed) (r : TimelineItem) :
    showRuntime s v r = v ∨
    (r.userClientId.isSome ∧
      showRuntime s v r = upsertMerged v { r with status := .value .complete }) ∨
    (r.userClientId = none ∧ showRuntime s v r = upsertMerged v r) := by
  unfold showRuntime
  cases hu : r.userClientId with
  | none =>
    split_ifs
    · exact .inl rfl
    · exact .inl rfl
    · exact .inr (.inr ⟨rfl, rfl⟩)
  | some c =>
    dsimp only
    split_ifs
    · exact .inl rfl
    · exact .inl rfl
    · exact .inr (.inl ⟨rfl, rfl⟩)

end Cognis.Client
