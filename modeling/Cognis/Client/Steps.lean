import Cognis.Client.Engine
import Cognis.Library.Runs

namespace Cognis.Client

open List SortByKey Timeline

def RunMeets (P : ChatV2ClientState → Transition → Prop) :
    ChatV2ClientState → List Transition → Prop
  | _, [] => True
  | s, t :: ts => P s t ∧ RunMeets P (step s t) ts

variable {I : ChatV2ClientState → Prop} {ts : List Transition}
  {localItems items out : List TimelineItem} {x : TimelineItem}
  {incoming r : RuntimeOverlaySnapshot} {byId : OrderedMap String TimelineItem}
  {current : Option RuntimeOverlaySnapshot}

variable {P : ChatV2ClientState → Transition → Prop} {s : ChatV2ClientState}

theorem run_preserves (hstep : ∀ s t, I s → P s t → I (step s t)) (hs : I s)
    (h : RunMeets P s ts) : I (run s ts) := by
  induction ts generalizing s with
  | nil => exact hs
  | cons t ts ih => exact ih (hstep s t hs h.1) h.2

theorem run_preserves_of_mem (hstep : ∀ s, ∀ t ∈ ts, I s → I (step s t)) (hs : I s) :
    I (run s ts) := by
  induction ts generalizing s with
  | nil => exact hs
  | cons t ts ih =>
    exact ih (fun s t ht => hstep s t (mem_cons_of_mem _ ht)) (hstep s t mem_cons_self hs)

/-- Where a step preserves the invariant exactly when the condition holds, a run keeps the
invariant in all its states exactly when all its steps meet the condition. -/
theorem run_preserves_iff (hstep : ∀ s, ∀ t ∈ ts, I s → (I (step s t) ↔ P s t)) (hs : I s) :
    (∀ pre, pre <+: ts → I (run s pre)) ↔ RunMeets P s ts := by
  have hmeets : RunMeets P s ts ↔ Runs.Meets step P s ts := by
    clear hstep hs
    induction ts generalizing s with
    | nil => rfl
    | cons t ts ih => exact and_congr_right' ih
  rw [hmeets]
  exact Runs.forall_prefix_iff_meets_of_invariant (fun _ => True) I ts
    (fun s t ht _ hI => ⟨trivial, hstep s t ht hI⟩) trivial hs

/-- Two items merge to a message only by one of them, or as messages of one role. -/
theorem message_mergeTimelineItem {e i : TimelineItem} {m : MessageTimelineItem}
    (h : (mergeTimelineItem e i).body = .message m) :
    mergeTimelineItem e i = e ∨ mergeTimelineItem e i = i ∨
      ∃ em im, e.body = .message em ∧ i.body = .message im ∧ em.role = im.role ∧
        (mergeTimelineItem e i).status = e.status.spread i.status ∧ m = mergeMessage em im := by
  generalize hmerged : mergeTimelineItem e i = merged at h ⊢
  unfold mergeTimelineItem at hmerged
  split at hmerged
  next => simp [← hmerged, mergeHandoff, spreadBase] at h
  next =>
    unfold mergeCompaction at hmerged
    split_ifs at hmerged
    · exact .inl hmerged.symm
    · simp [← hmerged, spreadBase] at h
  next => simp [← hmerged, mergeToolCallItem, spreadBase] at h
  next => simp [← hmerged, mergeThinkingItem, spreadBase] at h
  next em im he hi =>
    unfold mergeMessageItem at hmerged
    split_ifs at hmerged with hrole hkeep
    · exact .inr (.inl hmerged.symm)
    · exact .inl hmerged.symm
    · subst hmerged
      exact .inr (.inr ⟨em, im, he, hi, not_not.mp hrole, rfl, (ItemBody.message.inj h).symm⟩)
  next =>
    unfold mergeOther at hmerged
    split_ifs at hmerged
    · simp [← hmerged, spreadBase] at h
    · exact .inr (.inl hmerged.symm)
  next => exact .inr (.inl hmerged.symm)

def SyncPayload.receipts (r : SyncPayload) : List BoundaryReceipt :=
  (r.runtime.map (·.boundaryReceipts)).getD []

def Admits (s : ChatV2ClientState) (r : SyncPayload) : Prop :=
  s.scopeKey = some (responseScope r.scope r.conversationId).key ∧
  s.conversationId = some r.conversationId ∧ (!r.realtime && r.resetRequired) = false ∧
  s.projectionVersion = some r.projectionVersion

theorem applyScopedSync_cases (s : ChatV2ClientState) (r : SyncPayload) (now : String) :
    (¬ Admits s r ∧ ∃ reason message, (applyScopedSync s r now).state = markGapped s reason message)
      ∨
    (Admits s r ∧ ∃ received, received = applyBoundaryReceipts s r.receipts now ∧
      ((∃ reason message, (applyScopedSync s r now).state = markGapped received reason message ∧
          ¬ (received.cursor = some r.cursorBefore ∧ r.ops.findSome? resetOpReason = none)) ∨
        (received.cursor ≠ some r.cursorBefore ∧ (applyScopedSync s r now).state = received) ∨
        (received.cursor ≠ some r.cursorBefore ∧ r.runtimeOnly ∧ ∃ runtime,
          decideRuntime received.runtime r.runtime = .accept runtime ∧
          (applyScopedSync s r now).state =
            { withRuntime received (some runtime) with lastError := none }) ∨
        (received.cursor = some r.cursorBefore ∧ r.ops.findSome? resetOpReason = none ∧
          (applyScopedSync s r now).state = applyInOrder received r))) := by
  unfold applyScopedSync
  by_cases hscope : s.scopeKey = some (responseScope r.scope r.conversationId).key
  swap
  · rw [if_pos hscope]
    exact .inl ⟨fun h => hscope h.1, _, _, rfl⟩
  rw [if_neg (by simpa using hscope)]
  unfold applySyncLike
  by_cases hconv : s.conversationId = some r.conversationId
  swap
  · rw [if_pos hconv]
    exact .inl ⟨fun h => hconv h.2.1, _, _, rfl⟩
  rw [if_neg (by simpa using hconv)]
  cases hreset : (!r.realtime && r.resetRequired) with
  | true =>
    exact .inl ⟨fun h => by simp [Admits, hreset] at h, _, _, rfl⟩
  | false =>
  rw [if_neg (by simp)]
  by_cases hver : s.projectionVersion = some r.projectionVersion
  swap
  · rw [if_pos hver]
    exact .inl ⟨fun h => hver h.2.2.2, _, _, rfl⟩
  rw [if_neg (by simpa using hver)]
  refine .inr ⟨⟨hscope, hconv, hreset, hver⟩, _, rfl, ?_⟩
  dsimp only [SyncPayload.receipts]
  generalize applyBoundaryReceipts s ((r.runtime.map (·.boundaryReceipts)).getD []) now = received
  by_cases hcur : received.cursor = some r.cursorBefore
  · rw [if_neg (by simp [hcur]), if_neg (by simp [hcur]), if_neg (by simp [hcur])]
    cases hop : r.ops.findSome? resetOpReason with
    | none => exact .inr (.inr (.inr ⟨hcur, rfl, rfl⟩))
    | some => exact .inl ⟨_, _, rfl, by simp⟩
  · cases hro : r.runtimeOnly with
    | true =>
      rw [if_pos (by simp [hcur])]
      cases hdec : decideRuntime received.runtime r.runtime with
      | keep => exact .inr (.inl ⟨hcur, rfl⟩)
      | accept runtime => exact .inr (.inr (.inl ⟨hcur, rfl, runtime, rfl, rfl⟩))
    | false =>
      rw [if_neg (by simp)]
      by_cases hafter : received.cursor = some r.cursorAfter
      · rw [if_pos ⟨hafter, hcur⟩]
        exact .inr (.inl ⟨hcur, rfl⟩)
      · rw [if_neg (by simp [hafter]), if_pos hcur]
        exact .inl ⟨_, _, rfl, by simp [hcur]⟩

/-- The transitions that answer the user's own actions in the browser are left out. -/
def Transition.serverDriven : Transition → Bool
  | .snapshot .. | .backfill _ | .sync .. | .send _ | .cancel _ | .queueMutation _ => true
  | _ => false

/-- An edit in the browser changes the local items and the admission placements only. -/
theorem serverDriven_or_edit (s : ChatV2ClientState) (t : Transition) : t.serverDriven ∨
    ∃ localItems admissionPlacements, step s t = { s with localItems, admissionPlacements } := by
  cases t with
  | addOptimistic =>
    simp only [step, addOptimisticUserMessage]
    split_ifs <;> exact .inr ⟨_, _, rfl⟩
  | promote =>
    simp only [step, promoteQueuedUserMessage, addOptimisticUserMessage]
    split_ifs <;> exact .inr ⟨_, _, rfl⟩
  | markFailed =>
    simp only [step, markOptimisticUserMessageFailed]
    split_ifs <;> exact .inr ⟨_, _, rfl⟩
  | updateQueued =>
    simp only [step, updateQueuedAdmissionContent]
    split
    · exact .inr ⟨_, _, rfl⟩
    · split_ifs <;> exact .inr ⟨_, _, rfl⟩
  | deleteQueued =>
    simp only [step, deleteQueuedAdmission]
    split <;> exact .inr ⟨_, _, rfl⟩
  | addSystem =>
    simp only [step, addLocalSystemMessage]
    split_ifs <;> exact .inr ⟨_, _, rfl⟩
  | _ => exact .inl rfl

section

variable (s : ChatV2ClientState)

@[simp] theorem applyReceipt_timeline (receipt : BoundaryReceipt) (now : String) :
    (applyReceipt s receipt now).timeline = s.timeline := by
  unfold applyReceipt
  split
  · split_ifs <;> rfl
  · rfl

theorem applyBoundaryReceipts_induct {P : ChatV2ClientState → Prop} {now : String}
    (hP : ∀ s receipt, P s → P (applyReceipt s receipt now)) (receipts : List BoundaryReceipt)
    (h : P s) : P (applyBoundaryReceipts s receipts now) := by
  induction receipts generalizing s with
  | nil => exact h
  | cons receipt _ ih => exact ih _ (hP s receipt h)

@[simp] theorem applyBoundaryReceipts_timeline (receipts : List BoundaryReceipt) (now : String) :
    (applyBoundaryReceipts s receipts now).timeline = s.timeline :=
  applyBoundaryReceipts_induct s (P := fun t => t.timeline = s.timeline)
    (fun t receipt h => (applyReceipt_timeline t receipt now).trans h) receipts rfl

@[simp] theorem applyReceipt_runtime (receipt : BoundaryReceipt) (now : String) :
    (applyReceipt s receipt now).runtime = s.runtime := by
  unfold applyReceipt
  split
  · split_ifs <;> rfl
  · rfl

theorem applyBoundaryReceipts_runtime (receipts : List BoundaryReceipt) (now : String) :
    (applyBoundaryReceipts s receipts now).runtime = s.runtime :=
  applyBoundaryReceipts_induct s (P := fun t => t.runtime = s.runtime)
    (fun t receipt h => (applyReceipt_runtime t receipt now).trans h) receipts rfl

end

def noticeItem (id sortKey : String) : TimelineItem where
  id := id
  sortKey := sortKey
  stable := true
  status := .value .complete
  body := .message { role := .system, content := id, messageId := id }

/-- A snapshot page of conversation `c` with these items. -/
def pageSnapshot (items : List TimelineItem) (hasMoreBefore : Bool) : ChatSnapshot where
  projectionVersion := "v9"
  conversation := some ⟨"c", ""⟩
  timeline := ⟨items, hasMoreBefore, none⟩
  state := none
  queue := none
  runtime := none
  cursor := some "k"

def overlayOf (activeTurn : Option String) (items : List TimelineItem) :
    RuntimeOverlaySnapshot where
  runtimeEpoch := "e"
  runtimeRevision := 1
  generatedAt := ""
  hasActiveTurn := activeTurn.isSome
  activeTurn := activeTurn.map (fun turnId => ⟨turnId, "s"⟩)
  volatileItems := items

def openWith (items : List TimelineItem) (overlay : RuntimeOverlaySnapshot) : Transition :=
  .snapshot { pageSnapshot items false with runtime := some overlay } false

variable (confirmed : List String) (item : TimelineItem)

@[simp] theorem acknowledge_id : (acknowledge confirmed item).id = item.id := by
  unfold acknowledge
  split
  · split_ifs <;> rfl
  · rfl

@[simp] theorem acknowledge_body : (acknowledge confirmed item).body = item.body := by
  unfold acknowledge
  split
  · split_ifs <;> rfl
  · rfl

theorem acknowledge_status : (acknowledge confirmed item).status = item.status ∨
      (acknowledge confirmed item).status = .value .complete := by
  unfold acknowledge
  split
  · split_ifs
    · exact .inr rfl
    · exact .inl rfl
  · exact .inl rfl

theorem mem_reconcileLocalItems {canonicalItems : List TimelineItem} :
    x ∈ reconcileLocalItems localItems canonicalItems ↔ ∃ y ∈ localItems,
      retainsLocalItem canonicalItems y ∧
      acknowledge (canonicalUserClientMessageIds canonicalItems) y = x := by
  simp only [reconcileLocalItems, mem_map, mem_filter, and_assoc]

theorem mem_sortTimelineItems :
    x ∈ sortTimelineItems items ↔ x ∈ items := mem_sortBy itemKey

theorem mem_carryPriorRuntimeItems {currentRuntime : Option RuntimeOverlaySnapshot}
    (h : carryPriorRuntimeItems localItems currentRuntime incoming = some out)
    (hx : x ∈ out) : (∃ y ∈ localItems, x = y ∨ x = TimelineItem.rekeyed y) ∨
      ∃ cur, currentRuntime = some cur ∧ ∃ y ∈ cur.volatileItems,
        x = TimelineItem.rekeyed (terminalizeSettledItem y) := by
  unfold carryPriorRuntimeItems at h
  split at h
  · cases h
  next cur =>
    by_cases hskip : (!replacesCurrentTurn cur incoming && !cur.volatileItems.any (fun item =>
        isCompaction item && !(itemIds incoming.volatileItems).contains item.id))
    · rw [if_pos hskip] at h
      cases h
    rw [if_neg hskip] at h
    cases h
    have hmem := mem_values_buildTimelineById (mem_sortTimelineItems.mp hx)
    rcases mem_append.mp hmem with hmem | hmem
    · obtain ⟨y, hy, rfl⟩ := mem_map.mp hmem
      refine .inl ⟨y, hy, ?_⟩
      split_ifs
      · exact .inr rfl
      · exact .inl rfl
    · obtain ⟨y, hy, rfl⟩ := mem_map.mp hmem
      exact .inr ⟨cur, rfl, y, (mem_filter.mp hy).1, rfl⟩

theorem labelled_setMerged (h : Labelled byId)
    (item : TimelineItem) : Labelled (byId.set item.id (match byId.get? item.id with
      | some existing => mergeTimelineItem existing item
      | none => item)) := by
  cases hget : byId.get? item.id with
  | none => exact h.set item
  | some e =>
    have hset := h.set (mergeTimelineItem e item)
    rwa [mergeTimelineItem_id (h _ _ hget)] at hset

variable {P : TimelineItem → Prop}

theorem mergeIntoById_all (hitems : ∀ x ∈ items, P x)
    (hmerge : ∀ e, ∀ i ∈ items, e.id = i.id → P e → P i → P (mergeTimelineItem e i))
    (hl : Labelled byId)
    (h : ∀ id x, byId.get? id = some x → P x) : ∀ x ∈ (mergeIntoById byId items).values, P x := by
  induction items generalizing byId with
  | nil =>
    intro x hx
    obtain ⟨id, hid⟩ := OrderedMap.mem_values.mp hx
    exact h id x hid
  | cons item items ih =>
    have hitem := hitems item mem_cons_self
    refine ih (fun x hx => hitems x (mem_cons_of_mem _ hx))
      (fun e i hi => hmerge e i (mem_cons_of_mem _ hi)) (labelled_setMerged hl item)
      (fun id x hx => ?_)
    rw [OrderedMap.get?_set] at hx
    split_ifs at hx
    · cases hx
      split
      next e he => exact hmerge e item mem_cons_self (hl _ _ he) (h _ _ he) hitem
      next => exact hitem
    · exact h id x hx

theorem labelled_mergeIntoById (h : Labelled byId)
    (items : List TimelineItem) : Labelled (mergeIntoById byId items) := by
  induction items generalizing byId with
  | nil => exact h
  | cons item _ ih => exact ih (labelled_setMerged h item)

theorem nodup_values_of_labelled (h : Labelled byId) :
    (itemIds byId.values).Nodup := by
  have hkeys : itemIds byId.values = byId.keys := by
    simp only [itemIds, OrderedMap.values, OrderedMap.keys, map_map]
    refine map_congr_left (fun p hp => h p.1 p.2 ?_)
    exact (OrderedMap.get?_eq_some_iff byId).mpr hp
  rw [hkeys]
  exact byId.nodup

theorem nodup_itemIds_sort (h : (itemIds items).Nodup) :
    (itemIds (sortTimelineItems items)).Nodup :=
  (((sortBy_perm itemKey items).map _).nodup_iff).mpr h

theorem carrySettledRuntimeItems_nodup {incoming : Option RuntimeOverlaySnapshot}
    (h : carrySettledRuntimeItems localItems current incoming = some out) :
      (itemIds out).Nodup := by
  unfold carrySettledRuntimeItems at h
  split at h
  · cases h
  next inc =>
    dsimp only at h
    cases ha :
      admitRuntimeUserItems ((carryPriorRuntimeItems localItems current inc).getD localItems)
        inc with
    | some admitted =>
      rw [ha, Option.some_or] at h
      cases h
      unfold admitRuntimeUserItems at ha
      dsimp only at ha
      split_ifs at ha
      cases ha
      exact nodup_itemIds_sort
        (nodup_values_of_labelled (labelled_mergeIntoById (labelled_buildTimelineById _) _))
    | none =>
      rw [ha, Option.none_or] at h
      unfold carryPriorRuntimeItems at h
      split at h
      · cases h
      · dsimp only at h
        generalize (!replacesCurrentTurn _ inc && _) = skip at h
        cases skip with
        | true => cases h
        | false =>
          cases h
          exact nodup_itemIds_sort (nodup_values_of_labelled (labelled_buildTimelineById _))

theorem admitRuntimeUserItems_all (h : admitRuntimeUserItems localItems incoming = some out)
    (hlocal : ∀ x ∈ localItems, P x) (huser : ∀ x ∈ incoming.volatileItems, x.userClientId.isSome →
      P { x with status := .value .complete })
    (hmerge : ∀ e, ∀ x ∈ incoming.volatileItems, x.userClientId.isSome → e.id = x.id → P e →
      P (mergeTimelineItem e { x with status := .value .complete })) : ∀ x ∈ out, P x := by
  unfold admitRuntimeUserItems at h
  dsimp only at h
  split_ifs at h
  cases h
  intro x hx
  have hadmitted (y : TimelineItem) (hy : y ∈ (incoming.volatileItems.filter
      (fun item => item.userClientId.isSome)).map
        (fun item => { item with status := .value .complete })) :
      ∃ z ∈ incoming.volatileItems, z.userClientId.isSome ∧
        y = { z with status := .value .complete } := by
    obtain ⟨z, hz, rfl⟩ := mem_map.mp hy
    exact ⟨z, (mem_filter.mp hz).1, (mem_filter.mp hz).2, rfl⟩
  refine mergeIntoById_all (P := P) (fun y hy => ?_) (fun e y hy hid he _ => ?_)
    (labelled_buildTimelineById _)
    (fun id y hy => hlocal y (mem_of_get?_buildTimelineById hy).1) x (mem_sortTimelineItems.mp hx)
  · obtain ⟨z, hz, hzu, rfl⟩ := hadmitted y hy
    exact huser z hz hzu
  · obtain ⟨z, hz, hzu, rfl⟩ := hadmitted y hy
    exact hmerge e z hz hzu hid he

/-- A property of local items that carrying, rekeying and admission keep is kept when an
overlay is taken over, before reconciliation. -/
theorem carrySettledRuntimeItems_all {incoming : Option RuntimeOverlaySnapshot}
    (h : carrySettledRuntimeItems localItems current incoming = some out)
    (hlocal : ∀ x ∈ localItems, P x) (hrekey : ∀ x, P x → P (TimelineItem.rekeyed x))
    (hcarried : ∀ cur, current = some cur → ∀ x ∈ cur.volatileItems, P (terminalizeSettledItem x))
    (huser : ∀ inc, incoming = some inc → ∀ x ∈ inc.volatileItems, x.userClientId.isSome →
      P { x with status := .value .complete })
    (hmerge : ∀ inc, incoming = some inc → ∀ e, ∀ x ∈ inc.volatileItems, x.userClientId.isSome →
      e.id = x.id → P e → P (mergeTimelineItem e { x with status := .value .complete })) : ∀ x ∈
        out, P x := by
  unfold carrySettledRuntimeItems at h
  split at h
  · cases h
  next inc =>
    dsimp only at h
    have hcarry : ∀ x ∈ (carryPriorRuntimeItems localItems current inc).getD localItems, P x := by
      cases hc : carryPriorRuntimeItems localItems current inc with
      | none => simpa [hc] using hlocal
      | some =>
        intro x hx
        rcases mem_carryPriorRuntimeItems hc hx with ⟨y, hy, rfl | rfl⟩ | ⟨cur, hcur, y, hy, rfl⟩
        · exact hlocal x hy
        · exact hrekey y (hlocal y hy)
        · exact hrekey _ (hcarried cur hcur y hy)
    cases ha :
      admitRuntimeUserItems ((carryPriorRuntimeItems localItems current inc).getD localItems)
        inc with
    | some admitted =>
      rw [ha, Option.some_or] at h
      cases h
      exact admitRuntimeUserItems_all ha hcarry (huser inc rfl) (hmerge inc rfl)
    | none =>
      rw [ha, Option.none_or] at h
      simpa [h] using hcarry

def ComesFrom (current : Option RuntimeOverlaySnapshot) (incoming r : RuntimeOverlaySnapshot) :
    Prop :=
  r = incoming ∨ ∃ cur, current = some cur ∧ r = mergeRuntimeOverlay cur incoming

variable {cur : RuntimeOverlaySnapshot}

theorem applySameRevision_accept
    (h : applySameRevision cur incoming = .accept r) : ComesFrom (some cur) incoming r := by
  unfold applySameRevision at h
  split_ifs at h <;> cases h
  · exact .inl rfl
  · exact .inr ⟨cur, rfl, rfl⟩

theorem applySameGeneration_accept {c i : RuntimeAuthority}
    (h : applySameGeneration cur incoming c i = .accept r) : ComesFrom (some cur) incoming r := by
  unfold applySameGeneration at h
  repeat' split at h
  all_goals first
    | exact applySameRevision_accept h
    | (cases h <;> first
        | exact .inl rfl
        | exact .inr ⟨cur, rfl, rfl⟩)

theorem applyAuthoritativeRuntime_accept
    (h : applyAuthoritativeRuntime current incoming = .accept r) :
    ComesFrom current incoming r := by
  unfold applyAuthoritativeRuntime RuntimeDecision.of at h
  repeat' split at h
  all_goals first
    | exact applySameGeneration_accept h
    | (cases h <;> exact .inl rfl)

theorem applyLegacyRuntime_accept (h : applyLegacyRuntime current incoming = .accept r) :
    ComesFrom current incoming r := by
  unfold applyLegacyRuntime RuntimeDecision.of at h
  repeat' split at h
  all_goals
    cases h <;> first
      | exact .inl rfl
      | exact .inr ⟨_, rfl, rfl⟩

theorem decideRuntime_accept {incoming : Option RuntimeOverlaySnapshot}
    (h : decideRuntime current incoming = .accept r) :
    ∃ inc, incoming = some inc ∧ ComesFrom current (dropTransientNotices inc) r := by
  unfold decideRuntime at h
  split at h
  · cases h
  next inc =>
    refine ⟨inc, rfl, ?_⟩
    dsimp only at h
    split_ifs at h
    · exact applyAuthoritativeRuntime_accept h
    · exact applyLegacyRuntime_accept h

theorem mem_dropTransientNotices {inc : RuntimeOverlaySnapshot}
    (h : x ∈ (dropTransientNotices inc).volatileItems) : x ∈ inc.volatileItems := by
  unfold dropTransientNotices at h
  split_ifs at h
  · exact h
  · exact (mem_filter.mp h).1

section

variable {P : TimelineItem → Prop}

theorem mergeVolatileItems_all {current incoming : List TimelineItem} (hc : ∀ x ∈ current, P x)
    (hi : ∀ x ∈ incoming, P x) (hmerge : ∀ e i, e.id = i.id → P e → P i → P (mergeTimelineItem e i))
    (hclose : ∀ x, P x → P (closePriorPhase x)) :
      ∀ x ∈ mergeVolatileItems current incoming, P x := by
  have hvalues := mergeIntoById_all hi (fun e i _ => hmerge e i)
    (labelled_buildTimelineById current)
    (fun id x hx => hc x (mem_of_get?_buildTimelineById hx).1)
  intro x hx
  unfold mergeVolatileItems at hx
  rw [mem_sortTimelineItems] at hx
  split_ifs at hx
  · obtain ⟨y, hy, rfl⟩ := mem_map.mp hx
    split_ifs
    · exact hvalues y hy
    · exact hclose y (hvalues y hy)
  · exact hvalues x hx

/-- Both overlays are about the same active turn, or about none. -/
def SameTurn (r r' : RuntimeOverlaySnapshot) : Prop :=
  r.activeTurnId = r'.activeTurnId ∧ r.hasActiveTurn = r'.hasActiveTurn

theorem SameTurn.dropTransientNotices (r : RuntimeOverlaySnapshot) :
    SameTurn r (dropTransientNotices r) := by
  unfold Client.dropTransientNotices
  split_ifs
  · exact ⟨rfl, rfl⟩
  · exact ⟨rfl, rfl⟩

/-- The items of the overlay that results are those of the held or of the arriving overlay of
its turn, merged and closed. -/
theorem maybeApplyRuntime_all {incoming : Option RuntimeOverlaySnapshot}
    (hmerge : ∀ e i, e.id = i.id → P e → P i → P (mergeTimelineItem e i))
    (hclose : ∀ x, P x → P (closePriorPhase x)) (hr : maybeApplyRuntime current incoming = some r)
    (hc : ∀ c, current = some c → SameTurn c r → ∀ x ∈ c.volatileItems, P x)
    (hi : ∀ i, incoming = some i → SameTurn i r → ∀ x ∈ i.volatileItems, P x) :
    ∀ x ∈ r.volatileItems, P x := by
  intro x hx
  unfold maybeApplyRuntime at hr
  cases hd : decideRuntime current incoming with
  | keep =>
    rw [hd] at hr
    exact hc r hr ⟨rfl, rfl⟩ x hx
  | accept r' =>
    rw [hd, RuntimeDecision.apply] at hr
    cases hr
    obtain ⟨inc, hinc, hfrom⟩ := decideRuntime_accept hd
    have hsame := SameTurn.dropTransientNotices inc
    rcases hfrom with rfl | ⟨cur, hcur, rfl⟩
    · exact hi inc hinc hsame x (mem_dropTransientNotices hx)
    · unfold mergeRuntimeOverlay at hc hi hx
      split_ifs at hc hi hx with hinactive hother
      · exact hi inc hinc hsame x (mem_dropTransientNotices hx)
      · exact hi inc hinc hsame x (mem_dropTransientNotices hx)
      · rw [Bool.or_eq_true, Bool.not_eq_true', Bool.not_eq_true', not_or, Bool.not_eq_false,
          Bool.not_eq_false] at hinactive
        have hheld := hc cur hcur ⟨(not_not.mp hother).symm, hinactive.2.trans hinactive.1.symm⟩
        exact mergeVolatileItems_all hheld
          (fun y hy => hi inc hinc hsame y (mem_dropTransientNotices hy)) hmerge hclose x hx

end

end Cognis.Client
