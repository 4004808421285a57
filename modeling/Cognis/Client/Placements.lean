import Cognis.Client.LocalEdits

namespace Cognis.Client

open SortByKey Timeline

def PlacesFrom (deleted : Option String) (p p' : AdmissionPlacements) : Prop :=
  ∀ c, ((p.get? c).isSome → (p'.get? c).isSome) ∧ (deleted ≠ some c →
    (p'.get? c).map (·.placement) = some .deleted → (p.get? c).map (·.placement) = some .deleted)

section

variable {deleted : Option String} {p p' p'' : AdmissionPlacements}

theorem PlacesFrom.refl (p : AdmissionPlacements) : PlacesFrom deleted p p :=
  fun _ => ⟨id, fun _ h => h⟩

theorem PlacesFrom.trans (h : PlacesFrom deleted p p') (h' : PlacesFrom deleted p' p'') :
    PlacesFrom deleted p p'' :=
  fun c => ⟨fun hs => (h' c).1 ((h c).1 hs), fun hd hdel => (h c).2 hd ((h' c).2 hd hdel)⟩

variable {v : LocalAdmissionPlacement}

theorem PlacesFrom.set (p : AdmissionPlacements) (k : String)
    (h : v.placement = .deleted → deleted = some k ∨ (p.get? k).map (·.placement) = some .deleted) :
    PlacesFrom deleted p (p.set k v) := by
  intro c
  rw [OrderedMap.get?_set]
  split_ifs with hc
  · subst hc
    refine ⟨fun _ => rfl, fun hd hdel => ?_⟩
    rcases h (by simpa using hdel) with h | h
    · exact absurd h hd
    · exact h
  · exact ⟨id, fun _ h => h⟩

/-- No admission is lost, and none is deleted or restored. -/
def KeepsPlaces (p p' : AdmissionPlacements) : Prop :=
  ∀ c, ((p.get? c).isSome → (p'.get? c).isSome) ∧
    ((p'.get? c).map (·.placement) = some .deleted ↔ (p.get? c).map (·.placement) = some .deleted)

theorem KeepsPlaces.places (h : KeepsPlaces p p') : PlacesFrom deleted p p' :=
  fun c => ⟨(h c).1, fun _ => (h c).2.mp⟩

theorem KeepsPlaces.refl (p : AdmissionPlacements) : KeepsPlaces p p := fun _ => ⟨id, .rfl⟩

theorem KeepsPlaces.trans (h : KeepsPlaces p p') (h' : KeepsPlaces p' p'') : KeepsPlaces p p'' :=
  fun c => ⟨fun hs => (h' c).1 ((h c).1 hs), (h' c).2.trans (h c).2⟩

theorem KeepsPlaces.set {k : String}
    (h : v.placement = .deleted ↔ (p.get? k).map (·.placement) = some .deleted) :
    KeepsPlaces p (p.set k v) := by
  intro c
  rw [OrderedMap.get?_set]
  split_ifs with hc
  · subst hc
    exact ⟨fun _ => rfl, by simpa using h⟩
  · exact ⟨id, .rfl⟩

theorem KeepsPlaces.set_queued {k : String} {current v : LocalAdmissionPlacement}
    (hget : p.get? k = some current) (hqueue : current.placement = .queue)
    (hv : v.placement ≠ .deleted) : KeepsPlaces p (p.set k v) := by
  apply KeepsPlaces.set
  simp [hget, hqueue, hv]

theorem KeepsPlaces.confirm (p : AdmissionPlacements) (c : String) :
    KeepsPlaces p (confirmPlacement p c) := by
  unfold confirmPlacement
  split
  next current hget =>
    split_ifs with hqueue
    · exact .set_queued hget hqueue (by simp)
    · exact .refl p
  next => exact .refl p

theorem KeepsPlaces.reconcile (p : AdmissionPlacements) (items : List TimelineItem) :
    KeepsPlaces p (reconcileAdmissionPlacements p items) := by
  unfold reconcileAdmissionPlacements
  induction canonicalUserClientMessageIds items generalizing p with
  | nil => exact .refl p
  | cons c rest ih => exact (KeepsPlaces.confirm p c).trans (ih _)

end

variable (s : ChatV2ClientState)

theorem KeepsPlaces.receipts (receipts : List BoundaryReceipt) (now : String) :
    KeepsPlaces s.admissionPlacements
      (applyBoundaryReceipts s receipts now).admissionPlacements := by
  refine applyBoundaryReceipts_induct s
    (P := fun t => KeepsPlaces s.admissionPlacements t.admissionPlacements)
    (fun t receipt h => h.trans ?_) receipts (.refl _)
  unfold applyReceipt
  split
  next current hget =>
    split_ifs with hqueue
    · exact .set_queued hget hqueue (by simp)
    · exact .refl _
  next => exact .refl _

theorem KeepsPlaces.applyOps (ops : List ChatViewOp) :
    KeepsPlaces s.admissionPlacements (applyOps s ops).admissionPlacements := by
  dsimp only [Client.applyOps]
  split_ifs
  · exact .reconcile _ _
  · exact .refl _

theorem PlacesFrom.addOptimistic {deleted : Option String}
    (input : OptimisticInput) : PlacesFrom deleted s.admissionPlacements
      (addOptimisticUserMessage s input).admissionPlacements := by
  unfold addOptimisticUserMessage
  split_ifs
  · exact .refl _
  · exact .set _ _ (by simp)

theorem sendPlacement_deleted_iff {response : SendMessageV2Response} {confirmed : Bool} :
    sendPlacement s response confirmed = .deleted ↔
      s.placementOf response.clientMessageId = some .deleted := by
  unfold sendPlacement
  dsimp only
  split_ifs with hdeleted <;> simp [hdeleted]

def Transition.basePlacements (s : ChatV2ClientState) (t : Transition) : AdmissionPlacements :=
  if t.inScope s then s.admissionPlacements else .empty

theorem step_keepsPlaces {t : Transition} (hserver : t.serverDriven) :
    KeepsPlaces (t.basePlacements s) (step s t).admissionPlacements := by
  cases t with
  | snapshot response adopt =>
    have hbase :
      ((scopedPrevious response adopt (some s)).map (·.admissionPlacements)).getD .empty =
        (Transition.snapshot response adopt).basePlacements s := by
      change _ = if (scopedPrevious response adopt (some s)).isSome = true
        then s.admissionPlacements else .empty
      cases hp : scopedPrevious response adopt (some s) with
      | none => rfl
      | some p =>
        rcases scopedPrevious_timeline hp with rfl | ⟨-, -, -, hl⟩
        · rfl
        · exact hl
    rw [← hbase]
    exact .reconcile _ _
  | backfill =>
    simp only [step, applyBackfill, applyBackfillResult]
    split_ifs
    · exact .refl _
    · exact .refl _
    · exact .reconcile _ _
  | sync payload now =>
    change KeepsPlaces s.admissionPlacements
      (applyScopedSync s payload now).state.admissionPlacements
    have hreceipts := KeepsPlaces.receipts s payload.receipts now
    rcases applyScopedSync_cases s payload now with ⟨-, _, _, hst⟩ | ⟨-, received, rfl, hst⟩
    · rw [hst]
      exact .refl _
    · rcases hst with ⟨_, _, hst, -⟩ | ⟨-, hst⟩ | ⟨-, -, r, _, hst⟩ | ⟨-, -, hst⟩ <;> rw [hst]
      · exact hreceipts
      · exact hreceipts
      · exact hreceipts
      · exact (hreceipts.trans (.applyOps _ _)).trans (.reconcile _ _)
  | send =>
    simp only [step, applySendResponse]
    split_ifs
    · exact .refl _
    · exact .set (sendPlacement_deleted_iff s)
    · exact .refl _
  | cancel =>
    simp only [step, applyCancelResponse]
    split_ifs <;> exact .refl _
  | queueMutation =>
    simp only [step, applyQueueMutationResponse]
    split_ifs
    · exact .refl _
    · exact .reconcile _ _
  | _ => cases hserver

theorem step_places (t : Transition) :
    PlacesFrom (t.deletes s) (t.basePlacements s) (step s t).admissionPlacements := by
  cases t with
  | addOptimistic input => exact .addOptimistic s input
  | promote input =>
    simp only [step, promoteQueuedUserMessage]
    split_ifs
    · exact .set _ _ (by simp)
    · exact (PlacesFrom.addOptimistic s input).trans (.set _ _ (by simp))
  | markFailed =>
    simp only [step, markOptimisticUserMessageFailed]
    split_ifs
    · exact .refl _
    · exact .set _ _ (by simp)
  | updateQueued =>
    simp only [step, updateQueuedAdmissionContent]
    split
    · exact .refl _
    · split_ifs
      · exact .refl _
      · exact .set _ _ (by simp)
  | deleteQueued queueId hint now =>
    simp only [step, deleteQueuedAdmission]
    split
    next => exact .refl _
    next d hd => exact .set _ _ (fun _ => .inl hd)
  | addSystem =>
    simp only [step, addLocalSystemMessage]
    split_ifs <;> exact .refl _
  | _ => exact (step_keepsPlaces s rfl).places

def listsOnce (c : String) (messages : List QueueMessage) : Prop :=
  messages.countP (fun message => message.clientMessageId = some c) ≤ 1

def ChatV2ClientState.queueMessages (s : ChatV2ClientState) : List QueueMessage :=
  (s.queue.map (·.messages)).getD []

def ChatViewOp.replacedQueue : ChatViewOp → Option QueueState
  | .replaceQueue queue => some queue
  | _ => none

def Transition.payloadQueues : Transition → List QueueState
  | .snapshot response _ => response.queue.toList
  | .sync payload _ => payload.ops.filterMap ChatViewOp.replacedQueue
  | .queueMutation response => [response.queue]
  | _ => []

theorem foldl_applyOp_queue (ops : List ChatViewOp) (t : OpTarget) :
    (ops.foldl applyOp t).queue = t.queue ∨
      ∃ q ∈ ops.filterMap ChatViewOp.replacedQueue, (ops.foldl applyOp t).queue = some q := by
  induction ops generalizing t with
  | nil => exact .inl rfl
  | cons op ops ih =>
    have hlift : ∀ q ∈ ops.filterMap ChatViewOp.replacedQueue,
        q ∈ (op :: ops).filterMap ChatViewOp.replacedQueue := by
      intro q hq
      rw [List.filterMap_cons]
      split
      · exact hq
      · exact List.mem_cons_of_mem _ hq
    rcases ih (applyOp t op) with h | ⟨q, hq, h⟩
    · cases op with
      | replaceQueue queue => exact .inr ⟨queue, by simp [ChatViewOp.replacedQueue], h⟩
      | removeItem id =>
        refine .inl (h.trans ?_)
        dsimp only [applyOp]
        split_ifs <;> rfl
      | _ => exact .inl h
    · exact .inr ⟨q, hlift q hq, h⟩

theorem step_queue (t : Transition) : (step s t).queue = s.queue ∨ (step s t).queue = none ∨
      ∃ q ∈ t.payloadQueues, (step s t).queue = some q := by
  rcases serverDriven_or_edit s t with hserver | ⟨_, _, hedit⟩
  swap
  · exact .inl (hedit ▸ rfl)
  cases t with
  | snapshot response =>
    change response.queue = _ ∨ response.queue = none ∨
      ∃ q ∈ response.queue.toList, response.queue = _
    cases response.queue with
    | none => exact .inr (.inl rfl)
    | some q => exact .inr (.inr ⟨q, by simp, rfl⟩)
  | backfill =>
    simp only [step, applyBackfill, applyBackfillResult]
    split_ifs <;> exact .inl rfl
  | sync payload now =>
    change (applyScopedSync s payload now).state.queue = _ ∨
      (applyScopedSync s payload now).state.queue = _ ∨
        ∃ q ∈ _, (applyScopedSync s payload now).state.queue = _
    have hreceipts : (applyBoundaryReceipts s payload.receipts now).queue = s.queue := by
      refine applyBoundaryReceipts_induct s (P := fun t => t.queue = s.queue)
        (fun t receipt h => ?_) payload.receipts rfl
      rw [← h]
      unfold applyReceipt
      split
      · split_ifs <;> rfl
      · rfl
    rcases applyScopedSync_cases s payload now with ⟨-, _, _, hst⟩ | ⟨-, received, rfl, hst⟩
    · rw [hst]
      exact .inl rfl
    · rcases hst with ⟨_, _, hst, -⟩ | ⟨-, hst⟩ | ⟨-, -, r, _, hst⟩ | ⟨-, -, hst⟩ <;> rw [hst]
      · exact .inl hreceipts
      · exact .inl hreceipts
      · exact .inl hreceipts
      · rcases foldl_applyOp_queue payload.ops
          (applyBoundaryReceipts s payload.receipts now).opTarget with h | h
        · exact .inl (h.trans hreceipts)
        · exact .inr (.inr h)
  | send =>
    simp only [step, applySendResponse]
    split_ifs <;> exact .inl rfl
  | cancel =>
    simp only [step, applyCancelResponse]
    split_ifs <;> exact .inl rfl
  | queueMutation response =>
    simp only [step, applyQueueMutationResponse]
    split_ifs
    · exact .inl rfl
    · exact .inr (.inr ⟨response.queue, by simp [Transition.payloadQueues], rfl⟩)
  | _ => cases hserver

theorem step_listsOnce {c : String} {s : ChatV2ClientState} {t : Transition}
    (h : listsOnce c s.queueMessages) (ht : ∀ q ∈ t.payloadQueues, listsOnce c q.messages) :
    listsOnce c (step s t).queueMessages := by
  unfold ChatV2ClientState.queueMessages at h ⊢
  rcases step_queue s t with hq | hq | ⟨q, hmem, hq⟩ <;> rw [hq]
  · exact h
  · simp [listsOnce]
  · exact ht q hmem

end Cognis.Client
