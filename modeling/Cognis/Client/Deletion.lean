import Cognis.Client.SentMessage

namespace Cognis.Client

open List SortByKey Timeline

/-- `replaceCanonicalQueue`, by which a queue notification hands over its list. -/
def replaceCanonicalQueue (s : ChatV2ClientState) (queue : QueueState) : ChatV2ClientState :=
  { s with queue := some queue }

/-- What the server drives: responses, frames and queue notifications. -/
inductive ServerEvent where
  | transition (t : Transition)
  | queue (queue : QueueState)

namespace ServerEvent

def step (s : ChatV2ClientState) : ServerEvent → ChatV2ClientState
  | .transition t => Client.step s t
  | .queue incoming => replaceCanonicalQueue s incoming

def inScope (s : ChatV2ClientState) : ServerEvent → Bool
  | .transition t => t.serverDriven && t.inScope s
  | .queue _ => true

def sparesOverlay (c : String) : ServerEvent → Bool
  | .transition t => (overlayItems t.arrivingRuntime).all fun x => x.userClientId ≠ some c
  | .queue _ => true

end ServerEvent

def KeepsDeleted (p p' : AdmissionPlacements) : Prop :=
  ∀ c, (p.get? c).map (·.placement) = some .deleted → (p'.get? c).map (·.placement) = some .deleted

section

variable {c : String} {s : ChatV2ClientState}

theorem step_keepsDeleted {t : Transition} (hserver : t.serverDriven) (hscope : t.inScope s) :
    KeepsDeleted s.admissionPlacements (step s t).admissionPlacements := by
  have hkeeps := step_keepsPlaces s hserver
  unfold Transition.basePlacements at hkeeps
  rw [if_pos hscope] at hkeeps
  exact fun c => (hkeeps c).2.mpr

theorem EditOf.absent {x y : TimelineItem} (h : EditOf x y) (hx : x.userClientId ≠ some c) :
    y.userClientId ≠ some c := by
  rw [h.user]
  exact hx

/-- Two messages merge only within one role, so a merge makes no user message of
the client id that neither side was. -/
theorem userClientId_mergeTimelineItem {e i : TimelineItem} (he : e.userClientId ≠ some c)
    (hi : i.userClientId ≠ some c) : (mergeTimelineItem e i).userClientId ≠ some c := by
  intro hmerged
  obtain ⟨m, hm, hrole, hclient, hc⟩ := userClientId_eq_some.mp hmerged
  rcases message_mergeTimelineItem hm with hsame | hsame | ⟨em, im, hem, him, hroles, -, rfl⟩
  · exact he (hsame ▸ hmerged)
  · exact hi (hsame ▸ hmerged)
  · have him_role : im.role = .user := hrole
    rcases JsField.get_spread em.clientMessageId im.clientMessageId with hget | hget
    · exact hi (userClientId_eq_some.mpr ⟨im, him, him_role, hget ▸ hclient, hc⟩)
    · exact he (userClientId_eq_some.mpr ⟨em, hem, hroles.trans him_role, hget ▸ hclient, hc⟩)

/-- The admission is deleted, and neither the local items nor the overlay hold
the message. -/
structure Deleted (c : String) (s : ChatV2ClientState) : Prop where
  placement : s.placementOf c = some .deleted
  locals : ∀ x ∈ s.localItems, x.userClientId ≠ some c
  overlay : ∀ x ∈ s.volatileItems, x.userClientId ≠ some c

theorem queuedClientMessageId_ne_empty {queueId : String} {hint : Option String}
    (h : queuedClientMessageId s queueId hint = some c) : c ≠ "" := by
  rintro rfl
  unfold queuedClientMessageId at h
  dsimp only at h
  split_ifs at h with hempty
  exact hempty h

theorem deleteQueuedAdmission_deleted {queueId : String} {hint : Option String} {now : String}
    (h : queuedClientMessageId s queueId hint = some c)
    (hoverlay : ∀ x ∈ s.volatileItems, x.userClientId ≠ some c) :
    Deleted c (deleteQueuedAdmission s queueId hint now) := by
  have hc := queuedClientMessageId_ne_empty h
  rw [deleteQueuedAdmission, h]
  refine ⟨?_, ?_, hoverlay⟩
  · rw [ChatV2ClientState.placementOf, OrderedMap.get?_set_self]
    rfl
  · intro x hx huser
    have hkept := (mem_filter.mp hx).2
    rw [(isUserMessageOf_iff hc).mpr huser] at hkept
    cases hkept

theorem Deleted.transition (h : Deleted c s) {t : Transition} (hserver : t.serverDriven)
    (hscope : t.inScope s)
    (hspares : ∀ x ∈ overlayItems t.arrivingRuntime, x.userClientId ≠ some c) :
    Deleted c (step s t) := by
  have hoverlay : ∀ x ∈ (step s t).volatileItems, x.userClientId ≠ some c :=
    step_volatile_all (fun _ _ _ => userClientId_mergeTimelineItem)
      (fun x hx => (EditOf.closePriorPhase x).absent hx) h.overlay hspares
  refine ⟨step_keepsDeleted hserver hscope c h.placement, ?_, hoverlay⟩
  apply step_local_all (fun x y hxy hx => hxy.absent hx)
  · exact baseLocal_all h.locals
  · intro x hx
    exact (EditOf.terminalizeSettledItem x).absent (h.overlay x hx)
  · intro x hx _
    exact (EditOf.completed x).absent (hoverlay x hx)
  · intro e x hx _ _ he
    exact userClientId_mergeTimelineItem he ((EditOf.completed x).absent (hoverlay x hx))
  · intro x hx
    cases t with
    | snapshot | backfill | sync | send | cancel | queueMutation => cases hx
    | _ => cases hserver

theorem Deleted.step (h : Deleted c s) {e : ServerEvent} (hscope : e.inScope s)
    (hspares : e.sparesOverlay c) : Deleted c (e.step s) := by
  cases e with
  | transition t =>
    obtain ⟨hserver, hscope⟩ := Bool.and_eq_true_iff.mp hscope
    apply h.transition hserver hscope
    intro x hx
    exact of_decide_eq_true (all_eq_true.mp hspares x hx)
  | queue => exact ⟨h.placement, h.locals, h.overlay⟩

theorem Deleted.not_visible (h : Deleted c s) :
    ∀ x ∈ visibleTimelineItems s, x.userClientId ≠ some c := by
  have hall := (visible_edits s).all (P := fun x => x.userClientId ≠ some c)
    (fun _ _ _ => userClientId_mergeTimelineItem) (Indexed.all_ofItems ?_) ?_
  · exact hall.items
  · intro x hx huser
    have hshown := (mem_filter.mp hx).2
    rw [isDeletedAdmission, huser] at hshown
    simp [h.placement] at hshown
  · intro y hy
    rcases mem_append.mp hy with hy | hy
    · obtain ⟨x, hx, hxy⟩ := mem_filterMap.mp hy
      obtain ⟨k, rfl⟩ := showLocal_eq_some hxy
      exact h.locals x hx
    · obtain ⟨r, hr, rfl⟩ := mem_map.mp hy
      exact (EditOf.shownItem r).absent (h.overlay r (mem_volatile_of_active hr))

theorem Deleted.not_queued (hc : c ≠ "") (h : Deleted c s) :
    ∀ m ∈ visibleQueueMessages s, m.clientMessageId ≠ some c := by
  obtain ⟨admission, hget, hplacement⟩ := Option.map_eq_some_iff.mp h.placement
  have hshown : (s.queueMessages.filter (showsQueueMessage s)).countP (isEntryOf c) = 0 := by
    rw [countP_eq_zero]
    intro m hm hentry
    have hclient : m.clientMessageId = some c := of_decide_eq_true hentry
    have hshows := (mem_filter.mp hm).2
    simp [showsQueueMessage, hclient, hc, h.placement] at hshows
  have hnone : (visibleQueueMessages s).countP (isEntryOf c) = 0 := by
    rw [visibleQueueMessages, (sortBy_perm _ _).countP_eq]
    refine foldl_showAdmission s.admissionPlacements.nodup
      ((OrderedMap.get?_eq_some_iff _).mp hget) _ ?_
    intro v hv
    rw [showAdmission, if_pos (.inl (by simp [hplacement])), hv]
    exact hshown
  intro m hm hclient
  exact countP_eq_zero.mp hnone m hm (decide_eq_true hclient)

end

/-- Stale queues, late send answers, receipts, frames and pages in any order: as
long as no overlay carries the message, it stays deleted and out of both views. -/
theorem deletedAdmission_stays (c : String) (s : ChatV2ClientState) (queueId : String)
    (hint : Option String) (now : String) (hc : queuedClientMessageId s queueId hint = some c)
    (hoverlay : ∀ x ∈ s.volatileItems, x.userClientId ≠ some c) (es : List ServerEvent)
    (hes : Runs.Meets ServerEvent.step (fun s e => e.inScope s = true ∧ e.sparesOverlay c = true)
      (deleteQueuedAdmission s queueId hint now) es) :
    let final := Runs.run ServerEvent.step (deleteQueuedAdmission s queueId hint now) es
    final.placementOf c = some .deleted ∧
      (∀ x ∈ visibleTimelineItems final, x.userClientId ≠ some c) ∧
      ∀ m ∈ visibleQueueMessages final, m.clientMessageId ≠ some c := by
  intro final
  have hfinal : Deleted c final :=
    Runs.run_invariant_of_meets (Deleted c) (fun s e h he => h.step he.1 he.2)
      (deleteQueuedAdmission_deleted hc hoverlay) hes
  exact ⟨hfinal.placement, hfinal.not_visible,
    hfinal.not_queued (queuedClientMessageId_ne_empty hc)⟩

/-- A queue that still lists message `c`. -/
def staleQueue : QueueState where
  messages := [{ queueId := "q", clientMessageId := some "c", content := "hi", position := 1 }]
  queuedCount := 1

/-- The message is queued, deleted, listed by a late notification, answered by a
second send response and listed again by a mutation response. -/
theorem deletedAdmission_stays_listed :
    let s := run emptyChatV2State
      [.snapshot (pageSnapshot [] false) false, .addOptimistic sendC, .send queuedC]
    let es : List ServerEvent := [.queue staleQueue, .transition (.send queuedC),
      .transition (.queueMutation ⟨"c", staleQueue, none, none⟩)]
    let final := Runs.run ServerEvent.step (deleteQueuedAdmission s "q" none "now") es
    final.queue = some staleQueue ∧ final.placementOf "c" = some .deleted ∧
      (∀ x ∈ visibleTimelineItems final, x.userClientId ≠ some "c") ∧
      ∀ m ∈ visibleQueueMessages final, m.clientMessageId ≠ some "c" :=
  ⟨by decide, deletedAdmission_stays "c" _ "q" none "now" (by decide) (by decide) _ (by decide)⟩

end Cognis.Client
