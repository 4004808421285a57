import Cognis.Client.OneView

namespace Cognis.Client

open List SortByKey Timeline

/-- What the server promises about a client id: its user items have the id of the client id,
those of an overlay belong to a turn, and a queue lists it at most once. -/
structure Transition.ServerOk (c : String) (t : Transition) : Prop where
  ids : ∀ x ∈ t.payloadItems, x.userClientId = some c → x.id = userItemId c
  turns : ∀ x ∈ overlayItems t.arrivingRuntime, x.userClientId = some c → (itemTurnIdOf x).isSome
  queues : ∀ q ∈ t.payloadQueues, listsOnce c q.messages

/-- The client id and its item id stand on user messages of that client id only, no snapshot
lists the item next to its held version, and the admission is not deleted. -/
structure Transition.Sound (c : String) (s : ChatV2ClientState) (t : Transition) : Prop where
  owned : ∀ x ∈ t.payloadItems, x.isMessageOf c = true ∨ x.id = userItemId c →
    x.userClientId = some c
  snapshots : ∀ response adopt, t = .snapshot response adopt →
    SnapshotListsOnce (userItemId c) s response
  systems : ∀ input, t = .addSystem input → input.id ≠ userItemId c
  deletes : t.deletes s ≠ some c

variable {c : String} {s : ChatV2ClientState}

theorem Transition.Sound.respects {t : Transition}
    (h : t.Sound c s) (hs : t.ServerOk c) : t.Respects c s where
  items x hx hown := ⟨h.owned x hx hown, hs.ids x hx (h.owned x hx hown)⟩
  turns := hs.turns
  queues := hs.queues
  snapshots := h.snapshots
  systems := h.systems
  deletes := h.deletes

theorem runMeets_append {P : ChatV2ClientState → Transition → Prop} {ts us : List Transition} :
    RunMeets P s (ts ++ us) ↔ RunMeets P s ts ∧ RunMeets P (run s ts) us := by
  induction ts generalizing s with
  | nil => simp [RunMeets, run]
  | cons t ts ih =>
    simp only [cons_append, RunMeets, ih, and_assoc]
    rfl

theorem addOptimistic_held (hc : c ≠ "") (h : Tracked c s)
    {input : OptimisticInput} (hinput : input.clientMessageId = c) :
    ∃ x ∈ (addOptimisticUserMessage s input).localItems, x.id = userItemId c := by
  unfold addOptimisticUserMessage
  split_ifs with hany
  · obtain ⟨x, hx, hmine⟩ := any_eq_true.mp hany
    rw [hinput] at hmine
    exact ⟨x, hx, ((h.locals x hx).1 (.inl hmine)).2⟩
  · have huser : (optimisticUserItem s input).userClientId = some c :=
      userClientId_eq_some.mpr ⟨_, rfl, rfl, congrArg some hinput, hc⟩
    have hedits : EditsFrom none _ _ :=
      EditsFrom.reconcile (s.localItems ++ [optimisticUserItem s input]) s.timelineItems
    obtain ⟨y, hy, hxy⟩ := hedits.keeps (optimisticUserItem s input) (by simp) c huser (by simp)
    refine ⟨y, hy, hxy.id.trans ?_⟩
    rw [← hinput]
    rfl

theorem run_keeps_held (hc : c ≠ "") {ts : List Transition}
    (hrun : RunMeets (fun s t => t.ServerOk c ∧ t.Sound c s) s ts)
    (hscope : RunMeets (fun s t => t.inScope s = true) s ts) (h : Tracked c s)
    (hheld : ∃ x ∈ s.localItems, x.id = userItemId c) :
    Tracked c (run s ts) ∧ ∃ x ∈ (run s ts).localItems, x.id = userItemId c := by
  induction ts generalizing s with
  | nil => exact ⟨h, hheld⟩
  | cons t ts ih =>
    have ht := hrun.1.2.respects hrun.1.1
    exact ih hrun.2 hscope.2 (h.step hc ht) (step_keeps_id hc h ht hscope.1 hheld)

/-- From the moment it is added, a message is shown exactly once, in the timeline or in the
queue, however the responses, frames and snapshots of its scope interleave. -/
theorem sentMessage_shownOnce (c : String) (hc : c ≠ "") (before after : List Transition)
    (input : OptimisticInput) (hinput : input.clientMessageId = c)
    (hrun : RunMeets (fun s t => t.ServerOk c ∧ t.Sound c s) emptyChatV2State
      (before ++ .addOptimistic input :: after))
    (hscope : RunMeets (fun s t => t.inScope s = true)
      (run emptyChatV2State (before ++ [.addOptimistic input])) after) :
    ShownOnce c (run emptyChatV2State (before ++ .addOptimistic input :: after)) := by
  obtain ⟨hbefore, hadd, hafter⟩ := runMeets_append.mp hrun
  have hs : Tracked c (run emptyChatV2State before) := run_preserves
    (fun s t h ht => h.step hc (ht.2.respects ht.1)) (tracked_empty c) hbefore
  have hadded := hs.step hc (hadd.2.respects hadd.1)
  have hheld := addOptimistic_held hc hs hinput
  simp only [run, foldl_append] at hscope ⊢
  obtain ⟨htracked, hheld⟩ := run_keeps_held hc hafter hscope hadded hheld
  exact htracked.shownOnce hc hheld

/-- The server's version of message `c` at the given sort key. -/
def echoItem (sortKey : String) : TimelineItem where
  id := "user:c"
  sortKey := sortKey
  stable := true
  status := .value .complete
  body := .message
    { role := .user, content := "hi", messageId := "client:c", clientMessageId := .value "c" }

def sendC : OptimisticInput where
  content := "hi"
  clientMessageId := "c"
  now := "now"

def queuedC : SendMessageV2Response where
  status := .queued
  clientTxnId := "t"
  clientMessageId := "c"
  conversationId := "c"
  queueId := some "q"
  serverTime := "now"

instance (c : String) (messages : List QueueMessage) : Decidable (listsOnce c messages) :=
  inferInstanceAs (Decidable (_ ≤ 1))

/-- Opening the conversation, sending, and hearing that the message is queued. -/
theorem sentMessage_shownOnce_queued :
    ShownOnce "c" (run emptyChatV2State ([.snapshot (pageSnapshot [] false) false] ++
      .addOptimistic sendC :: [.send queuedC])) := by
  refine sentMessage_shownOnce "c" (by decide) _ _ sendC rfl ⟨⟨?_, ?_⟩, ⟨?_, ?_⟩, ⟨?_, ?_⟩, trivial⟩
    ⟨rfl, trivial⟩
  · exact ⟨by decide, by decide, by decide⟩
  · exact ⟨by decide, fun _ _ h => by cases h; exact ⟨by decide, by decide⟩, fun _ h =>
      (by cases h),
      by decide⟩
  · exact ⟨by decide, by decide, by decide⟩
  · exact ⟨by decide, fun _ _ h => (by cases h), fun _ h => (by cases h), by decide⟩
  · exact ⟨by decide, by decide, by decide⟩
  · exact ⟨by decide, fun _ _ h => (by cases h), fun _ h => (by cases h), by decide⟩

/-- A refreshed page lists the echo under a later key while its held version stays in front
of the page: the message is shown twice. -/
theorem sentMessage_shown_twice :
    ¬ ∀ (c : String) (before after : List Transition) (input : OptimisticInput),
      input.clientMessageId = c →
      (∀ t ∈ before ++ .addOptimistic input :: after, t.ServerOk c) →
      RunMeets (fun s t => t.inScope s = true ∧ t.deletes s ≠ some c)
        (run emptyChatV2State (before ++ [.addOptimistic input])) after →
      ShownOnce c (run emptyChatV2State (before ++ .addOptimistic input :: after)) := by
  intro h
  have hshown := h "c" [.snapshot (pageSnapshot [] false) false]
    [.snapshot (pageSnapshot [echoItem "5"] false) false,
      .snapshot (pageSnapshot [noticeItem "y" "6", echoItem "7"] true) false] sendC rfl ?_
    ⟨⟨by decide, by decide⟩, ⟨by decide, by decide⟩, trivial⟩
  · revert hshown
    unfold ShownOnce
    decide
  · intro t ht
    simp only [cons_append, nil_append, mem_cons, not_mem_nil, or_false] at ht
    rcases ht with rfl | rfl | rfl | rfl <;> exact ⟨by decide, by decide, by decide⟩

end Cognis.Client
