import Cognis.Client.LocalEdits

namespace Cognis.Client

open Bool List SortByKey Timeline

/-- An assistant message, thinking item or tool call shown as still going on. -/
def isSpinning (item : TimelineItem) : Bool :=
  isExecution item && (item.status.get = some .running || item.status.get = some .pending)

def isPendingAssistant (item : TimelineItem) : Bool :=
  item.hasRole .assistant && item.status.get = some .pending

variable {e i item x : TimelineItem} {s : ChatV2ClientState} {eb ib : ToolCallTimelineItem}

theorem isSpinning_mergeToolCallItem (he : e.body = .toolCall eb) (hi : i.body = .toolCall ib)
    {k : String} (h : isSpinning (mergeToolCallItem e i eb ib k)) :
    isSpinning e ∨ isSpinning i := by
  simp only [isSpinning, mergeToolCallItem, spreadBase, isExecution, Bool.true_and,
    JsField.get_ofOption, he, hi] at h ⊢
  split_ifs at h
  · exact .inl h
  · exact .inr h

theorem isSpinning_spread (he : isExecution e) (hi : isExecution i) {s : JsField TimelineItemStatus}
    (hs : s = e.status.spread i.status) (h : (s.get = some .running || s.get = some .pending)) :
    isSpinning e ∨ isSpinning i := by
  rcases JsField.get_spread e.status i.status with hg | hg
  · exact .inr (by simpa [isSpinning, hi, hs, hg] using h)
  · exact .inl (by simpa [isSpinning, he, hs, hg] using h)

theorem isSpinning_mergeTimelineItem
    (h : isSpinning (mergeTimelineItem e i)) : isSpinning e ∨ isSpinning i := by
  unfold mergeTimelineItem at h
  split at h
  next _ _ => simp [isSpinning, isExecution, mergeHandoff, spreadBase] at h
  next _ _ =>
    unfold mergeCompaction at h
    split_ifs at h
    · exact .inl h
    · simp [isSpinning, isExecution, spreadBase] at h
  next he hi => exact isSpinning_mergeToolCallItem he hi h
  next he hi =>
    exact isSpinning_spread (by simp [isExecution, he]) (by simp [isExecution, hi]) rfl h
  next em im he hi =>
    unfold mergeMessageItem at h
    split_ifs at h with hrole hkeep
    · exact .inr h
    · exact .inl h
    · have hr : em.role = im.role := by simpa using hrole
      simp only [isSpinning, spreadBase, isExecution, mergeMessage, and_eq_true] at h
      exact isSpinning_spread (by simpa [isExecution, he, hr] using h.1)
        (by simpa [isExecution, hi] using h.1) rfl h.2
  next _ _ =>
    unfold mergeOther at h
    split_ifs at h
    · simp [isSpinning, isExecution, spreadBase] at h
    · exact .inr h
  next => exact .inr h

theorem isPendingAssistant_mergeTimelineItem (h : isPendingAssistant (mergeTimelineItem e i)) :
    isPendingAssistant e ∨ isPendingAssistant i := by
  obtain ⟨hrole, hpending⟩ := and_eq_true_iff.mp h
  have hmessage : ∃ m, (mergeTimelineItem e i).body = .message m ∧ m.role = .assistant := by
    unfold TimelineItem.hasRole at hrole
    split at hrole
    next m hm => exact ⟨m, hm, of_decide_eq_true hrole⟩
    next => cases hrole
  obtain ⟨m, hm, hassistant⟩ := hmessage
  rcases message_mergeTimelineItem hm with hsame | hsame | ⟨em, im, he, hi, hroles, hstatus, rfl⟩
  · exact .inl (hsame ▸ h)
  · exact .inr (hsame ▸ h)
  · have him : im.role = .assistant := hassistant
    have hp := of_decide_eq_true hpending
    rw [hstatus] at hp
    rcases JsField.get_spread e.status i.status with hg | hg
    · exact .inr (by simp [isPendingAssistant, TimelineItem.hasRole, hi, him, ← hg, hp])
    · exact .inl (by simp [isPendingAssistant, TimelineItem.hasRole, he, hroles, him, ← hg, hp])

theorem isSpinning_terminalizeSettledItem
    (h : isPendingAssistant item = false) : isSpinning (terminalizeSettledItem item) = false := by
  unfold terminalizeSettledItem
  split
  next m hm =>
    simp only [isPendingAssistant, TimelineItem.hasRole, hm] at h
    split_ifs with huser hassistant
    · simp [isSpinning, isExecution, hm, huser.1]
    · simp [isSpinning]
    · by_cases hr : m.role = .assistant
      · simp_all [isSpinning, isExecution]
      · simp [isSpinning, isExecution, hm, hr]
  next t _ =>
    split_ifs with hdone
    · simp [isSpinning, hdone.1]
    · simp [isSpinning]
  next t _ =>
    split_ifs with hrun
    · simp [isSpinning]
    · simp_all [isSpinning]
  next hm ht htc =>
    have : isExecution item = false := by
      unfold isExecution
      split <;> simp_all
    simp [isSpinning, this]

theorem isExecution_mergeTimelineItem (e i : TimelineItem) :
    isExecution (mergeTimelineItem e i) = isExecution i := by
  unfold mergeTimelineItem
  split
  next _ hi => simp [isExecution, mergeHandoff, spreadBase, hi]
  next he hi =>
    unfold mergeCompaction
    split_ifs <;> simp [isExecution, spreadBase, he, hi]
  next _ hi => simp [isExecution, mergeToolCallItem, spreadBase, hi]
  next _ hi => simp [isExecution, mergeThinkingItem, spreadBase, hi]
  next em im he hi =>
    unfold mergeMessageItem
    split_ifs with hrole
    · rfl
    · have hr : em.role = im.role := by simpa using hrole
      simp [isExecution, he, hi, hr]
    · simp [isExecution, spreadBase, mergeMessage, hi]
  next _ hi =>
    unfold mergeOther
    split_ifs <;> simp [isExecution, spreadBase, hi]
  next => rfl

theorem isExecution_of_userClientId (h : item.userClientId.isSome) : isExecution item = false := by
  unfold TimelineItem.userClientId at h
  split at h
  next m hm =>
    split_ifs at h with hr
    · simp [isExecution, hm, hr]
    · simp at h
  next => simp at h

theorem isSpinning_of_not_execution (h : isExecution item = false) : isSpinning item = false := by
  simp [isSpinning, h]

/-- No canonical or overlay item is a pending assistant message, no local item is still
going on, and only non-execution items share an id with an earlier local or a canonical one. -/
structure Quiet (s : ChatV2ClientState) : Prop where
  canonical : s.timeline.All (fun x => isPendingAssistant x = false)
  overlay : ∀ x ∈ s.volatileItems, isPendingAssistant x = false
  settled : ∀ x ∈ s.localItems, isSpinning x = false
  apart : Apart s.localItems s.timelineItems
  late : s.localItems.Pairwise (fun x y => x.id = y.id → isExecution y = false)

theorem quiet_empty : Quiet emptyChatV2State where
  canonical := Indexed.all_ofItems (by simp)
  overlay := by simp [ChatV2ClientState.volatileItems, emptyChatV2State]
  settled := by simp [emptyChatV2State]
  apart := by simp [Apart, emptyChatV2State]
  late := .nil

theorem isPendingAssistant_merge_false (he : isPendingAssistant e = false)
    (hi : isPendingAssistant i = false) : isPendingAssistant (mergeTimelineItem e i) = false := by
  rw [← not_eq_true]
  intro h
  rcases isPendingAssistant_mergeTimelineItem h with h | h
  · simp [he] at h
  · simp [hi] at h

theorem isSpinning_merge_false (he : isSpinning e = false)
    (hi : isSpinning i = false) : isSpinning (mergeTimelineItem e i) = false := by
  rw [← not_eq_true]
  intro h
  rcases isSpinning_mergeTimelineItem h with h | h
  · simp [he] at h
  · simp [hi] at h

theorem isPendingAssistant_closePriorPhase (h : isPendingAssistant x = false) :
    isPendingAssistant (closePriorPhase x) = false := by
  unfold closePriorPhase
  split
  · split_ifs
    · simp [isPendingAssistant]
    · exact h
  · split_ifs
    · simp [isPendingAssistant]
    · exact h
  · exact h

theorem EditOf.isSpinning {y : TimelineItem} (h : EditOf x y) (hx : isSpinning x = false) :
    isSpinning y = false := by
  rcases h.status with hs | hs | hs
  · simpa [Client.isSpinning, h.execution, hs] using hx
  · simp [Client.isSpinning, hs]
  · simp [Client.isSpinning, hs]

variable {t : Transition}

theorem isExecution_newLocalItem (h : t.newLocalItem s = some x) : isExecution x = false := by
  unfold Transition.newLocalItem at h
  split at h <;> (try split_ifs at h) <;> cases h <;> rfl

theorem late_step (t : Transition)
    (h : s.localItems.Pairwise (fun x y => x.id = y.id → isExecution y = false)) :
    (step s t).localItems.Pairwise (fun x y => x.id = y.id → isExecution y = false) := by
  have hedits {l l' : List TimelineItem} (he : EditsFrom (t.deletes s) l l') := he.pairwise
    (R := fun x y => x.id = y.id → isExecution y = false)
    (fun x y x' y' hx hy hR hid => by
      rw [hy.execution]
      exact hR (by rw [← hx.id, ← hy.id, hid]))
  have hbase : (t.baseLocal s).Pairwise (fun x y => x.id = y.id → isExecution y = false) := by
    unfold Transition.baseLocal
    split_ifs
    · exact h
    · exact .nil
  rcases step_localItems s t with ⟨-, -, -, he⟩ | ⟨l, hsource, he⟩
  · exact hedits he h
  · refine hedits he (hedits (.reconcile _ _) ?_)
    cases hsource with
    | held hl _ => exact hedits hl hbase
    | minted hx _ =>
      refine pairwise_append.mpr ⟨h, pairwise_singleton _ _, fun a _ b hb _ => ?_⟩
      rw [mem_singleton.mp hb]
      exact isExecution_newLocalItem hx
    | carried hl hcur hc =>
      exact (pairwise_map.mp (carrySettledRuntimeItems_nodup hc)).imp
        (fun hne hid => absurd hid hne)

theorem Quiet.step (h : Quiet s)
    (ht : ∀ x ∈ t.payloadItems, isPendingAssistant x = false) : Quiet (step s t) where
  canonical := step_timeline_all (fun _ _ _ => isPendingAssistant_merge_false) h.canonical
    (fun x hx => ht x (mem_append_left _ hx))
  overlay := step_volatile_all (fun _ _ _ => isPendingAssistant_merge_false)
    (fun _ => isPendingAssistant_closePriorPhase) h.overlay
    (fun x hx => ht x (mem_append_right _ hx))
  settled := by
    have huser (x : TimelineItem) (hx : x.userClientId.isSome) :
        Client.isSpinning { x with status := .value .complete } = false := by
      simp [Client.isSpinning]
    refine step_local_all (fun _ _ he => he.isSpinning) (baseLocal_all h.settled)
      (fun x hx => isSpinning_terminalizeSettledItem (h.overlay x hx)) (fun x _ hx => huser x hx)
      (fun e x _ hx _ he => isSpinning_merge_false he (huser x hx))
      (fun x hx => isSpinning_of_not_execution (isExecution_newLocalItem hx))
  apart := step_apart t h.apart
  late := late_step t h.late

/-- A merge takes the turn of the held item over: the arriving one has none of its own. -/
def inheritsTurn (item : TimelineItem) : Bool :=
  match item.body with
  | .toolCall c => c.turnId.get.isNone
  | .thinking t => t.turnId = .absent
  | .message m => m.role = .assistant && m.turnId = .absent
  | _ => false

/-- Running, pending, or with the status left to the held item. -/
def goesOn (item : TimelineItem) : Bool :=
  item.status = .absent || item.status.get = some .running || item.status.get = some .pending

/-- An overlay item that can set a held item of its id going again in a turn that it does not
name. -/
def mayResume (item : TimelineItem) : Bool := inheritsTurn item && goesOn item

variable (turnId : String)

def ofTurnOrNone (item : TimelineItem) : Bool :=
  itemTurnIdOf item = none || itemTurnIdOf item = some turnId

def namesOther (item : TimelineItem) : Bool :=
  isExecution item && !ofTurnOrNone turnId item

def spinsElsewhere (item : TimelineItem) : Bool :=
  isSpinning item && !ofTurnOrNone turnId item

/-- What the merge of two items of one execution kind takes from each. -/
structure ExecutionMerge (e i m : TimelineItem) : Prop where
  held : isExecution e
  turn : itemTurnIdOf m = itemTurnIdOf (if inheritsTurn i then e else i)
  inherits : inheritsTurn m → inheritsTurn i
  goesOn : goesOn m → goesOn i
  spins : isSpinning m → isSpinning e ∨ isSpinning i

theorem executionMerge_toolCall {k : String} (he : e.body = .toolCall eb)
    (hi : i.body = .toolCall ib) :
    ExecutionMerge e i (mergeToolCallItem e i eb ib k) where
  held := by simp [isExecution, he]
  turn := by
    simp only [itemTurnIdOf, TimelineItem.turnIdField, mergeToolCallItem, spreadBase,
      mergeToolCall, inheritsTurn, hi, JsField.truthy_coalesce]
    split_ifs
    · rw [he]
    · rw [hi]
  inherits := by
    simp only [inheritsTurn, mergeToolCallItem, spreadBase, mergeToolCall, hi,
      JsField.get_coalesce]
    cases ib.turnId.get <;> simp
  goesOn := by
    simp only [goesOn, mergeToolCallItem, spreadBase]
    split_ifs with hterminal
    · cases hs : e.status.get with
      | none => simp [hs, isTerminalStatus] at hterminal
      | some status => cases status <;> simp_all [isTerminalStatus, JsField.ofOption, JsField.get]
    · cases i.status <;> simp [JsField.ofOption, JsField.get]
  spins := isSpinning_mergeToolCallItem he hi

theorem goesOn_of_spread (h : item.status = e.status.spread i.status) (hm : goesOn item) :
    goesOn i := by
  unfold goesOn at hm ⊢
  rw [h] at hm
  cases hs : i.status with
  | absent => rfl
  | _ =>
    rw [hs] at hm
    exact hm

theorem executionMerge_thinking {eb ib : ThinkingTimelineItem} {k : String}
    (he : e.body = .thinking eb) (hi : i.body = .thinking ib) :
    ExecutionMerge e i (mergeThinkingItem e i eb ib k) where
  held := by simp [isExecution, he]
  turn := by
    simp only [itemTurnIdOf, TimelineItem.turnIdField, mergeThinkingItem, spreadBase,
      mergeThinking, inheritsTurn, hi, JsField.truthy_spread, decide_eq_true_eq]
    split_ifs
    · rw [he]
    · rw [hi]
  inherits := by
    simp only [inheritsTurn, mergeThinkingItem, spreadBase, mergeThinking, hi]
    cases ib.turnId <;> simp
  goesOn := goesOn_of_spread rfl
  spins h := isSpinning_spread (by simp [isExecution, he]) (by simp [isExecution, hi]) rfl
    (and_eq_true_iff.mp h).2

theorem executionMerge_message {eb ib : MessageTimelineItem} {m : TimelineItem}
    (he : e.body = .message eb) (hi : i.body = .message ib) (hrole : eb.role = ib.role)
    (hassistant : ib.role = .assistant) (hm : m.body = .message (mergeMessage eb ib))
    (hstatus : m.status = e.status.spread i.status) : ExecutionMerge e i m where
  held := by simp [isExecution, he, hrole, hassistant]
  turn := by
    simp only [itemTurnIdOf, TimelineItem.turnIdField, hm, mergeMessage, inheritsTurn, hi,
      hassistant, decide_true, Bool.true_and, JsField.truthy_spread, decide_eq_true_eq]
    split_ifs
    · rw [he]
    · rw [hi]
  inherits := by
    simp only [inheritsTurn, hm, mergeMessage, hi]
    cases ib.turnId <;> simp [hassistant]
  goesOn := goesOn_of_spread hstatus
  spins h := isSpinning_spread (by simp [isExecution, he, hrole, hassistant])
    (by simp [isExecution, hi, hassistant]) hstatus (and_eq_true_iff.mp h).2

/-- A merge into an execution item is one of the two or takes something from each. -/
theorem mergeTimelineItem_execution (hi : isExecution i) :
    mergeTimelineItem e i = e ∨ mergeTimelineItem e i = i ∨
      ExecutionMerge e i (mergeTimelineItem e i) := by
  unfold mergeTimelineItem
  split
  next h => simp [isExecution, h] at hi
  next h => simp [isExecution, h] at hi
  next he hi => exact .inr (.inr (executionMerge_toolCall he hi))
  next he hi => exact .inr (.inr (executionMerge_thinking he hi))
  next em im he him =>
    unfold mergeMessageItem
    split_ifs with hrole hkeep
    · exact .inr (.inl rfl)
    · exact .inl rfl
    · refine .inr (.inr (executionMerge_message he him (not_not.mp hrole) ?_ rfl rfl))
      simpa [isExecution, him] using hi
  next h => simp [isExecution, h] at hi
  next => exact .inr (.inl rfl)

theorem isExecution_of_inheritsTurn (h : inheritsTurn item) : isExecution item := by
  unfold inheritsTurn at h
  split at h
  next hbody => rw [isExecution, hbody]
  next hbody => rw [isExecution, hbody]
  next hbody =>
    rw [isExecution, hbody]
    exact (and_eq_true_iff.mp h).1
  next => cases h

theorem mayResume_mergeTimelineItem (h : mayResume (mergeTimelineItem e i)) :
    mayResume e ∨ mayResume i := by
  have hmerged := isExecution_of_inheritsTurn (and_eq_true_iff.mp h).1
  rw [isExecution_mergeTimelineItem] at hmerged
  rcases mergeTimelineItem_execution (e := e) hmerged with hsame | hsame | hboth
  · exact .inl (hsame ▸ h)
  · exact .inr (hsame ▸ h)
  · rw [mayResume, and_eq_true] at h
    exact .inr (and_eq_true_iff.mpr ⟨hboth.inherits h.1, hboth.goesOn h.2⟩)

variable {turnId : String}

theorem ofTurnOrNone_congr (h : itemTurnIdOf x = itemTurnIdOf item) :
    ofTurnOrNone turnId x = ofTurnOrNone turnId item := by
  rw [ofTurnOrNone, h, ofTurnOrNone]

theorem namesOther_mergeTimelineItem (h : namesOther turnId (mergeTimelineItem e i)) :
    namesOther turnId e ∨ namesOther turnId i := by
  obtain ⟨hmerged, hturn⟩ := and_eq_true_iff.mp h
  rw [isExecution_mergeTimelineItem] at hmerged
  rcases mergeTimelineItem_execution (e := e) hmerged with hsame | hsame | hboth
  · exact .inl (hsame ▸ h)
  · exact .inr (hsame ▸ h)
  · rw [ofTurnOrNone_congr hboth.turn] at hturn
    split_ifs at hturn
    · exact .inl (and_eq_true_iff.mpr ⟨hboth.held, hturn⟩)
    · exact .inr (and_eq_true_iff.mpr ⟨hmerged, hturn⟩)

/-- A merge goes on under another turn only if the held item did, if the arriving one is of
another turn, or if that goes on and leaves the turn to the held one. -/
theorem spinsElsewhere_mergeTimelineItem (h : spinsElsewhere turnId (mergeTimelineItem e i)) :
    spinsElsewhere turnId e ∨ namesOther turnId i ∨ (mayResume i ∧ namesOther turnId e) := by
  obtain ⟨hspin, hturn⟩ := and_eq_true_iff.mp h
  have hmerged := (and_eq_true_iff.mp hspin).1
  rw [isExecution_mergeTimelineItem] at hmerged
  rcases mergeTimelineItem_execution (e := e) hmerged with hsame | hsame | hboth
  · exact .inl (hsame ▸ h)
  · exact .inr (.inl (and_eq_true_iff.mpr ⟨hmerged, hsame ▸ hturn⟩))
  · rw [ofTurnOrNone_congr hboth.turn] at hturn
    split_ifs at hturn with hinherits
    · rcases hboth.spins hspin with he | hi
      · exact .inl (and_eq_true_iff.mpr ⟨he, hturn⟩)
      · have hgoesOn : goesOn i := by
          have hstatus := (Bool.and_eq_true_iff.mp hi).2
          rw [goesOn, Bool.or_assoc, hstatus, Bool.or_true]
        exact .inr (.inr ⟨Bool.and_eq_true_iff.mpr ⟨hinherits, hgoesOn⟩,
          Bool.and_eq_true_iff.mpr ⟨hboth.held, hturn⟩⟩)
    · exact .inr (.inl (Bool.and_eq_true_iff.mpr ⟨hmerged, hturn⟩))

/-- What the client holds and what arrives for the canonical timeline. -/
def Transition.claimants (s : ChatV2ClientState) (t : Transition) : List TimelineItem :=
  s.timelineItems ++ s.timelineById.values ++ s.localItems ++ s.volatileItems ++ t.arrivingItems

/-- No item of the held or the arriving overlay that can set another going again shares its id
with an item of a turn other than the overlay's. -/
def Transition.KeepsTurns (s : ChatV2ClientState) (t : Transition) : Prop :=
  ∀ r ∈ s.runtime.toList ++ t.arrivingRuntime.toList, r.hasActiveTurn → ∀ turnId ∈ r.activeTurnId,
    ∀ x ∈ r.volatileItems, mayResume x → ∀ e ∈ t.claimants s, e.id = x.id →
      namesOther turnId e = false

instance (s : ChatV2ClientState) (t : Transition) : Decidable (t.KeepsTurns s) :=
  inferInstanceAs (Decidable (∀ r ∈ s.runtime.toList ++ t.arrivingRuntime.toList, r.hasActiveTurn →
    ∀ turnId ∈ r.activeTurnId, ∀ x ∈ r.volatileItems, mayResume x → ∀ e ∈ t.claimants s,
      e.id = x.id → namesOther turnId e = false))

/-- No overlay item can set a held item of another turn going again. -/
def TurnsApart (s : ChatV2ClientState) : Prop :=
  ∀ r, s.runtime = some r → r.hasActiveTurn → ∀ turnId ∈ r.activeTurnId, ∀ x ∈ r.volatileItems,
    mayResume x → ∀ e ∈ s.timelineItems ++ s.localItems, e.id = x.id → namesOther turnId e = false

theorem turnsApart_empty : TurnsApart emptyChatV2State := by
  intro r hr
  cases hr

theorem EditOf.namesOther {y : TimelineItem} (h : EditOf x y) :
    namesOther turnId y = namesOther turnId x := by
  rw [Client.namesOther, h.execution, ofTurnOrNone_congr h.turn, Client.namesOther]

theorem mayResume_closePriorPhase (h : mayResume (closePriorPhase x)) : mayResume x := by
  unfold closePriorPhase at h
  split at h
  · split_ifs at h
    · simp [mayResume, goesOn] at h
    · exact h
  · split_ifs at h
    · simp [mayResume, goesOn] at h
    · exact h
  · exact h

theorem turnsApart_step (hl : Labelled s.timelineById) (ht : t.KeepsTurns s) :
    TurnsApart (step s t) := by
  intro r hr hactive turnId hturn x hx hresume
  -- The item comes from an overlay of the same turn, held or arriving, which has one like it.
  have horigin : ∃ o ∈ s.runtime.toList ++ t.arrivingRuntime.toList, SameTurn o r ∧
      ∃ y ∈ o.volatileItems, y.id = x.id ∧ mayResume y := by
    refine step_volatile_of_turn (P := fun x => mayResume x →
      ∃ o ∈ s.runtime.toList ++ t.arrivingRuntime.toList, SameTurn o r ∧
        ∃ y ∈ o.volatileItems, y.id = x.id ∧ mayResume y) ?_ ?_ hr ?_ ?_ x hx hresume
    · intro e i hid he hi hmerged
      rw [mergeTimelineItem_id hid]
      rcases mayResume_mergeTimelineItem hmerged with h | h
      · exact hid ▸ he h
      · exact hi h
    · intro y hy hclosed
      rw [(EditOf.closePriorPhase y).id]
      exact hy (mayResume_closePriorPhase hclosed)
    · intro c hc hsame y hy hresumes
      exact ⟨c, mem_append_left _ (Option.mem_toList.mpr hc), hsame, y, hy, rfl, hresumes⟩
    · intro i hi hsame y hy hresumes
      exact ⟨i, mem_append_right _ (Option.mem_toList.mpr hi), hsame, y, hy, rfl, hresumes⟩
  obtain ⟨o, ho, hsame, y, hy, hid, hresumes⟩ := horigin
  have hclaims : ∀ e ∈ t.claimants s, e.id = x.id → namesOther turnId e = false := fun e he heq =>
    ht o ho (hsame.2.trans hactive) turnId (hsame.1.trans hturn) y hy hresumes e he
      (heq.trans hid.symm)
  have hmerge : ∀ e i : TimelineItem, e.id = i.id → (e.id = x.id → namesOther turnId e = false) →
      (i.id = x.id → namesOther turnId i = false) →
      (mergeTimelineItem e i).id = x.id → namesOther turnId (mergeTimelineItem e i) = false := by
    intro e i hei he hi heq
    rw [mergeTimelineItem_id hei] at heq
    rw [← not_eq_true]
    intro hother
    rcases namesOther_mergeTimelineItem hother with h | h
    · exact false_ne_true ((he (hei.trans heq)).symm.trans h)
    · exact false_ne_true ((hi heq).symm.trans h)
  have hheld : s.timeline.All (fun e => e.id = x.id → namesOther turnId e = false) := by
    refine ⟨fun e he => hclaims e ?_, fun id e he => hclaims e ?_, hl⟩
    · exact mem_append_left _ (mem_append_left _ (mem_append_left _ (mem_append_left _ he)))
    · have hvalue : e ∈ s.timelineById.values := OrderedMap.mem_values.mpr ⟨id, he⟩
      simp [Transition.claimants, hvalue]
  have hcanonical : (step s t).timeline.All (fun e => e.id = x.id → namesOther turnId e = false) :=
    step_timeline_all hmerge hheld (fun e he => hclaims e (by simp [Transition.claimants, he]))
  have huser : ∀ y : TimelineItem, isExecution y = false → namesOther turnId y = false := by
    intro y hy
    rw [namesOther, hy, Bool.false_and]
  have hlocal : ∀ e ∈ (step s t).localItems, e.id = x.id → namesOther turnId e = false := by
    refine step_local_all (P := fun e => e.id = x.id → namesOther turnId e = false) ?_
      (baseLocal_all fun e he => hclaims e (by simp [Transition.claimants, he])) ?_ ?_ ?_ ?_
    · intro a b hab ha heq
      rw [hab.namesOther]
      exact ha (hab.id.symm.trans heq)
    · intro e he heq
      have hedit := EditOf.terminalizeSettledItem e
      rw [hedit.namesOther]
      exact hclaims e (by simp [Transition.claimants, he]) (hedit.id.symm.trans heq)
    · intro y _ hu _
      exact huser _ (isExecution_of_userClientId hu)
    · intro e y _ hu _ _ _
      refine huser _ ?_
      rw [isExecution_mergeTimelineItem]
      exact isExecution_of_userClientId hu
    · intro y hnew _
      exact huser y (isExecution_newLocalItem hnew)
  intro e he
  rcases mem_append.mp he with he | he
  · exact hcanonical.items e he
  · exact hlocal e he

/-- Along a run whose steps keep the turns apart, they are apart in the state it reaches. -/
theorem turnsApart_run {ts : List Transition}
    (h : RunMeets (fun s t => t.KeepsTurns s) emptyChatV2State ts) :
    TurnsApart (run emptyChatV2State ts) := by
  have hempty : Labelled emptyChatV2State.timelineById := by
    intro id x hx
    cases hx
  refine (run_preserves (I := fun s => Labelled s.timelineById ∧ TurnsApart s) ?_
    ⟨hempty, turnsApart_empty⟩ h).2
  rintro s t ⟨hl, -⟩ ht
  have hall : (step s t).timeline.All (fun _ => True) :=
    step_timeline_all (fun _ _ _ _ _ => trivial) ⟨fun _ _ => trivial, fun _ _ _ => trivial, hl⟩
      (fun _ _ => trivial)
  exact ⟨hall.labelled, turnsApart_step hl ht⟩

end Cognis.Client
