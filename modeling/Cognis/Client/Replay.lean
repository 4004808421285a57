import Cognis.Client.Steps

namespace Cognis.Client

open List Timeline

variable (log : ServerLog) (s : ChatV2ClientState)

/-- A server log: a start cursor, then for each step the ops it applies and the cursor it
leads to. No cursor is used twice. -/
structure ServerLog where
  start : String
  entries : List (List ChatViewOp × String)
  distinct : (start :: entries.map Prod.snd).Nodup

namespace ServerLog

def cursors : List String := log.start :: log.entries.map Prod.snd

/-- The ops of the first `k` steps, in order. -/
def opsUpTo (k : Nat) : List ChatViewOp := (log.entries.take k).flatMap Prod.fst

/-- The ops that lead from cursor `i` to cursor `j`. -/
def opsBetween (i j : Nat) : List ChatViewOp :=
  ((log.entries.take j).drop i).flatMap Prod.fst

theorem opsUpTo_append {i j : Nat} (h : i ≤ j) :
    log.opsUpTo j = log.opsUpTo i ++ log.opsBetween i j := by
  unfold opsUpTo opsBetween
  rw [← flatMap_append]
  congr 1
  conv_lhs => rw [← take_append_drop i (log.entries.take j), take_take, Nat.min_eq_left h]

theorem cursor_inj {i j : Nat} {c : String} (hi : log.cursors[i]? = some c)
    (hj : log.cursors[j]? = some c) : i = j := by
  obtain ⟨hlt, -⟩ := List.getElem?_eq_some_iff.mp hi
  exact (getElem?_inj hlt log.distinct).mp (hi.trans hj.symm)

end ServerLog

/-- A single step or a concatenation of consecutive steps of the log. -/
def DrawnFrom (r : SyncPayload) : Prop :=
  ∃ i j, i ≤ j ∧ log.cursors[i]? = some r.cursorBefore ∧ log.cursors[j]? = some r.cursorAfter ∧
    r.ops = log.opsBetween i j

/-- What the delivery schedule may contain: frames of the log, runtime-only frames at any
cursor, mutation acknowledgements without a cursor, and the client's own admissions. -/
def Transition.Delivers : Transition → Prop
  | .snapshot .. => False
  | .backfill .. => False
  | .sync payload _ => DrawnFrom log payload ∨ payload.runtimeOnly = true
  | .send response => response.cursor = none
  | .queueMutation response => response.cursor = none
  | _ => True

def Transition.queuePayload (conversationId : Option String) : Transition → Option QueueState
  | .queueMutation response =>
    if conversationId = some response.conversationId then some response.queue else none
  | _ => none

def applyQueueEvent (queue : Option QueueState) : ChatViewOp ⊕ QueueState → Option QueueState
  | .inl (.replaceQueue q) => some q
  | .inl _ => queue
  | .inr q => some q

def OpTarget.canonical (t : OpTarget) :
    OpTarget := { t with queue := none, timelineChanged := false }

theorem applyOp_canonical (t : OpTarget) (op : ChatViewOp) :
    (applyOp t.canonical op).canonical = (applyOp t op).canonical := by
  cases op with
  | removeItem id =>
    dsimp only [applyOp, OpTarget.canonical]
    split_ifs <;> rfl
  | _ => rfl

theorem foldl_applyOp_canonical (ops : List ChatViewOp) (t : OpTarget) :
    (ops.foldl applyOp t.canonical).canonical = (ops.foldl applyOp t).canonical := by
  induction ops generalizing t with
  | nil => rfl
  | cons op ops ih => rw [foldl_cons, foldl_cons, ← ih, applyOp_canonical, ih]

theorem queue_foldl_applyOp (ops : List ChatViewOp) (t : OpTarget) :
    (ops.foldl applyOp t).queue = (ops.map Sum.inl).foldl applyQueueEvent t.queue := by
  induction ops generalizing t with
  | nil => rfl
  | cons op ops ih =>
    rw [foldl_cons, ih, map_cons, foldl_cons]
    congr 1
    cases op with
    | removeItem id =>
      dsimp only [applyOp, applyQueueEvent]
      split_ifs <;> rfl
    | _ => rfl

/-- The parts of a state that the log speaks about. -/
structure CanonicalView where
  conversationId : Option String
  cursor : Option String
  target : OpTarget

def ChatV2ClientState.view : CanonicalView :=
  ⟨s.conversationId, s.cursor, s.opTarget⟩

@[simp] theorem view_applyBoundaryReceipts (receipts : List BoundaryReceipt) (now : String) :
    (applyBoundaryReceipts s receipts now).view = s.view := by
  refine applyBoundaryReceipts_induct s (P := fun t => t.view = s.view) (fun t receipt h => ?_)
    receipts rfl
  rw [← h]
  unfold applyReceipt
  split
  · split_ifs <;> rfl
  · rfl

theorem cursor_applyBoundaryReceipts (receipts : List BoundaryReceipt)
    (now : String) : (applyBoundaryReceipts s receipts now).cursor = s.cursor :=
  congrArg CanonicalView.cursor (view_applyBoundaryReceipts s receipts now)

/-- What a frame that extends the cursor leaves. -/
def ChatV2ClientState.extendedBy (r : SyncPayload) : CanonicalView :=
  ⟨s.conversationId, some r.cursorAfter, { r.ops.foldl applyOp s.opTarget with
    timelineChanged := false }⟩

theorem view_applyInOrder (r : SyncPayload) (now : String) :
    (applyInOrder (applyBoundaryReceipts s r.receipts now) r).view = s.extendedBy r := by
  have hview := view_applyBoundaryReceipts s r.receipts now
  have htarget : (applyBoundaryReceipts s r.receipts now).opTarget = s.opTarget :=
    congrArg CanonicalView.target hview
  have hconv : (applyBoundaryReceipts s r.receipts now).conversationId = s.conversationId :=
    congrArg CanonicalView.conversationId hview
  rw [ChatV2ClientState.extendedBy, ← htarget, ← hconv]
  rfl

theorem applyScopedSync_view (r : SyncPayload) (now : String) :
    (applyScopedSync s r now).state.view = s.view ∨
    (s.cursor = some r.cursorBefore ∧
      (applyScopedSync s r now).state.view = s.extendedBy r) := by
  have hview := view_applyBoundaryReceipts s r.receipts now
  rcases applyScopedSync_cases s r now with ⟨-, _, _, hst⟩ | ⟨-, received, rfl, hst⟩
  · exact .inl (by rw [hst]; rfl)
  · rcases hst with ⟨_, _, hst, -⟩ | ⟨-, hst⟩ | ⟨-, -, _, -, hst⟩ | ⟨hcur, -, hst⟩
    · exact .inl (by rw [hst]; exact hview)
    · exact .inl (by rw [hst]; exact hview)
    · exact .inl (by rw [hst]; exact hview)
    · refine .inr ⟨(cursor_applyBoundaryReceipts s r.receipts now).symm.trans hcur, ?_⟩
      rw [hst]
      exact view_applyInOrder s r now

variable {r : SyncPayload}

/-- A frame that is admitted at its own cursor, and asks for no reset, is applied. -/
theorem view_of_extending (hadmits : Admits s r) (hcur : s.cursor = some r.cursorBefore)
    (hops : r.ops.findSome? resetOpReason = none)
    (now : String) : (step s (.sync r now)).view = s.extendedBy r := by
  have hreceived := (cursor_applyBoundaryReceipts s r.receipts now).trans hcur
  change (applyScopedSync s r now).state.view = _
  rcases applyScopedSync_cases s r now with ⟨hno, -⟩ | ⟨-, received, rfl, hst⟩
  · exact absurd hadmits hno
  · rcases hst with ⟨_, _, -, hno⟩ | ⟨hno, -⟩ | ⟨hno, -⟩ | ⟨-, -, hst⟩
    · exact absurd ⟨hreceived, hops⟩ hno
    · exact absurd hreceived hno
    · exact absurd hreceived hno
    · rw [hst]
      exact view_applyInOrder s r now

variable {t : Transition} {s' : ChatV2ClientState} {log : ServerLog} {s : ChatV2ClientState}

theorem step_view (h : t.Delivers log) :
    (t.queuePayload s.conversationId = none ∧ (step s t).view = s.view) ∨
    (∃ r now, t = .sync r now ∧ (DrawnFrom log r ∨ r.runtimeOnly = true) ∧
      s.cursor = some r.cursorBefore ∧ (step s t).view = s.extendedBy r) ∨
    (∃ r, t = .queueMutation r ∧ s.conversationId = some r.conversationId ∧
      (step s t).view =
        ⟨s.conversationId, s.cursor, { s.opTarget with queue := some r.queue }⟩) := by
  have hedit := serverDriven_or_edit s t
  cases t with
  | snapshot | backfill => exact h.elim
  | sync payload now =>
    rcases applyScopedSync_view s payload now with hv | ⟨hcur, hv⟩
    · exact .inl ⟨rfl, hv⟩
    · exact .inr (.inl ⟨payload, now, rfl, h, hcur, hv⟩)
  | send response =>
    refine .inl ⟨rfl, ?_⟩
    have hnone : response.cursor = none := h
    simp only [step, applySendResponse, hnone, Option.none_or]
    split_ifs <;> rfl
  | cancel =>
    refine .inl ⟨rfl, ?_⟩
    simp only [step, applyCancelResponse]
    split_ifs <;> rfl
  | queueMutation response =>
    have hnone : response.cursor = none := h
    by_cases hconv : s.conversationId = some response.conversationId
    · refine .inr (.inr ⟨response, rfl, hconv, ?_⟩)
      simp only [step, applyQueueMutationResponse, hnone, Option.none_or]
      rw [if_neg (by simpa using hconv)]
      rfl
    · refine .inl ⟨if_neg hconv, ?_⟩
      simp only [step, applyQueueMutationResponse]
      rw [if_pos hconv]
      rfl
  | addOptimistic _ | promote _ | markFailed _ _ | updateQueued _ _ _ _ | deleteQueued _ _ _
  | addSystem _ =>
    obtain ⟨_, _, hedit⟩ := hedit.resolve_left Bool.false_ne_true
    exact .inl ⟨rfl, hedit ▸ rfl⟩

/-- After the deliveries `ts` the client stands at cursor `k` of the log: its canonical data
are what the first `k` op lists make of the start, and its queue is what those ops and the
queue mutations delivered make of it, in some order of the two. -/
structure Replayed (log : ServerLog) (s₀ : ChatV2ClientState) (ts : List Transition)
    (s : ChatV2ClientState) (k : Nat) : Prop where
  conversationId : s.conversationId = s₀.conversationId
  cursor : s.cursor = log.cursors[k]?
  bound : k ≤ log.entries.length
  canonical : s.opTarget.canonical = ((log.opsUpTo k).foldl applyOp s₀.opTarget).canonical
  queue : ∃ trace : List (ChatViewOp ⊕ QueueState), trace.filterMap Sum.getLeft? = log.opsUpTo k ∧
    trace.filterMap Sum.getRight? = ts.filterMap (Transition.queuePayload s₀.conversationId) ∧
    s.queue = trace.foldl applyQueueEvent s₀.queue

section

variable {log : ServerLog} {s₀ s : ChatV2ClientState} {ts : List Transition} {k : Nat}

variable (h : Replayed log s₀ ts s k)
include h

theorem Replayed.of_view (hv : s'.view = s.view)
    (hq : t.queuePayload s₀.conversationId = none) :
    Replayed log s₀ (ts ++ [t]) s' k where
  conversationId := (congrArg CanonicalView.conversationId hv).trans h.conversationId
  cursor := (congrArg CanonicalView.cursor hv).trans h.cursor
  bound := h.bound
  canonical := by
    have htarget : s'.opTarget = s.opTarget := congrArg CanonicalView.target hv
    rw [htarget]
    exact h.canonical
  queue := by
    obtain ⟨trace, hl, hr, hqueue⟩ := h.queue
    have hsame : s'.queue = s.queue := congrArg (fun v => v.target.queue) hv
    refine ⟨trace, hl, ?_, hsame.trans hqueue⟩
    rw [hr, filterMap_append, filterMap_cons, hq]
    simp

theorem Replayed.advance {now : String} {j : Nat} (hkj : k ≤ j)
    (hj : log.cursors[j]? = some r.cursorAfter) (hops : r.ops = log.opsBetween k j)
    (hv : s'.view = s.extendedBy r) :
    Replayed log s₀ (ts ++ [.sync r now]) s' j where
  conversationId := (congrArg CanonicalView.conversationId hv).trans h.conversationId
  cursor := (congrArg CanonicalView.cursor hv).trans hj.symm
  bound := by
    obtain ⟨hlt, -⟩ := List.getElem?_eq_some_iff.mp hj
    simp only [ServerLog.cursors, length_cons, length_map] at hlt
    omega
  canonical := by
    have htarget : s'.opTarget = { r.ops.foldl applyOp s.opTarget with timelineChanged := false } :=
      congrArg CanonicalView.target hv
    calc s'.opTarget.canonical = (r.ops.foldl applyOp s.opTarget).canonical := by rw [htarget]; rfl
      _ = (r.ops.foldl applyOp s.opTarget.canonical).canonical :=
        (foldl_applyOp_canonical r.ops s.opTarget).symm
      _ = (r.ops.foldl applyOp ((log.opsUpTo k).foldl applyOp s₀.opTarget)).canonical := by
        rw [h.canonical, foldl_applyOp_canonical]
      _ = ((log.opsUpTo j).foldl applyOp s₀.opTarget).canonical := by
        rw [log.opsUpTo_append hkj, foldl_append, hops]
  queue := by
    obtain ⟨trace, hl, hr, hqueue⟩ := h.queue
    have hsame : s'.queue = (r.ops.foldl applyOp s.opTarget).queue :=
      congrArg (fun v => v.target.queue) hv
    refine ⟨trace ++ r.ops.map Sum.inl, ?_, ?_, ?_⟩
    · rw [filterMap_append, hl, log.opsUpTo_append hkj, hops, filterMap_map]
      simp [Function.comp_def]
    · rw [filterMap_append, hr, filterMap_append, filterMap_map]
      simp [Function.comp_def, Transition.queuePayload]
    · rw [hsame, queue_foldl_applyOp, foldl_append, ← hqueue]
      rfl

theorem Replayed.mutateQueue {r : QueueMutationResponse}
    (hconv : s.conversationId = some r.conversationId)
    (hv : s'.view = ⟨s.conversationId, s.cursor, { s.opTarget with queue := some r.queue }⟩) :
    Replayed log s₀ (ts ++ [.queueMutation r]) s' k where
  conversationId := (congrArg CanonicalView.conversationId hv).trans h.conversationId
  cursor := (congrArg CanonicalView.cursor hv).trans h.cursor
  bound := h.bound
  canonical := by
    have htarget : s'.opTarget = { s.opTarget with queue := some r.queue } :=
      congrArg CanonicalView.target hv
    rw [htarget]
    exact h.canonical
  queue := by
    obtain ⟨trace, hl, hr, -⟩ := h.queue
    have hqueue : s'.queue = some r.queue := congrArg (fun v => v.target.queue) hv
    have hc : s₀.conversationId = some r.conversationId := h.conversationId.symm.trans hconv
    refine ⟨trace ++ [.inr r.queue], ?_, ?_, ?_⟩
    · simp [filterMap_append, hl]
    · simp [filterMap_append, hr, Transition.queuePayload, hc]
    · rw [hqueue, foldl_append]
      rfl

theorem Replayed.step (ht : t.Delivers log) :
    ∃ k', Replayed log s₀ (ts ++ [t]) (step s t) k' := by
  rcases step_view (s := s) ht with ⟨hq, hv⟩ | ⟨r, now, rfl, hdrawn, hcur, hv⟩ | ⟨r, rfl, hconv, hv⟩
  · exact ⟨k, h.of_view hv (h.conversationId ▸ hq)⟩
  · have hk : log.cursors[k]? = some r.cursorBefore := h.cursor.symm.trans hcur
    rcases hdrawn with ⟨i, j, hij, hi, hj, hops⟩ | hro
    · obtain rfl := log.cursor_inj hi hk
      exact ⟨j, h.advance hij hj hops hv⟩
    · simp only [SyncPayload.runtimeOnly, Bool.and_eq_true, List.isEmpty_iff,
        decide_eq_true_eq] at hro
      refine ⟨k, h.advance (le_refl k) (hro.2 ▸ hk) ?_ hv⟩
      rw [hro.1.2, ServerLog.opsBetween, drop_eq_nil_of_le (by simp)]
      rfl
  · exact ⟨k, h.mutateQueue hconv hv⟩

end

theorem run_replayed {s₀ : ChatV2ClientState} (hs : s₀.cursor = some log.start)
    (ts : List Transition) (h : ∀ t ∈ ts, t.Delivers log) :
    ∃ k, Replayed log s₀ ts (run s₀ ts) k := by
  induction ts using reverseRecOn with
  | nil =>
    refine ⟨0, rfl, hs, Nat.zero_le _, ?_, [], ?_, rfl, rfl⟩
    · simp [run, ServerLog.opsUpTo]
    · simp [ServerLog.opsUpTo]
  | append_singleton ts t ih =>
    obtain ⟨k, hk⟩ := ih (fun x hx => h x (mem_append_left _ hx))
    have hrun : run s₀ (ts ++ [t]) = step (run s₀ ts) t := by simp [run]
    rw [hrun]
    exact hk.step (h t (by simp))

theorem sync_view_of_not_extending {now : String} (h : (Transition.sync r now).Delivers log)
    (hno : s.cursor ≠ some r.cursorBefore ∨ r.cursorAfter = r.cursorBefore) :
    (step s (.sync r now)).view = s.view := by
  rcases applyScopedSync_view s r now with hv | ⟨hcur, hv⟩
  · exact hv
  · have hsame := hno.resolve_left (by simpa using hcur)
    have hops : r.ops = [] := by
      rcases h with ⟨i, j, hij, hi, hj, hops⟩ | hro
      · obtain rfl := log.cursor_inj hi (hsame ▸ hj)
        rw [hops, ServerLog.opsBetween, drop_eq_nil_of_le (by simp)]
        rfl
      · simp only [SyncPayload.runtimeOnly, Bool.and_eq_true, List.isEmpty_iff] at hro
        exact hro.1.2
    change (applyScopedSync s r now).state.view = s.view
    rw [hv, ChatV2ClientState.extendedBy, hops, hsame, ← hcur]
    rfl

/-- Exactly-once application: from a snapshot at the start of a log, in every schedule of its
frames the client is at some cursor `k` with the first `k` op lists applied once each in
order; a frame that extends the cursor is applied, and any other changes nothing of it. -/
theorem replay_exactly_once (log : ServerLog) (snapshot : ChatSnapshot)
    (previous : Option ChatV2ClientState) (adopt : Bool) (hstart : snapshot.cursor = some log.start)
    (s₀ : ChatV2ClientState) (hs₀ : s₀ = applySnapshot snapshot previous adopt)
    (ts : List Transition) (hdelivers : ∀ t ∈ ts, t.Delivers log) :
    (∃ k, k ≤ log.entries.length ∧ (run s₀ ts).cursor = log.cursors[k]? ∧
      (run s₀ ts).timeline = ((log.opsUpTo k).foldl applyOp s₀.opTarget).timeline ∧
      (run s₀ ts).conversation = ((log.opsUpTo k).foldl applyOp s₀.opTarget).conversation ∧
      (run s₀ ts).state = ((log.opsUpTo k).foldl applyOp s₀.opTarget).state ∧
      ∃ trace : List (ChatViewOp ⊕ QueueState), trace.filterMap Sum.getLeft? = log.opsUpTo k ∧
        trace.filterMap Sum.getRight? = ts.filterMap (Transition.queuePayload s₀.conversationId) ∧
        (run s₀ ts).queue = trace.foldl applyQueueEvent s₀.queue) ∧
    (∀ r now, (Transition.sync r now).Delivers log →
      (run s₀ ts).cursor ≠ some r.cursorBefore ∨ r.cursorAfter = r.cursorBefore →
      (step (run s₀ ts) (.sync r now)).view = (run s₀ ts).view) ∧
    ∀ r now, Admits (run s₀ ts) r → (run s₀ ts).cursor = some r.cursorBefore →
      r.ops.findSome? resetOpReason = none →
      (step (run s₀ ts) (.sync r now)).view = (run s₀ ts).extendedBy r := by
  have hcursor : s₀.cursor = some log.start := by
    rw [hs₀]
    exact hstart
  obtain ⟨k, hk⟩ := run_replayed hcursor ts hdelivers
  refine ⟨⟨k, hk.bound, hk.cursor, ?_, ?_, ?_, hk.queue⟩,
    fun r now hr hno => sync_view_of_not_extending hr hno,
    fun r now hadmits hcur hops => view_of_extending _ hadmits hcur hops now⟩
  · exact congrArg OpTarget.timeline hk.canonical
  · exact congrArg OpTarget.conversation hk.canonical
  · exact congrArg OpTarget.state hk.canonical

def twoStepLog : ServerLog where
  start := "k"
  entries :=
    [([.upsertItem (noticeItem "x" "5")], "k1"), ([.upsertItem (noticeItem "y" "6")], "k2")]
  distinct := by decide

/-- The realtime frame of conversation `c` between two cursors. -/
def logFrame (cursorBefore cursorAfter : String) (ops : List ChatViewOp) : Transition :=
  .sync { realtime := true, projectionVersion := "v9", conversationId := "c",
          cursorBefore := cursorBefore, cursorAfter := cursorAfter, ops := ops } "now"

/-- The second step arrives first, then the first step twice: one step is applied. -/
theorem replay_exactly_once_reordered :
    let s₀ := applySnapshot (pageSnapshot [] false) none false
    let ts := [logFrame "k1" "k2" [.upsertItem (noticeItem "y" "6")],
      logFrame "k" "k1" [.upsertItem (noticeItem "x" "5")],
      logFrame "k" "k1" [.upsertItem (noticeItem "x" "5")]]
    (pageSnapshot [] false).cursor = some twoStepLog.start ∧ (∀ t ∈ ts, t.Delivers twoStepLog) ∧
      (run s₀ ts).cursor = some "k1" ∧
        (run s₀ ts).timeline = ((twoStepLog.opsUpTo 1).foldl applyOp s₀.opTarget).timeline := by
  intro s₀ ts
  have hdelivers : ∀ t ∈ ts, t.Delivers twoStepLog := by
    intro t ht
    simp only [ts, mem_cons, not_mem_nil, or_false] at ht
    rcases ht with rfl | rfl | rfl
    · exact .inl ⟨1, 2, by decide, rfl, rfl, rfl⟩
    · exact .inl ⟨0, 1, by decide, rfl, rfl, rfl⟩
    · exact .inl ⟨0, 1, by decide, rfl, rfl, rfl⟩
  obtain ⟨⟨k, -, hcursor, htimeline, -⟩, -⟩ := replay_exactly_once twoStepLog
    (pageSnapshot [] false)
    none false rfl s₀ rfl ts hdelivers
  have hat : (run s₀ ts).cursor = some "k1" := by decide +kernel
  obtain rfl : k = 1 := twoStepLog.cursor_inj (hcursor.symm.trans hat) rfl
  exact ⟨rfl, hdelivers, hat, htimeline⟩

end Cognis.Client
