import Cognis.Library.JsonValue

namespace Cognis.HistoryReplay

open List

open JsonValue (Members get?)

structure HistoryEvent where
  type : String
  data : Members
  deriving DecidableEq

def recordedToolOutput (data : Members) : Option String :=
  match get? data "result" with
  | some (.str result) => some result
  | _ =>
    match get? data "output" with
    | some (.str output) => some output
    | _ => none

def callId (event : HistoryEvent) : Option String :=
  match get? event.data "call_id" with
  | some (.str id) => some id
  | _ => none

def isBoundary (event : HistoryEvent) : Bool :=
  ["user_message", "assistant_message"].contains event.type

def opens (event : HistoryEvent) (id : String) : Bool :=
  event.type == "tool_call" && callId event == some id

def closes (event : HistoryEvent) (id : String) : Bool :=
  event.type == "tool_result" && (recordedToolOutput event.data).isSome && callId event == some id

def stillPending (pending : List String) (event : HistoryEvent) : List String :=
  if isBoundary event then []
  else if event.type = "tool_call" then
    match callId event with
    | some id => id :: pending
    | none => pending
  else if event.type = "tool_result" then
    match recordedToolOutput event.data, callId event with
    | some _, some id => pending.filter (· ≠ id)
    | _, _ => pending
  else pending

section

-- `isOne` compares a number with 1, and `view` reads an event, a dict or an object.
variable {α : Type} (isOne : String → Bool) (view : α → HistoryEvent)

/-- A deferrable notice: `tool_context_notice_version != 1`. -/
def isNotice (event : HistoryEvent) : Bool :=
  ["lifecycle", "evaluation", "delegation", "developer_message"].contains event.type &&
    match get? event.data "tool_context_notice_version" with
    | some (.num text) => !isOne text
    | some (.bool version) => !version
    | _ => true

/-- The loop of `defer_tool_batch_notices`, from its state on. -/
def deferFrom : List String → List α → List α → List α
  | _, deferred, [] => deferred
  | pending, deferred, event :: events =>
    if isNotice isOne (view event) && !pending.isEmpty then
      deferFrom pending (deferred ++ [event]) events
    else
      let pending := stillPending pending (view event)
      if isBoundary (view event) then deferred ++ event :: deferFrom pending [] events
      else if pending.isEmpty then event :: (deferred ++ deferFrom pending [] events)
      else event :: deferFrom pending deferred events

def deferToolBatchNotices (events : List α) : List α := deferFrom isOne view [] [] events

def Flushed (events : List α) : Prop :=
  ∀ e, ((events.map view).dropWhile (isNotice isOne)).head? = some e → isBoundary e = true

def Settled : List String → List α → Prop
  | _, [] => True
  | pending, event :: events =>
    (isNotice isOne (view event) = true → pending = [] ∨ Flushed isOne view events) ∧
    Settled (stillPending pending (view event)) events

/-- One event stands before another, each with its place in the history: they have been in that
order, or the later one is a notice that the other, neither notice nor boundary, was behind. -/
def InOrder (a b : α × Nat) : Prop :=
  a.2 < b.2 ∨ isNotice isOne (view b.1) = true ∧ isNotice isOne (view a.1) = false ∧
    isBoundary (view a.1) = false

variable {isOne view} {pending : List String} {deferred events rest : List α} {event : α}
  {e : HistoryEvent} {id : String}

theorem stillPending_notice (h : isNotice isOne e) (p : List String) :
    stillPending p e = p := by
  have htype : e.type ∈ ["lifecycle", "evaluation", "delegation", "developer_message"] := by
    simpa using (Bool.and_eq_true_iff.mp h).1
  unfold stillPending isBoundary
  simp only [mem_cons, not_mem_nil, or_false] at htype
  rcases htype with htype | htype | htype | htype <;> simp [htype]

theorem stillPending_boundary (h : isBoundary e) (p : List String) :
    stillPending p e = [] := if_pos h

theorem notice_of_boundary (h : isBoundary e) : isNotice isOne e = false := by
  have htype : e.type = "user_message" ∨ e.type = "assistant_message" := by
    simpa [isBoundary] using h
  unfold isNotice
  rcases htype with htype | htype <;> simp [htype]

theorem deferFrom_cases (event : α) (events : List α) (hinv : pending = [] → deferred = []) :
    (isNotice isOne (view event) ∧ pending ≠ [] ∧
      deferFrom isOne view pending deferred (event :: events) =
        deferFrom isOne view pending (deferred ++ [event]) events) ∨
    (isBoundary (view event) ∧ deferFrom isOne view pending deferred (event :: events) =
        deferred ++ event :: deferFrom isOne view [] [] events) ∨
    (isBoundary (view event) = false ∧ stillPending pending (view event) = [] ∧
      (isNotice isOne (view event) → deferred = []) ∧
      deferFrom isOne view pending deferred (event :: events) =
        event :: (deferred ++ deferFrom isOne view [] [] events)) ∨
    (isBoundary (view event) = false ∧ stillPending pending (view event) ≠ [] ∧
      isNotice isOne (view event) = false ∧
      deferFrom isOne view pending deferred (event :: events) =
        event :: deferFrom isOne view (stillPending pending (view event)) deferred events) := by
  rw [deferFrom.eq_2]
  dsimp only
  split_ifs with hheld hboundary hempty
  · left
    simpa using hheld
  · right; left
    rw [stillPending_boundary hboundary]
    exact ⟨hboundary, rfl⟩
  · right; right; left
    have hnil : stillPending pending (view event) = [] := isEmpty_iff.mp hempty
    rw [hnil]
    refine ⟨by simpa using hboundary, rfl, ?_, rfl⟩
    intro hnotice
    rw [stillPending_notice hnotice] at hnil
    exact hinv hnil
  · right; right; right
    have hne : stillPending pending (view event) ≠ [] := fun h => hempty (isEmpty_iff.mpr h)
    refine ⟨by simpa using hboundary, hne, ?_, rfl⟩
    by_contra hnotice
    rw [Bool.not_eq_false] at hnotice
    rw [stillPending_notice hnotice] at hne
    exact hheld (by simp [hnotice, hne])

theorem deferFrom_perm (hinv : pending = [] → deferred = []) :
    (deferFrom isOne view pending deferred events).Perm (deferred ++ events) := by
  induction events generalizing pending deferred with
  | nil => simp [deferFrom]
  | cons event events ih =>
    rcases deferFrom_cases event events hinv with ⟨-, hne, heq⟩ | ⟨-, heq⟩ |
      ⟨-, -, -, heq⟩ | ⟨-, hne, -, heq⟩
    · rw [heq]
      exact (ih fun h => absurd h hne).trans (by simp)
    · rw [heq]
      exact ((ih fun _ => rfl).cons event).append_left deferred
    · rw [heq]
      exact ((((ih fun _ => rfl).append_left deferred).cons event)).trans perm_middle.symm
    · rw [heq]
      exact ((ih fun h => absurd h hne).cons event).trans perm_middle.symm

theorem flushed_of_boundary (h : isBoundary (view event)) :
    Flushed isOne view (event :: events) := by
  have hnot : isNotice isOne (view event) = false := notice_of_boundary h
  simp [Flushed, hnot, h]

theorem flushed_append (h : ∀ n ∈ deferred, isNotice isOne (view n)) :
    Flushed isOne view (deferred ++ events) ↔ Flushed isOne view events := by
  unfold Flushed
  rw [map_append, dropWhile_append_of_pos (by simpa using h)]

theorem settled_append (h : ∀ n ∈ deferred, isNotice isOne (view n))
    (hflushed : deferred = [] ∨ pending = [] ∨ Flushed isOne view events)
    (hsettled : Settled isOne view pending events) :
    Settled isOne view pending (deferred ++ events) := by
  induction deferred with
  | nil => exact hsettled
  | cons n deferred ih =>
    have hrest : ∀ m ∈ deferred, isNotice isOne (view m) := fun m hm => h m (.tail n hm)
    have hcalm : pending = [] ∨ Flushed isOne view events := hflushed.resolve_left (by simp)
    constructor
    · intro _
      exact hcalm.imp_right (flushed_append hrest).mpr
    · rw [stillPending_notice (h n (.head _))]
      exact ih hrest (.inr hcalm)

theorem deferFrom_settled (hinv : pending = [] → deferred = [])
    (hdeferred : ∀ n ∈ deferred, isNotice isOne (view n)) :
    Settled isOne view pending (deferFrom isOne view pending deferred events) := by
  induction events generalizing pending deferred with
  | nil =>
    have hend : Flushed isOne view [] := by simp [Flushed]
    simpa [deferFrom] using settled_append hdeferred (.inr (.inr hend)) trivial
  | cons event events ih =>
    have hrest : Settled isOne view [] (deferFrom isOne view [] [] events) :=
      ih (fun _ => rfl) (by simp)
    rcases deferFrom_cases event events hinv with ⟨hnotice, hne, heq⟩ | ⟨hboundary, heq⟩ |
      ⟨-, hnil, hnone, heq⟩ | ⟨-, hne, hnot, heq⟩
    · rw [heq]
      apply ih (fun h => absurd h hne)
      intro n hn
      rcases mem_append.mp hn with hn | hn
      · exact hdeferred n hn
      · rwa [mem_singleton.mp hn]
    · have hnot : isNotice isOne (view event) = false := notice_of_boundary hboundary
      rw [heq]
      refine settled_append hdeferred (.inr (.inr (flushed_of_boundary hboundary))) ⟨?_, ?_⟩
      · simp [hnot]
      · rwa [stillPending_boundary hboundary]
    · rw [heq]
      constructor
      · intro hnotice
        rw [stillPending_notice hnotice] at hnil
        exact .inl hnil
      · rw [hnil]
        exact settled_append hdeferred (.inr (.inl rfl)) hrest
    · rw [heq]
      constructor
      · simp [hnot]
      · exact ih (fun h => absurd h hne) hdeferred

theorem deferFrom_of_settled (hinv : pending = [] → deferred = [])
    (hflushed : deferred = [] ∨ Flushed isOne view events)
    (h : Settled isOne view pending events) :
    deferFrom isOne view pending deferred events = deferred ++ events := by
  induction events generalizing pending deferred with
  | nil => simp [deferFrom]
  | cons event events ih =>
    obtain ⟨hcalm, hsettled⟩ := h
    have hkeep (hboundary : isBoundary (view event) = false)
        (hnone : isNotice isOne (view event) → deferred = []) : deferred = [] := by
      rcases hflushed with hnil | hflushed
      · exact hnil
      · by_cases hnotice : isNotice isOne (view event)
        · exact hnone hnotice
        · have hbad := hflushed (view event) (by simp [hnotice])
          rw [hboundary] at hbad
          cases hbad
    rcases deferFrom_cases event events hinv with ⟨hnotice, hne, heq⟩ | ⟨hboundary, heq⟩ |
      ⟨hboundary, hnil, hnone, heq⟩ | ⟨hboundary, hne, hnot, heq⟩
    · rw [heq, ih (fun h => absurd h hne) (.inr ((hcalm hnotice).resolve_left hne)) ?_]
      · simp
      · rwa [stillPending_notice hnotice] at hsettled
    · rw [stillPending_boundary hboundary] at hsettled
      rw [heq, ih (fun _ => rfl) (.inl rfl) hsettled]
      rfl
    · rw [hnil] at hsettled
      rw [heq, hkeep hboundary hnone, ih (fun _ => rfl) (.inl rfl) hsettled]
      rfl
    · rw [heq, hkeep hboundary (by simp [hnot]), ih (fun h => absurd h hne) (.inl rfl) hsettled]
      rfl

theorem mem_stillPending (hmem : id ∈ pending) (hboundary : isBoundary e = false)
    (hcloses : closes e id = false) : id ∈ stillPending pending e := by
  unfold stillPending
  unfold closes at hcloses
  rw [if_neg (by simp [hboundary])]
  split_ifs with hcall hresult
  · cases hid : callId e <;> simp [hmem]
  · cases houtput : recordedToolOutput e.data with
    | none => exact hmem
    | some =>
      cases hid : callId e with
      | none => exact hmem
      | some other =>
        have hother : id ≠ other := by
          intro heq
          simp [hresult, houtput, hid, heq] at hcloses
        simp [hmem, hother]
  · exact hmem

theorem stillPending_opens (h : opens e id) (p : List String) :
    stillPending p e = id :: p := by
  obtain ⟨htype, hid⟩ : e.type = "tool_call" ∧ callId e = some id := by simpa [opens] using h
  simp [stillPending, isBoundary, htype, hid]

theorem closes_spec (h : closes e id) :
    isNotice isOne e = false ∧ isBoundary e = false := by
  have htype : e.type = "tool_result" := by
    unfold closes at h
    simp only [Bool.and_eq_true, beq_iff_eq] at h
    exact h.1.1
  simp [isNotice, isBoundary, htype]

theorem not_flushed {between : List α} (hbetween : ∀ x ∈ between, isBoundary (view x) = false)
    (hcloses : closes (view event) id) :
    ¬ Flushed isOne view (between ++ event :: rest) := by
  obtain ⟨hnot, hboundary⟩ :
    isNotice isOne (view event) = false ∧ isBoundary (view event) = false :=
    closes_spec hcloses
  intro hflushed
  induction between with
  | nil => simp [Flushed, hnot, hboundary] at hflushed
  | cons x between ih =>
    by_cases hx : isNotice isOne (view x)
    · apply ih fun y hy => hbetween y (.tail x hy)
      simpa [Flushed, hx] using hflushed
    · have hbad := hflushed (view x) (by simp [hx])
      rw [hbetween x (.head _)] at hbad
      cases hbad

theorem settled_open {between : List α} (hmem : id ∈ pending)
    (h : Settled isOne view pending (between ++ event :: rest))
    (hbetween : ∀ x ∈ between, isBoundary (view x) = false ∧ closes (view x) id = false)
    (hcloses : closes (view event) id) :
    ∀ x ∈ between, isNotice isOne (view x) = false := by
  induction between generalizing pending with
  | nil => simp
  | cons x between ih =>
    obtain ⟨hcalm, hsettled⟩ := h
    obtain ⟨hboundary, hopen⟩ := hbetween x (.head _)
    have hrest : ∀ y ∈ between, isBoundary (view y) = false ∧ closes (view y) id = false :=
      fun y hy => hbetween y (.tail x hy)
    intro y hy
    rcases mem_cons.mp hy with rfl | hy
    · by_contra hnotice
      rw [Bool.not_eq_false] at hnotice
      rcases hcalm hnotice with hnil | hflushed
      · rw [hnil] at hmem
        cases hmem
      · exact not_flushed (fun z hz => (hrest z hz).1) hcloses hflushed
    · exact ih (mem_stillPending hmem hboundary hopen) hsettled hrest y hy

theorem settled_batch {before between after : List α} {call result : α}
    (h : Settled isOne view pending (before ++ call :: (between ++ result :: after)))
    (hopens : opens (view call) id) (hcloses : closes (view result) id)
    (hbetween : ∀ x ∈ between, isBoundary (view x) = false ∧ closes (view x) id = false) :
    ∀ x ∈ between, isNotice isOne (view x) = false := by
  induction before generalizing pending with
  | nil =>
    have hsettled := h.2
    rw [stillPending_opens hopens] at hsettled
    exact settled_open (.head _) hsettled hbetween hcloses
  | cons x before ih => exact ih h.2

theorem deferFrom_inOrder {deferred events : List (α × Nat)}
    (hinv : pending = [] → deferred = [])
    (hdeferred : ∀ n ∈ deferred, isNotice isOne (view n.1))
    (hsorted : (deferred ++ events).Pairwise (fun a b => a.2 < b.2)) :
    (deferFrom isOne (fun x => view x.1) pending deferred events).Pairwise
      (InOrder isOne view) := by
  induction events generalizing pending deferred with
  | nil =>
    rw [append_nil] at hsorted
    exact hsorted.imp .inl
  | cons event events ih =>
    obtain ⟨hheld, hevents, hcross⟩ := pairwise_append.mp hsorted
    obtain ⟨hfirst, htail⟩ := pairwise_cons.mp hevents
    have hrest : (deferFrom isOne (fun x => view x.1) [] [] events).Pairwise
        (InOrder isOne view) := ih (fun _ => rfl) (by simp) htail
    have hmem : ∀ x ∈ deferFrom isOne (fun x => view x.1) [] [] events, x ∈ events :=
      fun x hx => by simpa using (deferFrom_perm fun _ => rfl).mem_iff.mp hx
    rcases deferFrom_cases event events hinv with ⟨hnotice, hne, heq⟩ | ⟨hboundary, heq⟩ |
      ⟨hboundary, _, hnone, heq⟩ | ⟨hboundary, hne, hnot, heq⟩
    · rw [heq]
      apply ih (fun h => absurd h hne)
      · intro n hn
        rcases mem_append.mp hn with hn | hn
        · exact hdeferred n hn
        · rwa [mem_singleton.mp hn]
      · simpa using hsorted
    · rw [heq]
      refine pairwise_append.mpr ⟨hheld.imp .inl, pairwise_cons.mpr ⟨?_, hrest⟩, ?_⟩
      · exact fun x hx => .inl (hfirst x (hmem x hx))
      · intro n hn x hx
        rcases mem_cons.mp hx with rfl | hx
        · exact .inl (hcross n hn x (.head _))
        · exact .inl (hcross n hn x (.tail _ (hmem x hx)))
    · rw [heq]
      refine pairwise_cons.mpr ⟨?_, pairwise_append.mpr ⟨hheld.imp .inl, hrest, ?_⟩⟩
      · intro x hx
        rcases mem_append.mp hx with hx | hx
        · refine .inr ⟨hdeferred x hx, ?_, hboundary⟩
          by_contra hnotice
          rw [hnone (by simpa using hnotice)] at hx
          cases hx
        · exact .inl (hfirst x (hmem x hx))
      · exact fun n hn x hx => .inl (hcross n hn x (.tail _ (hmem x hx)))
    · rw [heq]
      refine pairwise_cons.mpr ⟨?_, ih (fun h => absurd h hne) hdeferred ?_⟩
      · intro x hx
        rcases mem_append.mp ((deferFrom_perm fun h => absurd h hne).mem_iff.mp hx) with hx | hx
        · exact .inr ⟨hdeferred x hx, hnot, hboundary⟩
        · exact .inl (hfirst x hx)
      · exact hsorted.sublist ((sublist_cons_self event events).append_left deferred)

theorem deferFrom_map {β : Type} (f : β → α) (deferred events : List β) :
    (deferFrom isOne (fun x => view (f x)) pending deferred events).map f =
      deferFrom isOne view pending (deferred.map f) (events.map f) := by
  induction events generalizing pending deferred with
  | nil => rfl
  | cons event events ih =>
    rw [map_cons, deferFrom.eq_2, deferFrom.eq_2]
    dsimp only
    split_ifs <;> simp [ih]

/-- Deferring notices keeps the history: only notices move, behind what is neither a notice nor a
boundary. None is left between a call and its first result, and nothing is left to defer. -/
theorem deferred_history (isOne : String → Bool) (view : α → HistoryEvent) (events : List α) :
    (∃ placed : List (α × Nat), placed.Perm events.zipIdx ∧
      placed.map Prod.fst = deferToolBatchNotices isOne view events ∧
      placed.Pairwise (InOrder isOne view)) ∧
    (∀ before call between result after id, deferToolBatchNotices isOne view events =
        before ++ call :: (between ++ result :: after) →
      opens (view call) id → closes (view result) id →
      (∀ x ∈ between, isBoundary (view x) = false ∧ closes (view x) id = false) →
      ∀ x ∈ between, isNotice isOne (view x) = false) ∧
    deferToolBatchNotices isOne view (deferToolBatchNotices isOne view events) =
      deferToolBatchNotices isOne view events := by
  have hsettled : Settled isOne view [] (deferToolBatchNotices isOne view events) :=
    deferFrom_settled (fun _ => rfl) (by simp)
  refine ⟨⟨deferFrom isOne (fun x => view x.1) [] [] events.zipIdx, ?_, ?_, ?_⟩, ?_, ?_⟩
  · exact deferFrom_perm fun _ => rfl
  · rw [deferFrom_map]
    simp [deferToolBatchNotices]
  · apply deferFrom_inOrder (fun _ => rfl) (by simp)
    have hplaces : (events.zipIdx.map Prod.snd).Pairwise (· < ·) := by
      rw [zipIdx_map_snd]
      exact pairwise_lt_range'
    simpa using pairwise_map.mp hplaces
  · intro before call between result after id heq hopens hcloses hbetween
    rw [heq] at hsettled
    exact settled_batch hsettled hopens hcloses hbetween
  · exact deferFrom_of_settled (fun _ => rfl) (.inl rfl) hsettled

end

theorem notice_between_results :
    ¬ ∀ (events before between after : List HistoryEvent) (call result : HistoryEvent)
        (id : String), deferToolBatchNotices (· == "1") (fun e => e) events =
        before ++ call :: (between ++ result :: after) →
      opens call id → closes result id →
      (∀ x ∈ between, isBoundary x = false) →
      ∀ x ∈ between, isNotice (· == "1") x = false := by
  intro h
  let call : HistoryEvent := ⟨"tool_call", [("call_id", .str "a")]⟩
  let result : HistoryEvent := ⟨"tool_result", [("call_id", .str "a"), ("result", .str "")]⟩
  let notice : HistoryEvent := ⟨"delegation", []⟩
  have hnone := h [call, result, notice, result] [] [result, notice] [] call result "a"
    (by decide) (by decide) (by decide) (by decide) notice (by decide)
  cases hnone

end Cognis.HistoryReplay
