import Cognis.SessionCache.Cache

namespace Cognis.Compaction

open List

open SessionCache (CachedEvent)

def defaultPreservedTailEventCount : Nat := 50

def maxPreservedTailEventCount : Nat := 200

variable (counter : TokenCounter) (e : CachedEvent) (events : List CachedEvent)

def isUserMessage : Bool := e.type == "user_message"

def isTurnAdmissionEvent : Bool := isUserMessage e || e.isRetryAdmissionNotice

/-- `_is_compaction_tail_cycle_boundary` -/
def isTailCycleBoundary : Bool :=
  ["user_message", "assistant_message", "assistant_thinking", "tool_call"].contains e.type

def userEventIndices : List Nat :=
  (range events.length).filter fun index => events[index]?.any isUserMessage

/-- The first loop of `_snap_keep_from_to_cycle_boundary`. -/
def snapBack (events : List CachedEvent) : Nat → Nat
  | 0 => 0
  | index + 1 =>
    if events[index + 1]?.any isTailCycleBoundary then index + 1 else snapBack events index

def backOverCalls (events : List CachedEvent) : Nat → Nat
  | 0 => 0
  | index + 1 =>
    if events[index]?.any (·.type == "tool_call") then backOverCalls events index else index + 1

/-- `_snap_keep_from_to_cycle_boundary` -/
def snapKeepFrom (keepFrom : Nat) : Nat :=
  let index := snapBack events (min keepFrom events.length)
  if events[index]?.any (·.type == "tool_call") then backOverCalls events index else index

/-- How the texts of events are counted: `none` where the counter or the formatting raises. -/
structure TokenCounter where
  countTokens : String → Option Int
  formatEvents : List CachedEvent → Option String
  eventPromptText : CachedEvent → Option String

def TokenCounter.ofEvents : Option Int :=
  (counter.formatEvents events).bind counter.countTokens

def TokenCounter.ofEvent : Option Int :=
  (counter.eventPromptText e).bind counter.countTokens

inductive WalkEnd where
  | raised
  | fits
  | exceeds (keepFrom : Option Nat)

/-- The walk of `_oversized_latest_turn_cut` over these positions. -/
def walkBack (counter : TokenCounter) (events : List CachedEvent) (budget : Int) :
    List Nat → Int → Option Nat → WalkEnd
  | [], _, _ => .fits
  | index :: rest, cost, keepFrom =>
    match events[index]? with
    | none => .raised
    | some e =>
      match if isTurnAdmissionEvent e then some 0 else counter.ofEvent e with
      | none => .raised
      | some tokens =>
        if budget < cost + tokens then .exceeds keepFrom
        else if isTailCycleBoundary e ∧ snapKeepFrom events index = index then
          walkBack counter events budget rest (cost + tokens) (some index)
        else walkBack counter events budget rest (cost + tokens) keepFrom

def oversizedLatestTurnCut (latestTurnStart : Nat) (tailTokenBudget : Int) : Option Nat :=
  let anchors := (events.drop latestTurnStart).filter isTurnAdmissionEvent
  match counter.ofEvents anchors with
  | none => none
  | some anchored =>
    let positions :=
      ((range events.length).filter fun index => latestTurnStart < index).reverse
    match walkBack counter events (tailTokenBudget - anchored) positions 0 none with
    | .raised | .fits => none
    | .exceeds keepFrom =>
      let keepFrom := keepFrom.getD (snapKeepFrom events (events.length - 1))
      if keepFrom ≤ latestTurnStart + 1 then none else some keepFrom

/-- The loop of `_token_budgeted_tail_start`, from the last user message back. -/
def budgetedStart (counter : TokenCounter) (events : List CachedEvent) (maxPreservedTurns : Nat)
    (tailTokenBudget : Int) : List Nat → Option Nat → Option Nat
  | [], selected => selected
  | boundary :: rest, selected =>
    let candidate := events.drop boundary
    let turns := candidate.countP isUserMessage
    if maxPreservedTurns < turns then selected
    else
      match counter.ofEvents candidate with
      | none => none
      | some tokens =>
        if tailTokenBudget < tokens ∧ selected.isSome then selected
        else if maxPreservedTurns ≤ turns then some boundary
        else budgetedStart counter events maxPreservedTurns tailTokenBudget rest (some boundary)

def tokenBudgetedTailStart
    (userIndices : List Nat) (maxPreservedTurns : Nat) (tailTokenBudget : Int) : Option Nat :=
  budgetedStart counter events maxPreservedTurns tailTokenBudget userIndices.reverse none

def pinLatestTurnAdmission (keepFrom : Nat)
    (latestTurnStart : Option Nat) : List CachedEvent × List CachedEvent :=
  match latestTurnStart with
  | none => (events.take keepFrom, events.drop keepFrom)
  | some start =>
    if keepFrom ≤ start then (events.take keepFrom, events.drop keepFrom)
    else
      let turn := (events.take keepFrom).drop start
      (events.take start ++ turn.filter (!isTurnAdmissionEvent ·),
        turn.filter isTurnAdmissionEvent ++ events.drop keepFrom)

def splitByTurns (maxPreservedTurns : Nat) : List CachedEvent × List CachedEvent :=
  let userIndices := userEventIndices events
  if userIndices.length ≤ maxPreservedTurns then
    let preserve := min (max defaultPreservedTailEventCount (maxPreservedTurns * 20))
      maxPreservedTailEventCount
    if events.length ≤ preserve then ([], events)
    else pinLatestTurnAdmission events (snapKeepFrom events (events.length - preserve))
      userIndices.getLast?
  else
    let keepFrom := userIndices.getD (userIndices.length - maxPreservedTurns) 0
    (events.take keepFrom, events.drop keepFrom)

/-- `_split_events`; the budget of the tail comes with its counter when the model is known. -/
def splitEvents (preserveTurns : Int)
    (tail : Option (Int × TokenCounter)) : List CachedEvent × List CachedEvent :=
  let userIndices := userEventIndices events
  let maxPreservedTurns := max 1 preserveTurns.toNat
  match tail, userIndices.getLast? with
  | some (tailTokenBudget, counter), some latestTurnStart =>
    if tailTokenBudget ≤ 0 then splitByTurns events maxPreservedTurns
    else
      match oversizedLatestTurnCut counter events latestTurnStart tailTokenBudget with
      | some cut => pinLatestTurnAdmission events cut (some latestTurnStart)
      | none =>
        match tokenBudgetedTailStart counter events userIndices maxPreservedTurns
          tailTokenBudget with
        | some keepFrom =>
          pinLatestTurnAdmission events (snapKeepFrom events keepFrom) (some latestTurnStart)
        | none => splitByTurns events maxPreservedTurns
  | _, _ => splitByTurns events maxPreservedTurns

variable {events : List CachedEvent}

def KeepsFrom (events preserved : List CachedEvent) (cut : Nat) : Prop :=
  preserved.filter isTurnAdmissionEvent = (events.drop cut).filter isTurnAdmissionEvent

theorem keepsFrom_drop (events : List CachedEvent) (cut : Nat) :
    KeepsFrom events (events.drop cut) cut := rfl

theorem drop_take_append_drop {start keepFrom : Nat} (h : start ≤ keepFrom) :
    (events.take keepFrom).drop start ++ events.drop keepFrom = events.drop start := by
  rcases Nat.le_total start events.length with hstart | hpast
  · have hlength : start ≤ (events.take keepFrom).length := by
      rw [length_take]
      exact le_min h hstart
    rw [← drop_append_of_le_length hlength, take_append_drop]
  · rw [drop_eq_nil_of_le hpast, drop_eq_nil_of_le (hpast.trans h), drop_eq_nil_of_le, append_nil]
    rw [length_take]
    exact (min_le_right _ _).trans hpast

theorem keepsFrom_pin (events : List CachedEvent) (keepFrom start : Nat) :
    ∃ cut ≤ start, KeepsFrom events
      (pinLatestTurnAdmission events keepFrom (some start)).2 cut := by
  unfold pinLatestTurnAdmission
  dsimp only
  split_ifs with hle
  · exact ⟨keepFrom, hle, rfl⟩
  · refine ⟨start, le_refl start, ?_⟩
    have hsplit : (events.take keepFrom).drop start ++ events.drop keepFrom = events.drop start :=
      drop_take_append_drop (Nat.le_of_not_le hle)
    unfold KeepsFrom
    rw [← hsplit, filter_append, filter_append, filter_filter]
    simp only [Bool.and_self]

theorem mem_userEventIndices {index : Nat} :
    index ∈ userEventIndices events ↔ ∃ e, events[index]? = some e ∧ isUserMessage e = true := by
  unfold userEventIndices
  rw [mem_filter, mem_range, Option.any_eq_true]
  constructor
  · rintro ⟨-, e, he, huser⟩
    exact ⟨e, he, huser⟩
  · rintro ⟨e, he, huser⟩
    exact ⟨(List.getElem?_eq_some_iff.mp he).1, e, he, huser⟩

theorem ascending_userEventIndices : (userEventIndices events).Pairwise (· < ·) :=
  pairwise_lt_range.filter _

variable {latest : Nat}

section

variable (h : (userEventIndices events).getLast? = some latest)

include h

theorem le_latest {index : Nat} (hindex : index ∈ userEventIndices events) : index ≤ latest := by
  obtain ⟨front, hconcat⟩ := getLast?_eq_some_iff.mp h
  have hascending : (userEventIndices events).Pairwise (· < ·) := ascending_userEventIndices
  rw [hconcat] at hascending hindex
  rcases mem_append.mp hindex with hfront | hlast
  · exact ((pairwise_append.mp hascending).2.2 index hfront latest (mem_singleton.mpr rfl)).le
  · exact (mem_singleton.mp hlast).le

/-- Whatever is summarized, the admission events from a position not behind the last user message
on are kept. -/
theorem splitByTurns_keeps (maxPreservedTurns : Nat) (hpositive : 1 ≤ maxPreservedTurns) :
    ∃ cut ≤ latest, KeepsFrom events (splitByTurns events maxPreservedTurns).2 cut := by
  unfold splitByTurns
  dsimp only
  split_ifs with hfew hshort
  · exact ⟨0, Nat.zero_le _, rfl⟩
  · rw [h]
    exact keepsFrom_pin events _ latest
  · refine ⟨_, ?_, keepsFrom_drop events _⟩
    have hlt : (userEventIndices events).length - maxPreservedTurns <
        (userEventIndices events).length := by omega
    rw [getD_eq_getElem?_getD, getElem?_eq_getElem hlt, Option.getD_some]
    exact le_latest h (getElem_mem hlt)

theorem splitEvents_keeps (preserveTurns : Int) (tail : Option (Int × TokenCounter)) :
    ∃ cut ≤ latest, KeepsFrom events (splitEvents events preserveTurns tail).2 cut := by
  have hturns := splitByTurns_keeps h (max 1 preserveTurns.toNat) (le_max_left _ _)
  unfold splitEvents
  dsimp only
  rw [h]
  cases tail with
  | none => exact hturns
  | some budget =>
    dsimp only
    split_ifs
    · exact hturns
    · cases oversizedLatestTurnCut budget.2 events latest budget.1 with
      | some cut => exact keepsFrom_pin events cut latest
      | none =>
        cases tokenBudgetedTailStart budget.2 events (userEventIndices events)
          (max 1 preserveTurns.toNat) budget.1 with
        | some keepFrom => exact keepsFrom_pin events _ latest
        | none => exact hturns

theorem splitEvents_one_turn (hmany : 1 < (userEventIndices events).length) :
    splitEvents events 1 none = (events.take latest, events.drop latest) := by
  have hlast :
    (userEventIndices events).getD ((userEventIndices events).length - 1) 0 = latest := by
    rw [getLast?_eq_getElem?] at h
    rw [getD_eq_getElem?_getD, h]
    rfl
  change splitByTurns events 1 = _
  unfold splitByTurns
  rw [if_neg (Nat.not_le.mpr hmany), hlast]

end

end Cognis.Compaction
