import Mathlib.Data.List.Induction
import Mathlib.Data.List.Nodup

namespace Cognis.Compaction

open List Option

structure EventTexts (α : Type) where
  /-- The line of an event in `format_events_for_compaction`. -/
  line : α → String
  seq : α → Option Int
  type : α → Option String

/-- The products with a float, rounded towards zero. -/
structure BandShares where
  chars : Int → Int
  head : Int → Int
  tail : Int → Int
  tenth : Nat → Nat

structure TokenBudget where
  maxInputTokens : Option Int := none
  countTokensFn : Option (String → String → Option Int) := none
  model : Option String := none

def TokenBudget.exact (budget : TokenBudget) : Option ((String → Option Int) × Int) :=
  match budget.countTokensFn, budget.model, budget.maxInputTokens with
  | some fn, some model, some max => some (fun text => fn text model, max)
  | _, _, _ => none

def withinExactBudget (budget : TokenBudget) (text : String) : Bool :=
  match budget.exact with
  | none => true
  | some (count, max) =>
    match count text with
    | none => true
    | some tokens => tokens ≤ max

def defaultBudgetChars : Int := 240000

structure CompactionInput where
  text : String
  headEventCount : Nat
  tailEventCount : Nat
  droppedEventCount : Nat
  droppedSeqStart : Option Int
  droppedSeqEnd : Option Int
  estimatedChars : Nat
  deriving DecidableEq

section

variable {α : Type}

def formatEvents (texts : EventTexts α) (events : List α) : String :=
  "\n".intercalate (events.map texts.line)

def headBand (texts : EventTexts α) (budget : Int) : List α → Nat → List α → List α
  | [], _, head => head
  | e :: rest, chars, head =>
    let line := formatEvents texts [e]
    if budget < ↑(chars + line.length) ∧ head ≠ [] then head
    else headBand texts budget rest (chars + line.length + 1) (head ++ [e])

def tailBand [DecidableEq α] (texts : EventTexts α) (budget : Int) (head : List α) :
    List α → Nat → List α → List α
  | [], _, tail => tail
  | e :: rest, chars, tail =>
    if head.contains e then tail
    else
      let line := formatEvents texts [e]
      if budget < ↑(chars + line.length) ∧ tail ≠ [] then tail
      else tailBand texts budget head rest (chars + line.length + 1) (e :: tail)

structure Bands (α : Type) where
  head : List α
  dropped : List α
  tail : List α

def Bands.seqStart (texts : EventTexts α) (b : Bands α) : Option Int :=
  b.dropped.head?.bind texts.seq

def Bands.seqEnd (texts : EventTexts α) (b : Bands α) : Option Int :=
  b.dropped.getLast?.bind texts.seq

/-- A sequence number as `str` has it. -/
def seqText : Option Int → String
  | none => "None"
  | some seq => toString seq

def droppedBandMarker (texts : EventTexts α) (seqRange : String) (dropped : List α)
    (includeUserMessages : Bool) : String :=
  let marker := "[compaction band: omitted " ++ toString dropped.length ++ " events between " ++
    seqRange ++ "; tool outputs from this range remain recoverable by call_id " ++
    "when recovery handles are present]"
  let users := dropped.filter fun e => texts.type e == some "user_message"
  if !includeUserMessages || users.isEmpty then marker
  else "\n".intercalate [marker, "Dropped-band user messages (verbatim):", formatEvents texts users]

def Bands.text (texts : EventTexts α) (b : Bands α) (includeUserMessages : Bool) : String :=
  let seqRange := match b.seqStart texts with
    | some start => "seq " ++ toString start ++ "–" ++ seqText (b.seqEnd texts)
    | none => toString b.dropped.length ++ " events"
  "\n".intercalate <| (if b.head.isEmpty then [] else [formatEvents texts b.head]) ++
    (if b.dropped.isEmpty then []
      else [droppedBandMarker texts seqRange b.dropped includeUserMessages]) ++
    (if b.tail.isEmpty then [] else [formatEvents texts b.tail])

/-- The events that move in one round. -/
def trimCount (shares : BandShares) (length : Nat) : Nat :=
  min (max 1 (shares.tenth length)) (length - 1)

def Bands.trim (shares : BandShares) (b : Bands α) : Option (Bands α) :=
  if b.tail.length ≤ b.head.length ∧ 1 < b.head.length then
    let keep := b.head.length - trimCount shares b.head.length
    some { head := b.head.take keep, dropped := b.head.drop keep ++ b.dropped, tail := b.tail }
  else if 1 < b.tail.length then
    let count := trimCount shares b.tail.length
    some { head := b.head, dropped := b.dropped ++ b.tail.take count, tail := b.tail.drop count }
  else none

theorem trimCount_pos (shares : BandShares) {length : Nat} (h : 1 < length) :
    0 < trimCount shares length ∧ trimCount shares length < length := by
  unfold trimCount
  omega

theorem Bands.trim_lt {shares : BandShares} {b b' : Bands α} (h : b.trim shares = some b') :
    b'.head.length + b'.tail.length < b.head.length + b.tail.length := by
  unfold Bands.trim at h
  split_ifs at h with hhead htail
  · cases h
    have hcount := trimCount_pos shares hhead.2
    dsimp only
    rw [length_take]
    omega
  · cases h
    have hcount := trimCount_pos shares htail
    dsimp only
    rw [length_drop]
    omega

def Bands.narrow (texts : EventTexts α) (shares : BandShares) (count : String → Option Int)
    (max : Int) (b : Bands α) (actual : Int) : Bands α × Option Int :=
  if actual ≤ max ∨ b.head.length ≤ 1 ∧ b.tail.length ≤ 1 then (b, some actual)
  else
    match _h : b.trim shares with
    | none => (b, some actual)
    | some b' =>
      match count (b'.text texts true) with
      | none => (b', none)
      | some actual' => b'.narrow texts shares count max actual'
termination_by b.head.length + b.tail.length
decreasing_by exact Bands.trim_lt ‹_›

def Bands.fit (texts : EventTexts α) (shares : BandShares) (budget : TokenBudget) (b : Bands α) :
    Bands α × Bool :=
  match budget.exact with
  | none => (b, true)
  | some (count, max) =>
    match count (b.text texts true) with
    | none => (b, true)
    | some actual =>
      match b.narrow texts shares count max actual with
      | (b, none) => (b, true)
      | (b, some actual) => (b, actual ≤ max)

def initialBands [DecidableEq α] (texts : EventTexts α) (shares : BandShares) (budgetChars : Int)
    (events : List α) : Bands α :=
  let head := headBand texts (shares.head budgetChars) events 0 []
  let tail := tailBand texts (shares.tail budgetChars) head events.reverse 0 []
  { head := head, tail := tail,
    dropped := events.filter fun e => !head.contains e && !tail.contains e }

def Bands.input (texts : EventTexts α) (b : Bands α) (text : String) : CompactionInput where
  text := text
  headEventCount := b.head.length
  tailEventCount := b.tail.length
  droppedEventCount := b.dropped.length
  droppedSeqStart := b.seqStart texts
  droppedSeqEnd := b.seqEnd texts
  estimatedChars := text.length

def TokenBudget.chars (budget : TokenBudget) (shares : BandShares) : Int :=
  match budget.maxInputTokens with
  | some max => if 0 < max then shares.chars max else defaultBudgetChars
  | none => defaultBudgetChars

def buildCompactionInput [DecidableEq α] (texts : EventTexts α) (shares : BandShares)
    (budget : TokenBudget) (events : List α) : CompactionInput :=
  if events.isEmpty then
    { text := "", headEventCount := 0, tailEventCount := 0, droppedEventCount := 0,
      droppedSeqStart := none, droppedSeqEnd := none, estimatedChars := 0 }
  else
    let budgetChars := budget.chars shares
    let fullText := formatEvents texts events
    if fullText.length ≤ budgetChars ∧ withinExactBudget budget fullText then
      { text := fullText, headEventCount := events.length, tailEventCount := 0,
        droppedEventCount := 0, droppedSeqStart := none, droppedSeqEnd := none,
        estimatedChars := fullText.length }
    else
      let (b, users) := (initialBands texts shares budgetChars events).fit texts shares budget
      b.input texts (b.text texts users)

/-- The input shows the three bands of the events and counts them. -/
structure Banded (texts : EventTexts α) (events : List α) (b : Bands α) (users : Bool)
    (input : CompactionInput) : Prop where
  concat : b.head ++ b.dropped ++ b.tail = events
  text : input.text = b.text texts users
  headCount : input.headEventCount = b.head.length
  droppedCount : input.droppedEventCount = b.dropped.length
  tailCount : input.tailEventCount = b.tail.length
  seqStart : input.droppedSeqStart = b.dropped.head?.bind texts.seq
  seqEnd : input.droppedSeqEnd = b.dropped.getLast?.bind texts.seq
  chars : input.estimatedChars = input.text.length

/-- Within the maximum, or as small as trimming makes it. -/
def FitsOrMinimal (count : String → Option Int) (max : Int) (b : Bands α) (users : Bool)
    (text : String) : Prop :=
  (∃ tokens, count text = some tokens ∧ tokens ≤ max) ∨
    b.head.length ≤ 1 ∧ b.tail.length ≤ 1 ∧ users = false

variable {texts : EventTexts α} {shares : BandShares} {budget : TokenBudget} {events : List α}
  {b b' : Bands α} {count : String → Option Int} {max limit : Int}

theorem headBand_prefix (texts : EventTexts α) (limit : Int) (rest : List α) (chars : Nat)
    (head : List α) :
    ∃ left, head ++ rest = headBand texts limit rest chars head ++ left := by
  induction rest generalizing chars head with
  | nil => exact ⟨[], rfl⟩
  | cons e rest ih =>
    unfold headBand
    dsimp only
    split_ifs with hfull
    · exact ⟨e :: rest, rfl⟩
    · obtain ⟨left, hleft⟩ := ih (chars + (formatEvents texts [e]).length + 1) (head ++ [e])
      refine ⟨left, ?_⟩
      rw [← hleft, append_assoc, singleton_append]

theorem tailBand_suffix [DecidableEq α] (texts : EventTexts α) (limit : Int) {head : List α}
    (body : List α) (hbody : ∀ e ∈ body, e ∉ head) (chars : Nat) (tail : List α) :
    ∃ mid, body ++ tail =
      mid ++ tailBand texts limit head (body.reverse ++ head.reverse) chars tail := by
  induction body using reverseRecOn generalizing chars tail with
  | nil =>
    refine ⟨[], ?_⟩
    rw [reverse_nil, nil_append, nil_append]
    cases hrest : head.reverse with
    | nil => rfl
    | cons e =>
      have hmem : e ∈ head := by
        rw [← mem_reverse, hrest]
        exact mem_cons_self
      unfold tailBand
      rw [nil_append]
      dsimp only
      rw [if_pos (contains_iff_mem.mpr hmem)]
  | append_singleton body e ih =>
    have hnot : ¬ head.contains e = true := by
      rw [contains_iff_mem]
      exact hbody e (by simp)
    rw [reverse_append, reverse_singleton, singleton_append, cons_append]
    unfold tailBand
    dsimp only
    split_ifs with hfull
    · exact ⟨body ++ [e], rfl⟩
    · have hrest : ∀ e ∈ body, e ∉ head := by
        intro d hd
        exact hbody d (mem_append_left _ hd)
      obtain ⟨mid, hmid⟩ := ih hrest (chars + (formatEvents texts [e]).length + 1) (e :: tail)
      refine ⟨mid, ?_⟩
      rw [← hmid, append_assoc, singleton_append]

theorem filter_middle [DecidableEq α] {head mid tail : List α} (h : (head ++ mid ++ tail).Nodup) :
    (head ++ mid ++ tail).filter (fun e => !head.contains e && !tail.contains e) = mid := by
  have hhead : head.filter (fun e => !head.contains e && !tail.contains e) = [] := by
    rw [filter_eq_nil_iff]
    intro e he
    simp [he]
  have htail : tail.filter (fun e => !head.contains e && !tail.contains e) = [] := by
    rw [filter_eq_nil_iff]
    intro e he
    simp [he]
  have hmid : mid.filter (fun e => !head.contains e && !tail.contains e) = mid := by
    rw [filter_eq_self]
    intro e he
    have hnotHead : e ∉ head := by
      intro hmem
      exact disjoint_of_nodup_append (nodup_append.mp h).1 hmem he
    have hnotTail : e ∉ tail := by
      intro hmem
      exact disjoint_of_nodup_append h (mem_append_right head he) hmem
    simp [hnotHead, hnotTail]
  rw [filter_append, filter_append, hhead, hmid, htail]
  simp

theorem initialBands_concat [DecidableEq α] (hnodup : events.Nodup) :
    (initialBands texts shares limit events).head ++
      (initialBands texts shares limit events).dropped ++
        (initialBands texts shares limit events).tail = events := by
  obtain ⟨body, hhead⟩ := headBand_prefix texts (shares.head limit) events 0 []
  unfold initialBands
  dsimp only
  generalize headBand texts (shares.head limit) events 0 [] = head at hhead ⊢
  subst hhead
  have hbody : ∀ e ∈ body, e ∉ head := by
    intro e he hmem
    exact disjoint_of_nodup_append hnodup hmem he
  obtain ⟨mid, htail⟩ :=
    tailBand_suffix texts (shares.tail limit) body hbody 0 []
  rw [append_nil] at htail
  rw [reverse_append]
  generalize tailBand texts (shares.tail limit) head (body.reverse ++ head.reverse) 0 [] = tail
    at htail ⊢
  subst htail
  rw [← append_assoc] at hnodup ⊢
  rw [filter_middle hnodup]

theorem trim_concat (h : b.trim shares = some b') :
    b'.head ++ b'.dropped ++ b'.tail = b.head ++ b.dropped ++ b.tail := by
  unfold Bands.trim at h
  split_ifs at h with hhead htail
  · cases h
    rw [← append_assoc, take_append_drop]
  · cases h
    rw [append_assoc, append_assoc, take_append_drop, append_assoc]

theorem small_of_trim_none (h : b.trim shares = none) : b.head.length ≤ 1 ∧ b.tail.length ≤ 1 := by
  unfold Bands.trim at h
  split_ifs at h with hhead htail
  omega

theorem narrow_concat (texts : EventTexts α) (shares : BandShares) (count : String → Option Int)
    (max : Int) (b : Bands α) (actual : Int) : (b.narrow texts shares count max actual).1.head ++
    (b.narrow texts shares count max actual).1.dropped ++
      (b.narrow texts shares count max actual).1.tail = b.head ++ b.dropped ++ b.tail := by
  fun_induction Bands.narrow texts shares count max b actual with
  | case1 | case2 => rfl
  | case3 b _ _ b' htrim _ => exact trim_concat htrim
  | case4 b actual _ b' htrim actual' _ ih => rw [ih, trim_concat htrim]

theorem narrow_ends {actual last : Int} (hcount : count (b.text texts true) = some actual)
    (hlast : (b.narrow texts shares count max actual).2 = some last) :
    count ((b.narrow texts shares count max actual).1.text texts true) = some last ∧
      (last ≤ max ∨ (b.narrow texts shares count max actual).1.head.length ≤ 1 ∧
        (b.narrow texts shares count max actual).1.tail.length ≤ 1) := by
  fun_induction Bands.narrow texts shares count max b actual with
  | case1 b actual hdone =>
    cases hlast
    exact ⟨hcount, hdone⟩
  | case2 b actual hmore htrim =>
    cases hlast
    exact ⟨hcount, .inr (small_of_trim_none htrim)⟩
  | case3 => cases hlast
  | case4 b actual _ b' _ actual' hnext ih => exact ih hnext hlast

theorem narrow_raised (b : Bands α) (max actual : Int) (hcounts : ∀ text, count text ≠ none) :
    (b.narrow texts shares count max actual).2 ≠ none := by
  fun_induction Bands.narrow texts shares count max b actual with
  | case1 | case2 => exact some_ne_none _
  | case3 _ _ _ b' _ hraised => exact absurd hraised (hcounts _)
  | case4 _ _ _ _ _ _ _ ih => exact ih

theorem fit_concat (texts : EventTexts α) (shares : BandShares) (budget : TokenBudget)
    (b : Bands α) : (b.fit texts shares budget).1.head ++ (b.fit texts shares budget).1.dropped ++
      (b.fit texts shares budget).1.tail = b.head ++ b.dropped ++ b.tail := by
  unfold Bands.fit
  cases budget.exact with
  | none => rfl
  | some exact =>
    obtain ⟨count, max⟩ := exact
    dsimp only
    cases count (b.text texts true) with
    | none => rfl
    | some actual =>
      dsimp only
      have hkept := narrow_concat texts shares count max b actual
      generalize b.narrow texts shares count max actual = ended at hkept ⊢
      obtain ⟨narrowed, last⟩ := ended
      cases last with
      | none | some => exact hkept

theorem fit_fits (hexact : budget.exact = some (count, max))
    (hcounts : ∀ text, count text ≠ none) :
    FitsOrMinimal count max (b.fit texts shares budget).1 (b.fit texts shares budget).2
      ((b.fit texts shares budget).1.text texts (b.fit texts shares budget).2) := by
  obtain ⟨actual, hactual⟩ := ne_none_iff_exists'.mp (hcounts (b.text texts true))
  have hkept : (b.narrow texts shares count max actual).2 ≠ none :=
    narrow_raised b max actual hcounts
  obtain ⟨last, hlast⟩ := ne_none_iff_exists'.mp hkept
  obtain ⟨hcount, hends⟩ := narrow_ends hactual hlast
  have hfit : b.fit texts shares budget =
      ((b.narrow texts shares count max actual).1, decide (last ≤ max)) := by
    unfold Bands.fit
    rw [hexact]
    dsimp only
    rw [hactual]
    dsimp only
    generalize b.narrow texts shares count max actual = ended at hlast ⊢
    obtain ⟨narrowed, counted⟩ := ended
    cases hlast
    rfl
  rw [hfit]
  by_cases hle : last ≤ max
  · left
    rw [decide_eq_true hle]
    exact ⟨last, hcount, hle⟩
  · right
    obtain hle' | ⟨hhead, htail⟩ := hends
    · exact absurd hle' hle
    · exact ⟨hhead, htail, decide_eq_false hle⟩

/-- The input is one of three bands that are the events in order, and with a counter that never
raises it fits, or no more can be trimmed. -/
theorem compaction_input_banded [DecidableEq α] (texts : EventTexts α) (shares : BandShares)
    (budget : TokenBudget) {events : List α} (hnodup : events.Nodup) :
    ∃ b users, Banded texts events b users (buildCompactionInput texts shares budget events) ∧
      ∀ count max, budget.exact = some (count, max) → (∀ text, count text ≠ none) →
        FitsOrMinimal count max b users (buildCompactionInput texts shares budget events).text := by
  unfold buildCompactionInput
  dsimp only
  split_ifs with hempty hfast
  · rw [List.isEmpty_iff] at hempty
    refine ⟨⟨[], [], []⟩, false, ⟨hempty.symm, rfl, rfl, rfl, rfl, rfl, rfl, rfl⟩, ?_⟩
    intro count max _ _
    exact .inr ⟨Nat.zero_le 1, Nat.zero_le 1, rfl⟩
  · refine ⟨⟨events, [], []⟩, true, ⟨by simp, ?_, rfl, rfl, rfl, rfl, rfl, rfl⟩, ?_⟩
    · have hsome : events.isEmpty = false := by simpa using hempty
      simp [Bands.text, hsome]
    · intro count max hexact hcounts
      have hwithin := hfast.2
      unfold withinExactBudget at hwithin
      rw [hexact] at hwithin
      dsimp only at hwithin
      obtain ⟨tokens, htokens⟩ := ne_none_iff_exists'.mp (hcounts (formatEvents texts events))
      rw [htokens] at hwithin
      exact .inl ⟨tokens, htokens, of_decide_eq_true hwithin⟩
  · refine ⟨_, _, ⟨?_, rfl, rfl, rfl, rfl, rfl, rfl, rfl⟩, ?_⟩
    · rw [fit_concat, initialBands_concat hnodup]
    · intro count max hexact hcounts
      exact fit_fits hexact hcounts

end

def numberedTexts : EventTexts Nat where
  line := fun n => "[" ++ toString n ++ "] user_message: go on"
  seq := fun n => some n
  type := fun _ => some "user_message"

def plainShares : BandShares where
  chars := fun n => n * 7 / 2
  head := fun n => n / 5
  tail := fun n => n * 3 / 5
  tenth := fun n => n / 10

def smallBudget : TokenBudget where
  maxInputTokens := some 70
  countTokensFn := some fun text _ => some text.length
  model := some "gpt"

theorem twelve_events_banded : ∃ b users, Banded numberedTexts (range 12) b users
      (buildCompactionInput numberedTexts plainShares smallBudget (range 12)) ∧
      ∀ count max, smallBudget.exact = some (count, max) → (∀ text, count text ≠ none) →
        FitsOrMinimal count max b users
          (buildCompactionInput numberedTexts plainShares smallBudget (range 12)).text :=
  compaction_input_banded numberedTexts plainShares smallBudget nodup_range

end Cognis.Compaction
