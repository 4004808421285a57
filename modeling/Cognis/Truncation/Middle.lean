import Cognis.ToolOutput.Recovery

namespace Cognis.Truncation

open List PythonText

variable (o : Options) (text : Text) (size maxChars : Nat)

def anchorNames (anchors : List String) : List String :=
  anchors.foldl (fun names value =>
    let name := String.ofList (ToolOutput.anchorName value.toList)
    if name = "" || names.contains name then names else names ++ [name]) []

def buildMarker (repr : String → String) (totalChars : Nat) (callId : Option String)
    (anchors : List String) : Text :=
  "\n\n... [middle truncated: ".toList ++ formatThousands totalChars ++ " chars total".toList ++
    (match callId.filter (· ≠ "") with
    | some id =>
      let names := anchorNames anchors
      ". ".toList ++ (ToolOutput.formatRecoveryHint repr id names (!names.isEmpty) false).toList
    | none => []) ++ "] ...\n\n".toList

def isNewlineAt (i : Nat) : Bool := text[i]? == some '\n'

/-- `text.find("\n", start, stop)`. -/
def find (text : Text) (start stop : Nat) : Option Nat :=
  (range' start (stop - start)).find? (isNewlineAt text)

/-- `text.rfind("\n", start, stop)`. -/
def rfind (start stop : Nat) : Option Nat :=
  (range' start (stop - start)).reverse.find? (isNewlineAt text)

def snapHeadToNewline : Nat :=
  if size = 0 ∨ text.length ≤ size then size
  else
    match rfind text (size - 2000) size with
    | some newline => newline + 1
    | none => size

def snapTailToNewline : Nat :=
  if size = 0 ∨ text.length ≤ size then size
  else
    let start := text.length - size
    match find text start (min text.length (start + 2000)) with
    | some newline => text.length - newline - 1
    | none => size

/-- `text[-size:]`, which is the whole text for `size` 0. -/
def lastChars : Text :=
  if size = 0 then text else text.drop (text.length - size)

/-- `int(n * head_ratio)` for a ratio in [0, 1]. -/
structure HeadRatio where
  share : Nat → Nat
  share_le : ∀ n, share n ≤ n

/-- The two scalings by token counts, in floating point: `int(len * (max / total))`, and
`int(chars * (max / current) * 0.95)` where the current count is above the maximum. -/
structure TokenScale where
  first : Nat → Nat → Int → Nat
  next : Nat → Nat → Int → Nat
  next_le : ∀ (chars maxTokens : Nat) (current : Int), (maxTokens : Int) < current →
    next chars maxTokens current ≤ chars

def minTruncationSize : Nat := 500

/-- What a call is given, but for the text and the size; `tokenCounter` may raise. -/
structure Options where
  repr : String → String
  callId : Option String := none
  anchors : List String := []
  headRatio : HeadRatio
  tokenCounter : Option (Text → Option Int) := none
  maxTokens : Option Nat := none
  scale : TokenScale

def Options.marker : Text :=
  buildMarker o.repr text.length o.callId o.anchors

def Options.headSize : Nat :=
  snapHeadToNewline text (o.headRatio.share (maxChars - (o.marker text).length))

def Options.tailBudget : Nat :=
  maxChars - (o.marker text).length - o.headSize text maxChars

def middleTruncateChars : Text :=
  if maxChars < (o.marker text).length + 100 then text.take maxChars
  else
    text.take (o.headSize text maxChars) ++ o.marker text ++
      lastChars text (snapTailToNewline text (o.tailBudget text maxChars))

def tokenRounds (o : Options) (text : Text) (counter : Text → Option Int) (maxTokens : Nat) :
    Nat → Nat → Text
  | 0, chars => middleTruncateChars o text chars
  | rounds + 1, chars =>
    match counter (middleTruncateChars o text chars) with
    | none => middleTruncateChars o text chars
    | some current =>
      if current ≤ maxTokens then middleTruncateChars o text chars
      else
        tokenRounds o text counter maxTokens rounds
          (max minTruncationSize (o.scale.next chars maxTokens current))

def middleTruncateByTokens (counter : Text → Option Int) (maxTokens : Nat) : Text :=
  match counter text with
  | none => middleTruncateChars o text maxChars
  | some total =>
    tokenRounds o text counter maxTokens 4
      (min maxChars (max minTruncationSize (o.scale.first text.length maxTokens (max 1 total))))

def Options.overTokens : Option ((Text → Option Int) × Nat) :=
  match o.tokenCounter, o.maxTokens with
  | some counter, some maxTokens =>
    let total := (counter text).getD 0
    if 0 < maxTokens ∧ 0 < total ∧ (maxTokens : Int) < total then some (counter, maxTokens)
    else none
  | _, _ => none

def middleTruncate : Text × Bool :=
  if text.length ≤ maxChars ∨ maxChars < minTruncationSize then (text, false)
  else
    match o.overTokens text with
    | some (counter, maxTokens) =>
      (middleTruncateByTokens o text maxChars counter maxTokens, true)
    | none => (middleTruncateChars o text maxChars, true)

/-- Within the size, and a start of the text, or a start, the marker and an end that does not
overlap it. -/
structure WellTruncated (o : Options) (text : Text) (maxChars : Nat) (out : Text) : Prop where
  length : out.length ≤ maxChars
  parts : out <+: text ∨ ∃ head tail, head + tail ≤ text.length ∧
    out = text.take head ++ o.marker text ++ text.drop (text.length - tail)

def KeepsTail (chars : Nat) : Prop :=
  chars < (o.marker text).length + 100 ∨ 0 < o.tailBudget text chars ∧
    let start := text.length - o.tailBudget text chars
    ∀ newline, find text start (min text.length (start + 2000)) = some newline →
      newline + 1 ≠ text.length

def settledRounds (o : Options) (text : Text) (counter : Text → Option Int) (maxTokens : Nat) :
    Nat → Nat → Nat
  | 0, chars => chars
  | rounds + 1, chars =>
    match counter (middleTruncateChars o text chars) with
    | none => chars
    | some current =>
      if current ≤ maxTokens then chars
      else settledRounds o text counter maxTokens rounds
        (max minTruncationSize (o.scale.next chars maxTokens current))

/-- The size of the last cut: `maxChars` itself, unless a counter finds too many tokens. -/
def settledChars : Nat :=
  match o.overTokens text with
  | none => maxChars
  | some (counter, maxTokens) =>
    match counter text with
    | none => maxChars
    | some total => settledRounds o text counter maxTokens 4
        (min maxChars (max minTruncationSize (o.scale.first text.length maxTokens (max 1 total))))

variable {o : Options} {text : Text} {chars maxChars size start stop newline : Nat}
  {counter : Text → Option Int} {maxTokens rounds : Nat}

theorem find_some (h : find text start stop = some newline) : start ≤ newline ∧ newline < stop := by
  obtain ⟨i, hi, rfl⟩ := mem_range'.mp (mem_of_find?_eq_some h)
  omega

theorem rfind_some (h : rfind text start stop = some newline) :
    start ≤ newline ∧ newline < stop := by
  have hmem := mem_reverse.mp (mem_of_find?_eq_some h)
  obtain ⟨i, hi, rfl⟩ := mem_range'.mp hmem
  omega

theorem snapHeadToNewline_le : snapHeadToNewline text size ≤ size := by
  unfold snapHeadToNewline
  split_ifs with hplain
  · exact Nat.le_refl size
  · cases hfound : rfind text (size - 2000) size with
    | none => exact Nat.le_refl size
    | some =>
      have hlt := (rfind_some hfound).2
      dsimp only
      omega

theorem snapTailToNewline_le : snapTailToNewline text size ≤ size := by
  unfold snapTailToNewline
  split_ifs with hplain
  · exact Nat.le_refl size
  · dsimp only
    cases hfound : find text (text.length - size) (min text.length (text.length - size + 2000)) with
    | none => exact Nat.le_refl size
    | some =>
      obtain ⟨hle, hlt⟩ := find_some hfound
      dsimp only
      omega

theorem headSize_le : o.headSize text chars ≤ chars - (o.marker text).length := by
  exact Nat.le_trans snapHeadToNewline_le (o.headRatio.share_le _)

/-- A tail of a text that is longer is empty exactly if it has no room or ends with its first
newline. -/
theorem snapTailToNewline_ne_zero_iff (hlt : size < text.length) :
    snapTailToNewline text size ≠ 0 ↔ 0 < size ∧ ∀ newline, find text (text.length - size)
          (min text.length (text.length - size + 2000)) = some newline →
        newline + 1 ≠ text.length := by
  unfold snapTailToNewline
  by_cases hzero : size = 0
  · rw [if_pos (.inl hzero)]
    omega
  · rw [if_neg (by omega)]
    dsimp only
    cases hfound : find text (text.length - size) (min text.length (text.length - size + 2000)) with
    | none =>
      constructor
      · intro _
        refine ⟨by omega, ?_⟩
        intro newline hnewline
        cases hnewline
      · intro _
        exact hzero
    | some newline =>
      obtain ⟨-, hstop⟩ := find_some hfound
      dsimp only
      constructor
      · intro hsome
        refine ⟨by omega, ?_⟩
        intro newline' hsame
        cases hsame
        omega
      · rintro ⟨-, hlast⟩
        have hne := hlast newline rfl
        omega

theorem middleTruncateChars_iff (hchars : chars ≤ maxChars) (hlong : maxChars < text.length) :
    WellTruncated o text maxChars (middleTruncateChars o text chars) ↔ KeepsTail o text chars := by
  unfold middleTruncateChars KeepsTail
  by_cases hsmall : chars < (o.marker text).length + 100
  · rw [if_pos hsmall]
    constructor
    · intro _
      exact .inl hsmall
    · intro _
      have hstart : text.take chars <+: text := take_prefix chars text
      refine ⟨?_, .inl hstart⟩
      rw [length_take]
      omega
  · rw [if_neg hsmall]
    have hhead : o.headSize text chars ≤ chars - (o.marker text).length := headSize_le
    have htail : snapTailToNewline text (o.tailBudget text chars) ≤ o.tailBudget text chars :=
      snapTailToNewline_le
    have hbudget : o.headSize text chars + o.tailBudget text chars =
        chars - (o.marker text).length := by
      unfold Options.tailBudget
      omega
    have hlt : o.tailBudget text chars < text.length := by omega
    have hkept := snapTailToNewline_ne_zero_iff hlt
    rw [or_iff_right hsmall]
    rw [← hkept]
    generalize snapTailToNewline text (o.tailBudget text chars) = tail at htail
    constructor
    · rintro ⟨hlength, -⟩ hzero
      rw [hzero, length_append, length_append, lastChars, if_pos rfl] at hlength
      omega
    · intro hsome
      rw [lastChars, if_neg hsome]
      refine ⟨?_, .inr ⟨o.headSize text chars, tail, by omega, rfl⟩⟩
      rw [length_append, length_append, length_take, length_drop]
      omega

theorem tokenRounds_eq (rounds chars : Nat) : tokenRounds o text counter maxTokens rounds chars =
    middleTruncateChars o text (settledRounds o text counter maxTokens rounds chars) := by
  induction rounds generalizing chars with
  | zero => rfl
  | succ rounds ih =>
    unfold tokenRounds settledRounds
    cases counter (middleTruncateChars o text chars) with
    | none => rfl
    | some =>
      dsimp only
      split_ifs with hfits
      · rfl
      · exact ih _

theorem settledRounds_le (hmin : minTruncationSize ≤ maxChars) (hchars : chars ≤ maxChars)
    (rounds : Nat) : settledRounds o text counter maxTokens rounds chars ≤ maxChars := by
  induction rounds generalizing chars with
  | zero => exact hchars
  | succ rounds ih =>
    unfold settledRounds
    cases counter (middleTruncateChars o text chars) with
    | none => exact hchars
    | some current =>
      dsimp only
      split_ifs with hfits
      · exact hchars
      · apply ih
        have hnext := o.scale.next_le chars maxTokens current (by omega)
        omega

theorem settledChars_le (hmin : minTruncationSize ≤ maxChars) :
    settledChars o text maxChars ≤ maxChars := by
  unfold settledChars
  split
  · exact Nat.le_refl maxChars
  · split
    · exact Nat.le_refl maxChars
    · exact settledRounds_le hmin (Nat.min_le_left _ _) 4

theorem middleTruncate_eq (hlong : maxChars < text.length) (hmin : minTruncationSize ≤ maxChars) :
    middleTruncate o text maxChars =
      (middleTruncateChars o text (settledChars o text maxChars), true) := by
  unfold middleTruncate settledChars
  rw [if_neg (by omega)]
  cases o.overTokens text with
  | none => rfl
  | some budget =>
    obtain ⟨counter, maxTokens⟩ := budget
    dsimp only
    unfold middleTruncateByTokens
    cases counter text with
    | none => rfl
    | some =>
      dsimp only
      rw [tokenRounds_eq]

/-- A text that is reported as truncated is well truncated exactly if the tail is kept at the size
it was cut to. -/
theorem middleTruncate_iff (o : Options) (text : Text) (maxChars : Nat) :
    (∀ out, middleTruncate o text maxChars = (out, true) → WellTruncated o text maxChars out) ↔
      (maxChars < text.length → minTruncationSize ≤ maxChars →
        KeepsTail o text (settledChars o text maxChars)) := by
  by_cases hcut : maxChars < text.length ∧ minTruncationSize ≤ maxChars
  · obtain ⟨hlong, hmin⟩ := hcut
    rw [middleTruncate_eq hlong hmin]
    have hle : settledChars o text maxChars ≤ maxChars := settledChars_le hmin
    have hiff : WellTruncated o text maxChars (middleTruncateChars o text
        (settledChars o text maxChars)) ↔ KeepsTail o text (settledChars o text maxChars) :=
      middleTruncateChars_iff hle hlong
    constructor
    · intro hall _ _
      exact hiff.mp (hall _ rfl)
    · intro hkeeps out hout
      cases hout
      exact hiff.mpr (hkeeps hlong hmin)
  · have hwhole : middleTruncate o text maxChars = (text, false) := by
      unfold middleTruncate
      rw [if_pos (by omega)]
    rw [hwhole]
    constructor
    · intro _ hlong hmin
      exact absurd ⟨hlong, hmin⟩ hcut
    · intro _ out hout
      cases hout

def plainOptions : Options where
  repr := id
  headRatio := { share := (· / 2), share_le := fun n => Nat.div_le_self n 2 }
  scale := { first := fun chars _ _ => chars, next := fun chars _ _ => chars,
             next_le := fun _ _ _ _ => Nat.le_refl _ }

def oneLine : Text := replicate 600 'x' ++ ['\n']

/-- The whole text comes back behind a head and the marker. -/
theorem one_line_grows : ¬ ∀ out, middleTruncate plainOptions oneLine 500 = (out, true) →
      WellTruncated plainOptions oneLine 500 out := by
  intro hall
  have hgrown : (middleTruncate plainOptions oneLine 500).2 = true ∧
      500 < (middleTruncate plainOptions oneLine 500).1.length := by decide +kernel
  generalize middleTruncate plainOptions oneLine 500 = result at hall hgrown
  obtain ⟨out, truncated⟩ := result
  obtain ⟨htruncated, hlong⟩ := hgrown
  have hout := hall out (by rw [← htruncated])
  exact absurd hout.length (Nat.not_le.mpr hlong)

end Cognis.Truncation
