import Mathlib.Data.Rat.Floor

namespace Cognis.PromptBudget

def reserveFloorTokens : Int := 2048
def reserveCeilingTokens : Int := 32768
def reserveShareDivisor : Int := 8
def defaultMarginRatio : ℚ := 4 / 100
def marginFloorTokens : Int := 1024
def marginCeilingTokens : Int := 32768

structure ContextBudget where
  maxContextTokens : Int
  maxInputTokens : Int
  reserveOutputTokens : Int
  effectiveReserveOutputTokens : Int
  promptSerializationMarginTokens : Int
  availablePromptTokens : Int
  reserveClamped : Bool
  deriving DecidableEq

/-- `_prompt_serialization_margin_tokens`, with a rational for the float. -/
def promptSerializationMarginTokens (available : Int) (ratio : Option ℚ) : Int :=
  if available ≤ 0 then 0
  else
    let ratio := ratio.getD defaultMarginRatio
    if ratio ≤ 0 then 0
    else
      let margin := max marginFloorTokens ⌊(available : ℚ) * ratio⌋
      min (min marginCeilingTokens margin) (max 0 (available - 1))

variable (agentMaxTokens modelMaxOutputTokens : Option Int)

def requestedOutputTokens : Int :=
  match agentMaxTokens.filter (0 < ·) with
  | some tokens => tokens
  | none => (modelMaxOutputTokens.filter (0 < ·)).getD 0

def clampedReserve (maxContextTokens reserve : Int) : Int :=
  let target := min reserveCeilingTokens (maxContextTokens / reserveShareDivisor)
  let effective := min reserve (max reserveFloorTokens target)
  if maxContextTokens ≤ effective then max 1 (maxContextTokens / 4) else effective

def effectiveReserve (maxContextTokens reserve : Int) : Int :=
  if 0 < maxContextTokens ∧ 0 < reserve then clampedReserve maxContextTokens reserve else reserve

def underInputLimit (maxInputTokens total : Int) : Int :=
  if 0 < maxInputTokens then min maxInputTokens total else total

def resolveContextBudget (maxContextTokens : Int)
    (maxInputTokens agentMaxTokens modelMaxOutputTokens : Option Int) (ratio : Option ℚ) :
    ContextBudget :=
  let window := max 0 maxContextTokens
  let inputLimit := max 0 (maxInputTokens.getD 0)
  let reserve := requestedOutputTokens agentMaxTokens modelMaxOutputTokens
  let effective := effectiveReserve window reserve
  let raw := underInputLimit inputLimit (max 0 (window - effective))
  let margin := promptSerializationMarginTokens raw ratio
  { maxContextTokens := window
    maxInputTokens := inputLimit
    reserveOutputTokens := reserve
    effectiveReserveOutputTokens := effective
    promptSerializationMarginTokens := margin
    availablePromptTokens := max 0 (raw - margin)
    reserveClamped := 0 < window ∧ 0 < reserve ∧ effective ≠ reserve }

variable {x y limit reserve window larger : Int} {ratio : Option ℚ}

theorem requestedOutputTokens_nonneg :
    0 ≤ requestedOutputTokens agentMaxTokens modelMaxOutputTokens := by
  unfold requestedOutputTokens
  cases hagent : agentMaxTokens.filter (0 < ·) with
  | some tokens =>
    have hpos : 0 < tokens := by simpa using (Option.filter_eq_some_iff.mp hagent).2
    exact Int.le_of_lt hpos
  | none =>
    cases hmodel : modelMaxOutputTokens.filter (0 < ·) with
    | some tokens =>
      have hpos : 0 < tokens := by simpa using (Option.filter_eq_some_iff.mp hmodel).2
      exact Int.le_of_lt hpos
    | none => simp

def usable (ratio : Option ℚ) (x : Int) : Int :=
  max 0 (x - promptSerializationMarginTokens x ratio)

theorem margin_nonneg : 0 ≤ promptSerializationMarginTokens x ratio := by
  unfold promptSerializationMarginTokens marginFloorTokens marginCeilingTokens
  dsimp only
  split_ifs <;> omega

theorem margin_lt (hx : 0 < x) : promptSerializationMarginTokens x ratio < x := by
  unfold promptSerializationMarginTokens
  dsimp only
  split_ifs <;> omega

theorem usable_pos (hx : 0 < x) : 1 ≤ usable ratio x := by
  have hlt : promptSerializationMarginTokens x ratio < x := margin_lt hx
  unfold usable
  omega

theorem floor_step {r : ℚ} (hxy : x ≤ y) (hx : 0 < x) :
    ⌊(y : ℚ) * r⌋ ≤ ⌊(x : ℚ) * r⌋ + (y - x) ∨ x ≤ ⌊(x : ℚ) * r⌋ := by
  have hxpos : (0 : ℚ) < x := by exact_mod_cast hx
  have hle : (x : ℚ) ≤ y := by exact_mod_cast hxy
  rcases le_total r 1 with hr | hr
  · left
    have hstep : (y : ℚ) * r ≤ x * r + ((y - x : Int) : ℚ) := by
      push_cast
      nlinarith
    calc ⌊(y : ℚ) * r⌋ ≤ ⌊(x : ℚ) * r + ((y - x : Int) : ℚ)⌋ := Int.floor_le_floor hstep
      _ = ⌊(x : ℚ) * r⌋ + (y - x) := Int.floor_add_intCast _ _
  · right
    apply Int.le_floor.mpr
    nlinarith

theorem usable_mono (hxy : x ≤ y) : usable ratio x ≤ usable ratio y := by
  rcases le_or_gt x 0 with hx | hx
  · have hnonneg : 0 ≤ promptSerializationMarginTokens x ratio := margin_nonneg
    unfold usable
    omega
  · have hstep := floor_step (r := ratio.getD defaultMarginRatio) hxy hx
    unfold usable promptSerializationMarginTokens marginFloorTokens marginCeilingTokens
    dsimp only
    split_ifs <;> omega

theorem underInputLimit_mono (hxy : x ≤ y) :
    underInputLimit limit x ≤ underInputLimit limit y := by
  unfold underInputLimit
  split <;> omega

theorem underInputLimit_le : underInputLimit limit x ≤ x := by
  unfold underInputLimit
  split <;> omega

theorem underInputLimit_pos (hx : 0 < x) : 0 < underInputLimit limit x := by
  unfold underInputLimit
  split <;> omega

def lastClamped (reserve : Int) : Int := min reserve reserveFloorTokens

theorem clampedReserve_of_le (hreserve : 0 < reserve) (h : window ≤ lastClamped reserve)
    (hwindow : 0 < window) : clampedReserve window reserve = max 1 (window / 4) := by
  unfold lastClamped reserveFloorTokens at h
  unfold clampedReserve reserveFloorTokens reserveCeilingTokens reserveShareDivisor
  dsimp only
  split_ifs <;> omega

theorem clampedReserve_of_lt (hreserve : 0 < reserve) (h : lastClamped reserve < window) :
    clampedReserve window reserve =
      min reserve (max reserveFloorTokens (min reserveCeilingTokens (window / 8))) ∧
    clampedReserve window reserve < window := by
  unfold lastClamped reserveFloorTokens at h
  unfold clampedReserve reserveFloorTokens reserveCeilingTokens reserveShareDivisor
  dsimp only
  split_ifs <;> omega

def promptRoom (reserve window : Int) : Int := max 0 (window - effectiveReserve window reserve)

theorem promptRoom_add (hwindow : 0 < window) (hreserve : 0 ≤ reserve) :
    promptRoom reserve window + effectiveReserve window reserve = window ∧
    (2 ≤ window → 0 < promptRoom reserve window) := by
  unfold promptRoom effectiveReserve
  split_ifs with h
  · rcases le_or_gt window (lastClamped reserve) with hside | hside
    · rw [clampedReserve_of_le h.2 hside h.1]
      omega
    · have hlt := (clampedReserve_of_lt h.2 hside).2
      omega
  · omega

theorem promptRoom_mono (hwindow : 0 < window) (hle : window ≤ larger)
    (hside : larger ≤ lastClamped reserve ∨ lastClamped reserve < window) :
    promptRoom reserve window ≤ promptRoom reserve larger := by
  unfold promptRoom effectiveReserve
  by_cases hreserve : 0 < reserve
  · rcases hside with hside | hside
    · rw [clampedReserve_of_le hreserve (by omega) hwindow,
        clampedReserve_of_le hreserve hside (by omega)]
      omega
    · rw [(clampedReserve_of_lt hreserve hside).1,
        (clampedReserve_of_lt hreserve (by omega : lastClamped reserve < larger)).1]
      omega
  · omega

theorem promptRoom_last (hreserve : 0 < reserve) :
    promptRoom reserve (lastClamped reserve) =
      lastClamped reserve - max 1 (lastClamped reserve / 4) := by
  have hlast : 0 < lastClamped reserve := by
    unfold lastClamped reserveFloorTokens
    omega
  unfold promptRoom effectiveReserve
  rw [if_pos ⟨hlast, hreserve⟩, clampedReserve_of_le hreserve (le_refl _) hlast]
  omega

theorem promptRoom_next (hreserve : 0 < reserve) :
    promptRoom reserve (lastClamped reserve + 1) = 1 := by
  have hclamped := (clampedReserve_of_lt hreserve (Int.lt_succ (lastClamped reserve))).1
  unfold promptRoom effectiveReserve
  rw [if_pos ⟨by unfold lastClamped reserveFloorTokens; omega, hreserve⟩, hclamped]
  unfold lastClamped reserveFloorTokens reserveCeilingTokens
  omega

/-- The parts of the budget fit into the context. -/
structure ContextBudget.Sound (b : ContextBudget) : Prop where
  within : b.availablePromptTokens + b.promptSerializationMarginTokens +
    b.effectiveReserveOutputTokens ≤ b.maxContextTokens
  limited : 0 < b.maxInputTokens → b.availablePromptTokens ≤ b.maxInputTokens
  admits : 2 ≤ b.maxContextTokens → 1 ≤ b.availablePromptTokens

theorem usable_add_margin (hx : 0 ≤ x) :
    usable ratio x + promptSerializationMarginTokens x ratio = x := by
  unfold usable
  rcases Int.lt_or_eq_of_le hx with hpos | rfl
  · have hless : promptSerializationMarginTokens x ratio < x := margin_lt hpos
    omega
  · rfl

def edgeRoom (limit reserve : Int) : Int :=
  underInputLimit limit (lastClamped reserve - max 1 (lastClamped reserve / 4))

theorem edgeRoom_le : edgeRoom limit reserve ≤ 1536 := by
  have hle : edgeRoom limit reserve ≤ lastClamped reserve - max 1 (lastClamped reserve / 4) :=
    underInputLimit_le
  unfold lastClamped reserveFloorTokens at hle
  omega

/-- The margin leaves one token of the prompt under a window on the edge. -/
def LeavesOne (room : Int) (ratio : ℚ) : Prop :=
  room ≤ 1 ∨ 0 < ratio ∧ (room ≤ 1025 ∨ room - 1 ≤ ⌊(room : ℚ) * ratio⌋)

theorem usable_le_one_iff (hx : x ≤ 1536) :
    usable ratio x ≤ 1 ↔ LeavesOne x (ratio.getD defaultMarginRatio) := by
  unfold usable promptSerializationMarginTokens LeavesOne marginFloorTokens marginCeilingTokens
  rcases le_or_gt (ratio.getD defaultMarginRatio) 0 with hratio | hratio
  · have hnot : ¬ 0 < ratio.getD defaultMarginRatio := not_lt.mpr hratio
    simp only [hratio, hnot, if_true, false_and, or_false]
    split_ifs <;> omega
  · simp only [hratio, not_le.mpr hratio, if_false, true_and]
    split_ifs <;> omega

section

variable {maxInputTokens agentMaxTokens modelMaxOutputTokens : Option Int}

theorem available_eq (hwindow : 0 < window) :
    (resolveContextBudget window maxInputTokens agentMaxTokens modelMaxOutputTokens
      ratio).availablePromptTokens = usable ratio (underInputLimit (max 0 (maxInputTokens.getD 0))
        (promptRoom (requestedOutputTokens agentMaxTokens modelMaxOutputTokens) window)) := by
  have hmax : max 0 window = window := by omega
  unfold resolveContextBudget
  rw [hmax]
  rfl

theorem resolveContextBudget_sound (hwindow : 0 < window) : (resolveContextBudget window
    maxInputTokens agentMaxTokens modelMaxOutputTokens ratio).Sound := by
  have hreserve := requestedOutputTokens_nonneg agentMaxTokens modelMaxOutputTokens
  have hmax : max 0 window = window := by omega
  unfold resolveContextBudget
  rw [hmax]
  generalize requestedOutputTokens agentMaxTokens modelMaxOutputTokens = reserve at hreserve ⊢
  generalize max 0 (maxInputTokens.getD 0) = limit
  obtain ⟨hadd, hpos⟩ := promptRoom_add hwindow hreserve
  have hle : underInputLimit limit (promptRoom reserve window) ≤ promptRoom reserve window :=
    underInputLimit_le
  have hnonneg : 0 ≤ underInputLimit limit (promptRoom reserve window) := by
    unfold underInputLimit promptRoom
    split <;> omega
  have hmargin : usable ratio _ + promptSerializationMarginTokens _ ratio = _ :=
    usable_add_margin hnonneg
  constructor
  · change usable ratio (underInputLimit limit (promptRoom reserve window)) +
      promptSerializationMarginTokens (underInputLimit limit (promptRoom reserve window)) ratio +
      effectiveReserve window reserve ≤ window
    omega
  · intro hlimit
    have hmin : underInputLimit limit (promptRoom reserve window) ≤ limit := by
      rw [underInputLimit, if_pos hlimit]
      exact min_le_left _ _
    have hmargin_nonneg : 0 ≤ promptSerializationMarginTokens
        (underInputLimit limit (promptRoom reserve window)) ratio := margin_nonneg
    change usable ratio (underInputLimit limit (promptRoom reserve window)) ≤ limit
    omega
  · intro htwo
    exact usable_pos (underInputLimit_pos (hpos htwo))

/-- More of a prompt is available under a larger window, but where the reserve stops to be a
quarter of the window. -/
theorem available_mono (hwindow : 0 < window) (hle : window ≤ larger)
    (hedge : LeavesOne (edgeRoom (max 0 (maxInputTokens.getD 0))
      (requestedOutputTokens agentMaxTokens modelMaxOutputTokens))
      (ratio.getD defaultMarginRatio)) :
    (resolveContextBudget window maxInputTokens agentMaxTokens modelMaxOutputTokens
      ratio).availablePromptTokens ≤ (resolveContextBudget larger maxInputTokens agentMaxTokens
        modelMaxOutputTokens ratio).availablePromptTokens := by
  rw [available_eq hwindow, available_eq (by omega : 0 < larger)]
  generalize requestedOutputTokens agentMaxTokens modelMaxOutputTokens = reserve at hedge ⊢
  generalize max 0 (maxInputTokens.getD 0) = limit at hedge ⊢
  by_cases hside : larger ≤ lastClamped reserve ∨ lastClamped reserve < window
  · exact usable_mono (underInputLimit_mono (promptRoom_mono hwindow hle hside))
  · have hreserve : 0 < reserve := by
      unfold lastClamped at hside
      omega
    have hroom : promptRoom reserve window ≤ promptRoom reserve (lastClamped reserve) :=
      promptRoom_mono hwindow (by omega) (.inl (le_refl _))
    have hnext : promptRoom reserve (lastClamped reserve + 1) ≤ promptRoom reserve larger :=
      promptRoom_mono (by omega) (by omega) (.inr (by omega))
    rw [promptRoom_last hreserve] at hroom
    rw [promptRoom_next hreserve] at hnext
    calc usable ratio (underInputLimit limit (promptRoom reserve window))
        ≤ usable ratio (edgeRoom limit reserve) := usable_mono (underInputLimit_mono hroom)
      _ ≤ 1 := (usable_le_one_iff edgeRoom_le).mpr hedge
      _ ≤ usable ratio (underInputLimit limit (promptRoom reserve larger)) :=
          usable_pos (underInputLimit_pos (by omega))

end

/-- A budget is sound, and a larger window leaves no less of a prompt, exactly where the margin
leaves one token of the prompt on the edge of the reserve's quarter. -/
theorem budget_sound_mono_iff (maxInputTokens agentMaxTokens modelMaxOutputTokens : Option Int)
    (ratio : Option ℚ) :
    ((∀ window, 0 < window → (resolveContextBudget window maxInputTokens agentMaxTokens
        modelMaxOutputTokens ratio).Sound) ∧
      ∀ window larger, 0 < window → window ≤ larger →
        (resolveContextBudget window maxInputTokens agentMaxTokens modelMaxOutputTokens
          ratio).availablePromptTokens ≤ (resolveContextBudget larger maxInputTokens
            agentMaxTokens modelMaxOutputTokens ratio).availablePromptTokens) ↔
    LeavesOne (edgeRoom (max 0 (maxInputTokens.getD 0))
      (requestedOutputTokens agentMaxTokens modelMaxOutputTokens))
      (ratio.getD defaultMarginRatio) := by
  constructor
  · intro ⟨_, hmono⟩
    have hnonneg := requestedOutputTokens_nonneg agentMaxTokens modelMaxOutputTokens
    by_cases hreserve : 0 < requestedOutputTokens agentMaxTokens modelMaxOutputTokens
    · have hlast : 0 < lastClamped (requestedOutputTokens agentMaxTokens modelMaxOutputTokens) := by
        unfold lastClamped reserveFloorTokens
        omega
      have hstep := hmono _ _ hlast (Int.le_of_lt (Int.lt_succ _))
      rw [available_eq hlast, available_eq (by omega), promptRoom_last hreserve,
        promptRoom_next hreserve] at hstep
      have hle : underInputLimit (max 0 (maxInputTokens.getD 0)) 1 ≤ 1 := underInputLimit_le
      have hone : usable ratio (underInputLimit (max 0 (maxInputTokens.getD 0)) 1) ≤ 1 :=
        (usable_le_one_iff (by omega)).mpr (.inl hle)
      exact (usable_le_one_iff edgeRoom_le).mp (le_trans hstep hone)
    · have hle : edgeRoom (max 0 (maxInputTokens.getD 0))
          (requestedOutputTokens agentMaxTokens modelMaxOutputTokens) ≤ _ := underInputLimit_le
      left
      unfold lastClamped at hle
      omega
  · intro hedge
    exact ⟨fun _ hwindow => resolveContextBudget_sound hwindow,
      fun _ _ hwindow hle => available_mono hwindow hle hedge⟩

theorem larger_window_lowers_prompt :
    (resolveContextBudget 2049 none none (some 8192) none).availablePromptTokens <
      (resolveContextBudget 2048 none none (some 8192) none).availablePromptTokens := by
  decide +kernel

end Cognis.PromptBudget
