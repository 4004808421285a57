import Mathlib.Algebra.GroupWithZero.Nat
import Mathlib.Algebra.Order.Group.Nat
import Mathlib.Data.List.Sort

namespace Cognis.LocalModelFit

open List Option

/-- `RESOURCE_SNAPSHOT_MAX_BYTES` -/
def maxBytes : Nat := 2 ^ 63 - 1

def contextPresets : List Nat := [8192, 16384, 32768, 65536, 131072, 262144]
def recommendedContextCap : Nat := 131072
def runtimeBufferFloorBytes : Nat := 512 * 1024 ^ 2
def headroomFloorBytes : Nat := 2 * 1024 ^ 3

def checkedMultiply (values : List Nat) : Option Nat :=
  values.foldlM (fun result value =>
    if maxBytes / max value 1 < result then none else some (result * value)) 1

def checkedSum (values : List Nat) : Option Nat :=
  values.foldlM (fun result value =>
    if value ≤ maxBytes ∧ result ≤ maxBytes - value then some (result + value) else none) 0

structure LocalModelFitMetadata where
  weightsBytes : Option Nat := none
  fileSizeBytes : Option Nat := none
  parameterCount : Option Nat := none
  /-- `int(bits_per_weight * 1000)` -/
  milliBitsPerWeight : Option Nat := none
  layerCount : Option Nat := none
  kvHeadCount : Option Nat := none
  headDimension : Option Nat := none
  kvBytesPerElementMin : Nat := 1
  kvBytesPerElementMax : Nat := 2
  advertisedMaxContext : Option Nat := none
  weights_le : ∀ n, weightsBytes = some n → n ≤ maxBytes
  file_le : ∀ n, fileSizeBytes = some n → n ≤ maxBytes

structure MemoryResourceSnapshot where
  totalBytes : Option Nat
  availableBytes : Option Nat
  unified : Option Bool
  total_le : ∀ n, totalBytes = some n → n ≤ maxBytes
  available_le : ∀ n, availableBytes = some n → n ≤ maxBytes

structure AcceleratorResourceSnapshot where
  totalMemoryBytes : Option Nat
  usedMemoryBytes : Option Nat

structure ExecutorResourceSnapshot where
  memory : Option MemoryResourceSnapshot
  accelerators : Option (List AcceleratorResourceSnapshot)

structure FitExecutor where
  executorId : String
  snapshot : Option ExecutorResourceSnapshot

structure Estimate where
  weightsBytes : Nat
  kvMinBytes : Nat
  kvMaxBytes : Nat
  runtimeBufferBytes : Nat

variable (model : LocalModelFitMetadata) (contextTokens : Nat)

def weightsOf : Option Nat :=
  match (model.weightsBytes.filter (· ≠ 0)).or model.fileSizeBytes with
  | some weights => some weights
  | none => do
    let product ← checkedMultiply [← model.parameterCount, ← model.milliBitsPerWeight]
    some ((product + 7999) / 8000)

def kvByArchitecture (layers heads dimension contextTokens : Nat) : Option (Nat × Nat) := do
  let kvElements ← checkedMultiply [2, layers, heads, dimension, contextTokens]
  let kvMin ← checkedMultiply [kvElements, model.kvBytesPerElementMin]
  let kvMax ← checkedMultiply [kvElements, model.kvBytesPerElementMax]
  some (kvMin, kvMax)

def parameterBillions (parameterCount : Nat) : Nat :=
  max 1 ((parameterCount + 999999999) / 1000000000)

def kvByParameters (parameterCount contextTokens : Nat) : Option (Nat × Nat) := do
  let bytesPerTokenMin ← checkedMultiply [parameterBillions parameterCount, 8 * 1024]
  let bytesPerTokenMax ← checkedMultiply [parameterBillions parameterCount, 16 * 1024]
  let kvMin ← checkedMultiply [bytesPerTokenMin, contextTokens]
  let kvMax ← checkedMultiply [bytesPerTokenMax, contextTokens]
  some (kvMin, kvMax)

def kvRange : Option (Nat × Nat) :=
  match model.layerCount, model.kvHeadCount, model.headDimension with
  | some layers, some heads, some dimension =>
    kvByArchitecture model layers heads dimension contextTokens
  | _, _, _ => model.parameterCount.bind (kvByParameters · contextTokens)

def estimateModel : Option Estimate :=
  if contextTokens = 0 then none
  else do
    let weights ← weightsOf model
    let (kvMin, kvMax) ← kvRange model contextTokens
    let runtimeBuffer ← checkedSum [weights / 10, runtimeBufferFloorBytes]
    some ⟨weights, kvMin, kvMax, runtimeBuffer⟩

inductive LocalModelFitStatus where
  | fit
  | fitWithOffload
  | noFit
  | unknown
  deriving DecidableEq

structure LocalModelFitAssessment where
  status : LocalModelFitStatus
  availableBytes : Option Nat := none
  acceleratorAvailableBytes : Option Nat := none
  hostAvailableBytes : Option Nat := none
  reasonCode : String

def unknownAssessment (reason : String) : LocalModelFitAssessment :=
  { status := .unknown, reasonCode := reason }

def singlePoolAssessment (requiredMax available : Nat) (poolReason : String) :
    LocalModelFitAssessment :=
  { status := if requiredMax ≤ available then .fit else .noFit
    availableBytes := some available
    hostAvailableBytes := some available
    reasonCode :=
      poolReason ++ if requiredMax ≤ available then "_sufficient" else "_insufficient" }

def discreteAssessment (modelRequiredMax acceleratorAvailable hostAvailable hostHeadroom : Nat) :
    LocalModelFitAssessment :=
  let usableHost := hostAvailable - hostHeadroom
  let combined := checkedSum [acceleratorAvailable, usableHost]
  let (status, reason) :=
    if hostAvailable < hostHeadroom then
      (LocalModelFitStatus.noFit, "host_headroom_insufficient")
    else if modelRequiredMax ≤ acceleratorAvailable then (.fit, "accelerator_memory_sufficient")
    else if combined.any (modelRequiredMax ≤ ·) then (.fitWithOffload, "host_offload_required")
    else (.noFit, "combined_memory_insufficient")
  { status := status
    availableBytes := combined
    acceleratorAvailableBytes := some acceleratorAvailable
    hostAvailableBytes := some usableHost
    reasonCode := reason }

structure LocalModelFitBreakdown where
  weightsBytes : Option Nat := none
  kvCacheMinBytes : Option Nat := none
  kvCacheMaxBytes : Option Nat := none
  runtimeBufferBytes : Option Nat := none
  reservedHeadroomBytes : Option Nat := none
  requiredMinBytes : Option Nat := none
  requiredMaxBytes : Option Nat := none

def breakdown (estimate : Estimate) (headroom : Option Nat) : LocalModelFitBreakdown :=
  { weightsBytes := some estimate.weightsBytes
    kvCacheMinBytes := some estimate.kvMinBytes
    kvCacheMaxBytes := some estimate.kvMaxBytes
    runtimeBufferBytes := some estimate.runtimeBufferBytes
    reservedHeadroomBytes := headroom }

structure FitResult where
  static : LocalModelFitAssessment
  admission : LocalModelFitAssessment
  breakdown : LocalModelFitBreakdown := {}

def unknownResult (reason : String) (parts : LocalModelFitBreakdown) : FitResult :=
  ⟨unknownAssessment reason, unknownAssessment reason, parts⟩

structure Requirement where
  modelMax : Nat
  min : Nat
  max : Nat

def requirement (estimate : Estimate) (headroom : Nat) : Option Requirement :=
  let orTooMuch (required : Option Nat) := (required.filter (· ≠ 0)).getD (maxBytes + 1)
  let modelMin :=
    checkedSum [estimate.weightsBytes, estimate.kvMinBytes, estimate.runtimeBufferBytes]
  let modelMax :=
    checkedSum [estimate.weightsBytes, estimate.kvMaxBytes, estimate.runtimeBufferBytes]
  match modelMin, modelMax, checkedSum [orTooMuch modelMin, headroom],
      checkedSum [orTooMuch modelMax, headroom] with
  | some _, some modelMax, some min, some max => some ⟨modelMax, min, max⟩
  | _, _, _, _ => none

def assessPools (memory : MemoryResourceSnapshot) (total available headroom : Nat)
    (accelerators : List AcceleratorResourceSnapshot) (required : Requirement) :
    LocalModelFitAssessment × LocalModelFitAssessment :=
  if memory.unified = none ∧ accelerators ≠ [] then
    (unknownAssessment "memory_topology_unknown", unknownAssessment "memory_topology_unknown")
  else if memory.unified = some true then
    (singlePoolAssessment required.max total "unified_memory",
      singlePoolAssessment required.max available "unified_memory")
  else if accelerators ≠ [] then
    let incomplete := unknownAssessment "accelerator_memory_incomplete"
    (match accelerators.mapM (·.totalMemoryBytes) with
      | some totals => discreteAssessment required.modelMax totals.sum total headroom
      | none => incomplete,
    match accelerators.mapM fun a => do some ((← a.totalMemoryBytes) - (← a.usedMemoryBytes)) with
      | some free => discreteAssessment required.modelMax free.sum available headroom
      | none => incomplete)
  else
    (singlePoolAssessment required.max total "host_memory",
      singlePoolAssessment required.max available "host_memory")

def headroomOf (total : Nat) : Nat := max headroomFloorBytes (total * 15 / 100)

def assessExecutor (executor : FitExecutor) : FitResult :=
  match executor.snapshot with
  | none => unknownResult "snapshot_missing" {}
  | some snapshot =>
    match estimateModel model contextTokens with
    | none => unknownResult "model_metadata_incomplete_or_overflow" {}
    | some estimate =>
      match snapshot.memory, snapshot.accelerators with
      | some memory, some accelerators =>
        match memory.totalBytes, memory.availableBytes with
        | some total, some available =>
          match requirement estimate (headroomOf total) with
          | none => unknownResult "estimate_overflow" (breakdown estimate (headroomOf total))
          | some required =>
            let (static, admission) :=
              assessPools memory total available (headroomOf total) accelerators required
            { static, admission
              breakdown := { breakdown estimate (headroomOf total) with
                requiredMinBytes := required.min
                requiredMaxBytes := required.max } }
        | _, _ => unknownResult "resource_memory_incomplete" (breakdown estimate none)
      | _, _ => unknownResult "resource_memory_incomplete" (breakdown estimate none)

structure LocalModelContextOption where
  contextTokens : Nat
  zone : String
  limitingExecutorIds : List String

def aboveAdvertised : Bool :=
  model.advertisedMaxContext.any (· < contextTokens)

def presetValues : List Nat :=
  match model.advertisedMaxContext with
  | some advertised =>
    if advertised ∈ contextPresets then contextPresets
    else contextPresets.orderedInsert (· ≤ ·) advertised
  | none => contextPresets

def admissionStatus (executor : FitExecutor) :
    LocalModelFitStatus := (assessExecutor model contextTokens executor).admission.status

def zoneOf (executors : List FitExecutor) (preset : Nat) : String :=
  let statuses := executors.map (admissionStatus model preset)
  if aboveAdvertised model preset then "red"
  else if statuses ≠ [] ∧ statuses.all (· = .fit) then "green"
  else if statuses.any (· = .noFit) then "red"
  else if statuses.any (· = .unknown) ∨ statuses = [] then "unknown"
  else "yellow"

def contextOption (executors : List FitExecutor) (preset : Nat) : LocalModelContextOption :=
  { contextTokens := preset
    zone := zoneOf model executors preset
    limitingExecutorIds := (executors.filter fun executor =>
      aboveAdvertised model preset || admissionStatus model preset executor ≠ .fit).map
        (·.executorId) }

structure LocalModelFitPlan where
  recommendedContextTokens : Option Nat
  contextOptions : List LocalModelContextOption
  executors : List FitResult

def planLocalModelFit (executors : List FitExecutor) : LocalModelFitPlan :=
  { recommendedContextTokens := (presetValues model).foldl (fun recommended preset =>
      if zoneOf model executors preset = "green" ∧ preset ≤ recommendedContextCap then some preset
      else recommended) none
    contextOptions := (presetValues model).map (contextOption model executors)
    executors := executors.map (assessExecutor model contextTokens) }

/-- The first amount is no greater, and there where the second one is. -/
def Below (a b : Option Nat) : Prop := ∀ y, b = some y → ∃ x, a = some x ∧ x ≤ y

variable {a : Option Nat} {values larger : List Nat} {range range' : Nat × Nat}
  {x c c' weights total available accelerator host headroom need need' : Nat}
  {layers heads dimension count : Nat} {model : LocalModelFitMetadata} {executor : FitExecutor}

theorem checkedSum_eq (values : List Nat) :
    checkedSum values = if values.sum ≤ maxBytes then some values.sum else none := by
  have hfold (values : List Nat) (result : Nat) (h : result ≤ maxBytes) :
      values.foldlM (fun result value =>
        if value ≤ maxBytes ∧ result ≤ maxBytes - value then some (result + value) else none)
        result = if result + values.sum ≤ maxBytes then some (result + values.sum) else none := by
    induction values generalizing result with
    | nil => simp [h]
    | cons value values ih =>
      rw [foldlM_cons, sum_cons]
      by_cases hvalue : value ≤ maxBytes ∧ result ≤ maxBytes - value
      · rw [if_pos hvalue]
        simpa [Nat.add_assoc] using ih (result + value) (by omega)
      · rw [if_neg hvalue, if_neg (by omega)]
        rfl
  simpa [checkedSum] using hfold values 0 (Nat.zero_le _)

theorem checkedMultiply_below (values : List Nat) (h : Forall₂ (· ≤ ·) values larger) :
    Below (checkedMultiply values) (checkedMultiply larger) := by
  have hfold (result result' : Nat) (hle : result ≤ result') :
      Below (values.foldlM (fun result value =>
        if maxBytes / max value 1 < result then none else some (result * value)) result)
      (larger.foldlM (fun result value =>
        if maxBytes / max value 1 < result then none else some (result * value)) result') := by
    induction h generalizing result result' with
    | nil =>
      intro y hy
      cases hy
      exact ⟨result, rfl, hle⟩
    | @cons value value' values larger hvalue _ ih =>
      intro y hy
      rw [foldlM_cons] at hy ⊢
      split_ifs at hy with hover
      · cases hy
      · have hquotient : maxBytes / max value' 1 ≤ maxBytes / max value 1 :=
          Nat.div_le_div_left (max_le_max_right 1 hvalue) (by omega)
        rw [if_neg (by omega)]
        exact ih _ _ (Nat.mul_le_mul hle hvalue) y hy
  exact hfold 1 1 (le_refl 1)

theorem checkedMultiply_le (h : checkedMultiply values = some x) : x ≤ maxBytes := by
  have hfold (values : List Nat) (result : Nat) (hresult : result ≤ maxBytes) :
      ∀ x, values.foldlM (fun result value =>
        if maxBytes / max value 1 < result then none else some (result * value)) result = some x →
        x ≤ maxBytes := by
    induction values generalizing result with
    | nil =>
      intro x hx
      cases hx
      exact hresult
    | cons value values ih =>
      intro x hx
      rw [foldlM_cons] at hx
      split_ifs at hx with hover
      · cases hx
      · refine ih (result * value) ?_ x hx
        have hle := (Nat.le_div_iff_mul_le (by omega)).mp (Nat.le_of_not_lt hover)
        exact le_trans (Nat.mul_le_mul_left result (le_max_left value 1)) hle
  exact hfold values 1 (by decide) x h

/-- What a checked product or sum passes through is bounded. -/
theorem checked_bounded (values : List Nat) (k : Nat)
    (h : checkedMultiply (values.take k) = some x ∨ checkedSum (values.take k) = some x) :
    x ≤ maxBytes := by
  rcases h with hproduct | hsum
  · exact checkedMultiply_le hproduct
  · rw [checkedSum_eq] at hsum
    split_ifs at hsum with hfits
    cases hsum
    exact hfits

theorem requirement_eq (hpos : 0 < estimate.runtimeBufferBytes) :
    requirement estimate headroom =
      let modelMin := estimate.weightsBytes + estimate.kvMinBytes + estimate.runtimeBufferBytes
      let modelMax := estimate.weightsBytes + estimate.kvMaxBytes + estimate.runtimeBufferBytes
      if modelMin + headroom ≤ maxBytes ∧ modelMax + headroom ≤ maxBytes then
        some ⟨modelMax, modelMin + headroom, modelMax + headroom⟩
      else none := by
  unfold requirement
  simp only [checkedSum_eq, sum_cons, sum_nil, Nat.add_zero, ← Nat.add_assoc]
  generalize hmin : estimate.weightsBytes + estimate.kvMinBytes + estimate.runtimeBufferBytes = low
  generalize hmax : estimate.weightsBytes + estimate.kvMaxBytes + estimate.runtimeBufferBytes = high
  have hlow : low ≠ 0 := by omega
  have hhigh : high ≠ 0 := by omega
  by_cases hfits : low ≤ maxBytes <;> by_cases hfits' : high ≤ maxBytes
  · simp only [hfits, hfits', if_true, filter_some, hlow, hhigh, ne_eq, not_false_eq_true,
      decide_true, getD_some]
    split_ifs <;> first | rfl | omega
  all_goals
    simp [hfits, hfits']
    omega

theorem kvByArchitecture_below (hle : c ≤ c')
    (h : kvByArchitecture model layers heads dimension c' = some range') :
    ∃ range, kvByArchitecture model layers heads dimension c = some range ∧
      range.1 ≤ range'.1 ∧ range.2 ≤ range'.2 := by
  unfold kvByArchitecture at h ⊢
  simp only [bind_eq_bind, bind_eq_some_iff] at h
  obtain ⟨elements', helements', low', hlow', high', hhigh', heq⟩ := h
  cases heq
  obtain ⟨elements, helements, hfewer⟩ :=
    checkedMultiply_below [2, layers, heads, dimension, c] (by simp [hle]) _ helements'
  obtain ⟨low, hlow, hless⟩ :=
    checkedMultiply_below [elements, model.kvBytesPerElementMin] (by simp [hfewer]) _ hlow'
  obtain ⟨high, hhigh, hless'⟩ :=
    checkedMultiply_below [elements, model.kvBytesPerElementMax] (by simp [hfewer]) _ hhigh'
  exact ⟨(low, high), by simp [helements, hlow, hhigh], hless, hless'⟩

theorem kvByParameters_below (hle : c ≤ c')
    (h : kvByParameters count c' = some range') :
    ∃ range, kvByParameters count c = some range ∧ range.1 ≤ range'.1 ∧ range.2 ≤ range'.2 := by
  unfold kvByParameters at h ⊢
  generalize parameterBillions count = billions at h ⊢
  simp only [bind_eq_bind, bind_eq_some_iff] at h
  obtain ⟨tokenMin, htokenMin, tokenMax, htokenMax, low', hlow', high', hhigh', heq⟩ := h
  cases heq
  obtain ⟨low, hlow, hless⟩ := checkedMultiply_below [tokenMin, c] (by simp [hle]) _ hlow'
  obtain ⟨high, hhigh, hless'⟩ := checkedMultiply_below [tokenMax, c] (by simp [hle]) _ hhigh'
  exact ⟨(low, high), by simp [htokenMin, htokenMax, hlow, hhigh], hless, hless'⟩

theorem kvRange_below (hle : c ≤ c') (h : kvRange model c' = some range') :
    ∃ range, kvRange model c = some range ∧ range.1 ≤ range'.1 ∧ range.2 ≤ range'.2 := by
  have hparameters (h : model.parameterCount.bind (kvByParameters · c') = some range') :
      ∃ range, model.parameterCount.bind (kvByParameters · c) = some range ∧
        range.1 ≤ range'.1 ∧ range.2 ≤ range'.2 := by
    obtain ⟨count, hcount, h⟩ := bind_eq_some_iff.mp h
    obtain ⟨range, hrange, hless⟩ := kvByParameters_below hle h
    exact ⟨range, by rw [hcount, bind_some, hrange], hless⟩
  unfold kvRange at h ⊢
  cases hlayers : model.layerCount <;> cases hheads : model.kvHeadCount <;>
    cases hdimension : model.headDimension <;>
    simp only [hlayers, hheads, hdimension] at h ⊢ <;>
    first | exact hparameters h | exact kvByArchitecture_below hle h

theorem kvRange_le (h : kvRange model c = some range) :
    range.1 ≤ maxBytes ∧ range.2 ≤ maxBytes := by
  unfold kvRange kvByArchitecture kvByParameters at h
  split at h
  · simp only [bind_eq_bind, bind_eq_some_iff] at h
    obtain ⟨_, _, low, hlow, high, hhigh, heq⟩ := h
    cases heq
    exact ⟨checkedMultiply_le hlow, checkedMultiply_le hhigh⟩
  · simp only [bind_eq_bind, bind_eq_some_iff] at h
    obtain ⟨_, _, _, _, _, _, low, hlow, high, hhigh, heq⟩ := h
    cases heq
    exact ⟨checkedMultiply_le hlow, checkedMultiply_le hhigh⟩

theorem estimate_below (hpos : 0 < c) (hle : c ≤ c')
    (h : estimateModel model c' = some estimate') : ∃ estimate,
      estimateModel model c = some estimate ∧ 0 < estimate.runtimeBufferBytes ∧
      estimate.weightsBytes = estimate'.weightsBytes ∧
      estimate.runtimeBufferBytes = estimate'.runtimeBufferBytes ∧
      estimate.kvMinBytes ≤ estimate'.kvMinBytes ∧ estimate.kvMaxBytes ≤ estimate'.kvMaxBytes := by
  unfold estimateModel at h ⊢
  rw [if_neg (by omega)] at h ⊢
  simp only [bind_eq_bind, bind_eq_some_iff] at h
  obtain ⟨weights, hweights, range', hrange', buffer, hbuffer, heq⟩ := h
  cases heq
  obtain ⟨range, hrange, hmin, hmax⟩ := kvRange_below hle hrange'
  refine ⟨⟨weights, range.1, range.2, buffer⟩, by simp [hweights, hrange, hbuffer], ?_, rfl, rfl,
    hmin, hmax⟩
  rw [checkedSum_eq] at hbuffer
  split_ifs at hbuffer
  cases hbuffer
  simp [runtimeBufferFloorBytes]

theorem requirement_below (hpos : 0 < estimate.runtimeBufferBytes)
    (hweights : estimate.weightsBytes = estimate'.weightsBytes)
    (hbuffer : estimate.runtimeBufferBytes = estimate'.runtimeBufferBytes)
    (hmin : estimate.kvMinBytes ≤ estimate'.kvMinBytes)
    (hmax : estimate.kvMaxBytes ≤ estimate'.kvMaxBytes)
    (h : requirement estimate' headroom = some required') :
    ∃ required, requirement estimate headroom = some required ∧
      required.modelMax ≤ required'.modelMax ∧ required.max ≤ required'.max := by
  rw [requirement_eq (by omega)] at h
  rw [requirement_eq hpos]
  dsimp only at h ⊢
  split_ifs at h with hfits
  cases h
  refine ⟨_, if_pos (by omega), ?_, ?_⟩ <;> dsimp only <;> omega

/-- At the smaller context the status is no worse. -/
structure NoWorse (status larger : LocalModelFitStatus) : Prop where
  fit : larger = .fit → status = .fit
  offload : larger = .fitWithOffload → status = .fit ∨ status = .fitWithOffload
  noFit : status = .noFit → larger ≠ .fit ∧ larger ≠ .fitWithOffload

theorem noWorse_unknown (status : LocalModelFitStatus) : NoWorse status .unknown := by
  constructor <;> simp

theorem singlePool_noWorse (hle : need ≤ need') :
    NoWorse (singlePoolAssessment need available reason).status
      (singlePoolAssessment need' available reason).status := by
  unfold singlePoolAssessment
  split_ifs <;> constructor <;> simp <;> omega

theorem discrete_noWorse (hle : need ≤ need') :
    NoWorse (discreteAssessment need accelerator host headroom).status
      (discreteAssessment need' accelerator host headroom).status := by
  unfold discreteAssessment
  dsimp only
  rw [checkedSum_eq]
  split_ifs <;> constructor <;> simp_all <;> omega

theorem assessPools_noWorse (hmodel : required.modelMax ≤ required'.modelMax)
    (hmax : required.max ≤ required'.max) :
    NoWorse (assessPools memory total available headroom accelerators required).1.status
      (assessPools memory total available headroom accelerators required').1.status ∧
    NoWorse (assessPools memory total available headroom accelerators required).2.status
      (assessPools memory total available headroom accelerators required').2.status := by
  unfold assessPools
  split_ifs
  · exact ⟨noWorse_unknown _, noWorse_unknown _⟩
  · exact ⟨singlePool_noWorse hmax, singlePool_noWorse hmax⟩
  · constructor
    · cases accelerators.mapM (·.totalMemoryBytes) with
      | none => exact noWorse_unknown _
      | some => exact discrete_noWorse hmodel
    · dsimp only
      split
      · exact discrete_noWorse hmodel
      · exact noWorse_unknown _
  · exact ⟨singlePool_noWorse hmax, singlePool_noWorse hmax⟩

theorem assessExecutor_noWorse (hpos : 0 < c) (hle : c ≤ c') :
    NoWorse (assessExecutor model c executor).static.status
      (assessExecutor model c' executor).static.status ∧
    NoWorse (assessExecutor model c executor).admission.status
      (assessExecutor model c' executor).admission.status := by
  unfold assessExecutor
  cases executor.snapshot with
  | none => exact ⟨noWorse_unknown _, noWorse_unknown _⟩
  | some =>
    cases hestimate : estimateModel model c' with
    | none => exact ⟨noWorse_unknown _, noWorse_unknown _⟩
    | some estimate' =>
      obtain ⟨estimate, hsmaller, hbuffer, hweights, hsame, hmin, hmax⟩ :=
        estimate_below hpos hle hestimate
      rw [hsmaller]
      dsimp only
      split
      · split
        · cases hrequired : requirement estimate' (headroomOf _) with
          | none => exact ⟨noWorse_unknown _, noWorse_unknown _⟩
          | some =>
            obtain ⟨required, heq, hmodel, hpool⟩ :=
              requirement_below hbuffer hweights hsame hmin hmax hrequired
            rw [heq]
            exact assessPools_noWorse hmodel hpool
        · exact ⟨noWorse_unknown _, noWorse_unknown _⟩
      · exact ⟨noWorse_unknown _, noWorse_unknown _⟩

theorem green_spec (h : zoneOf model executors c = "green") :
    aboveAdvertised model c = false ∧ ∀ e ∈ executors, admissionStatus model c e = .fit := by
  unfold zoneOf at h
  dsimp only at h
  split_ifs at h with habove hfit
  · simp at h
  · simpa [habove] using hfit.2
  all_goals simp at h

theorem green_of_recommended {presets : List Nat}
    {recommended : Option Nat} (hbefore : ∀ r, recommended = some r →
      zoneOf model executors r = "green")
    (h : presets.foldl (fun recommended preset =>
      if zoneOf model executors preset = "green" ∧ preset ≤ recommendedContextCap then some preset
      else recommended) recommended = some c) : zoneOf model executors c = "green" := by
  induction presets generalizing recommended with
  | nil => exact hbefore c h
  | cons preset presets ih =>
    refine ih ?_ h
    intro r hr
    dsimp only at hr
    split_ifs at hr with hgreen
    · cases hr
      exact hgreen.1
    · exact hbefore r hr

theorem recommended_safe {contextTokens : Nat}
    (h : (planLocalModelFit model contextTokens executors).recommendedContextTokens = some c') :
    (∀ advertised, model.advertisedMaxContext = some advertised → c' ≤ advertised) ∧
    ∀ e ∈ executors, ∀ c, 0 < c → c ≤ c' → admissionStatus model c e = .fit := by
  obtain ⟨habove, hfit⟩ := green_spec (green_of_recommended (by simp) h)
  constructor
  · intro advertised hadvertised
    simpa [aboveAdvertised, hadvertised] using habove
  · intro e he c hpos hle
    exact (assessExecutor_noWorse hpos hle).2.fit (hfit e he)

def LocalModelFitAssessment.amounts (a : LocalModelFitAssessment) : List (Option Nat) :=
  [a.availableBytes, a.acceleratorAvailableBytes, a.hostAvailableBytes]

def FitResult.amounts (r : FitResult) : List (Option Nat) :=
  r.static.amounts ++ r.admission.amounts ++
    [r.breakdown.weightsBytes, r.breakdown.kvCacheMinBytes, r.breakdown.kvCacheMaxBytes,
      r.breakdown.runtimeBufferBytes, r.breakdown.reservedHeadroomBytes,
      r.breakdown.requiredMinBytes, r.breakdown.requiredMaxBytes]

def Bounded (amounts : List (Option Nat)) : Prop := ∀ n, some n ∈ amounts → n ≤ maxBytes

def FitExecutor.AcceleratorsBounded (executor : FitExecutor) : Prop :=
  ∀ snapshot memory accelerators totals, executor.snapshot = some snapshot →
    snapshot.memory = some memory → snapshot.accelerators = some accelerators →
    memory.totalBytes.isSome → memory.availableBytes.isSome → memory.unified = some false →
    accelerators.mapM (·.totalMemoryBytes) = some totals → totals.sum ≤ maxBytes

theorem singlePool_bounded (h : available ≤ maxBytes) :
    Bounded (singlePoolAssessment need available reason).amounts := by
  intro n hn
  have heq : n = available := by
    simpa [LocalModelFitAssessment.amounts, singlePoolAssessment] using hn
  omega

theorem discrete_bounded (haccelerator : accelerator ≤ maxBytes) (hhost : host ≤ maxBytes) :
    Bounded (discreteAssessment need accelerator host headroom).amounts := by
  intro n hn
  have hfields : some n = checkedSum [accelerator, host - headroom] ∨ n = accelerator ∨
      n = host - headroom := by
    simpa [LocalModelFitAssessment.amounts, discreteAssessment] using hn
  rw [checkedSum_eq] at hfields
  rcases hfields with hsum | hfields
  · split_ifs at hsum with hfits
    cases hsum
    exact hfits
  · omega

theorem free_le {accelerators : List AcceleratorResourceSnapshot} {free : List Nat}
    (h : accelerators.mapM (fun a => do
      some ((← a.totalMemoryBytes) - (← a.usedMemoryBytes))) = some free) :
    ∃ totals, accelerators.mapM (·.totalMemoryBytes) = some totals ∧ free.sum ≤ totals.sum := by
  induction accelerators generalizing free with
  | nil =>
    cases h
    exact ⟨[], rfl, le_refl 0⟩
  | cons a accelerators ih =>
    simp only [mapM_cons, bind_eq_bind, bind_eq_some_iff] at h
    obtain ⟨first, ⟨total, htotal, used, _, hfirst⟩, rest, hrest, hfree⟩ := h
    obtain ⟨totals, htotals, hle⟩ := ih hrest
    cases hfirst
    cases hfree
    refine ⟨total :: totals, by simp [htotal, htotals], ?_⟩
    simp only [sum_cons]
    omega

theorem assessPools_bounded (headroom : Nat) (required : Requirement)
    (htotal : total ≤ maxBytes) (havailable : available ≤ maxBytes)
    (h : memory.unified = some false → ∀ totals,
      accelerators.mapM (·.totalMemoryBytes) = some totals → totals.sum ≤ maxBytes) :
    Bounded (assessPools memory total available headroom accelerators required).1.amounts ∧
    Bounded (assessPools memory total available headroom accelerators required).2.amounts := by
  have hunknown (reason : String) : Bounded (unknownAssessment reason).amounts := by
    intro n hn
    simp [LocalModelFitAssessment.amounts, unknownAssessment] at hn
  unfold assessPools
  split_ifs with htopology hunified hdiscrete
  · exact ⟨hunknown _, hunknown _⟩
  · exact ⟨singlePool_bounded htotal, singlePool_bounded havailable⟩
  · have hsplit : memory.unified = some false := by
      cases hcase : memory.unified with
      | none => exact absurd ⟨hcase, hdiscrete⟩ htopology
      | some unified => cases unified <;> simp_all
    constructor
    · cases htotals : accelerators.mapM (·.totalMemoryBytes) with
      | none => exact hunknown _
      | some totals => exact discrete_bounded (h hsplit totals htotals) htotal
    · dsimp only
      split
      · rename_i free hfree
        obtain ⟨totals, htotals, hle⟩ := free_le hfree
        exact discrete_bounded (le_trans hle (h hsplit totals htotals)) havailable
      · exact hunknown _
  · exact ⟨singlePool_bounded htotal, singlePool_bounded havailable⟩

theorem weightsOf_le (h : weightsOf model = some weights) : weights ≤ maxBytes := by
  unfold weightsOf at h
  split at h
  · rename_i given hgiven
    cases h
    rcases or_eq_some_iff.mp hgiven with hweights | ⟨-, hfile⟩
    · exact model.weights_le _ (filter_eq_some_iff.mp hweights).1
    · exact model.file_le _ hfile
  · simp only [bind_eq_bind, bind_eq_some_iff] at h
    obtain ⟨_, _, _, _, product, hproduct, heq⟩ := h
    have hle : product ≤ maxBytes := checkedMultiply_le hproduct
    cases heq
    omega

theorem estimate_bounded (h : estimateModel model c = some estimate) :
    estimate.weightsBytes ≤ maxBytes ∧ estimate.kvMinBytes ≤ maxBytes ∧
      estimate.kvMaxBytes ≤ maxBytes ∧ estimate.runtimeBufferBytes ≤ maxBytes ∧
      0 < estimate.runtimeBufferBytes := by
  unfold estimateModel at h
  split_ifs at h
  simp only [bind_eq_bind, bind_eq_some_iff] at h
  obtain ⟨weights, hweights, range, hrange, buffer, hbuffer, heq⟩ := h
  cases heq
  have hle := kvRange_le hrange
  rw [checkedSum_eq] at hbuffer
  split_ifs at hbuffer with hfits
  cases hbuffer
  exact ⟨weightsOf_le hweights, hle.1, hle.2, hfits, by simp [runtimeBufferFloorBytes]⟩

theorem headroomOf_le (h : total ≤ maxBytes) : headroomOf total ≤ maxBytes := by
  unfold headroomOf headroomFloorBytes maxBytes at *
  omega

theorem unknownResult_bounded {headroom : Option Nat}
    (h : estimateModel model c = some estimate)
    (hheadroom : ∀ n, headroom = some n → n ≤ maxBytes) :
    Bounded (unknownResult reason (breakdown estimate headroom)).amounts := by
  obtain ⟨hweights, hmin, hmax, hbuffer, -⟩ := estimate_bounded h
  intro n hn
  have hfields : n = estimate.weightsBytes ∨ n = estimate.kvMinBytes ∨ n = estimate.kvMaxBytes ∨
      n = estimate.runtimeBufferBytes ∨ headroom = some n := by
    simpa [FitResult.amounts, unknownResult, unknownAssessment, breakdown,
      LocalModelFitAssessment.amounts, eq_comm] using hn
  rcases hfields with rfl | rfl | rfl | rfl | hn
  · exact hweights
  · exact hmin
  · exact hmax
  · exact hbuffer
  · exact hheadroom n hn

theorem assessExecutor_bounded (h : executor.AcceleratorsBounded) :
    Bounded (assessExecutor model c executor).amounts := by
  unfold assessExecutor
  cases hsnapshot : executor.snapshot with
  | none =>
    intro n hn
    simp [FitResult.amounts, unknownResult, unknownAssessment, LocalModelFitAssessment.amounts]
      at hn
  | some snapshot =>
    cases hestimate : estimateModel model c with
    | none =>
      intro n hn
      simp [FitResult.amounts, unknownResult, unknownAssessment,
        LocalModelFitAssessment.amounts] at hn
    | some estimate =>
      dsimp only
      split
      · rename_i memory accelerators hmemory haccelerators
        split
        · rename_i total available htotal havailable
          have hheadroom : ∀ n, some (headroomOf total) = some n → n ≤ maxBytes := by
            intro n hn
            cases hn
            exact headroomOf_le (memory.total_le total htotal)
          cases hrequired : requirement estimate (headroomOf total) with
          | none => exact unknownResult_bounded hestimate hheadroom
          | some required =>
            obtain ⟨hstatic, hadmission⟩ := assessPools_bounded (headroomOf total) required
              (memory.total_le total htotal) (memory.available_le available havailable)
              fun hunified totals htotals => h snapshot memory accelerators totals hsnapshot
                hmemory haccelerators (by simp [htotal]) (by simp [havailable]) hunified htotals
            obtain ⟨hweights, hmin, hmax, hbuffer, hpos⟩ := estimate_bounded hestimate
            rw [requirement_eq hpos] at hrequired
            dsimp only at hrequired
            split_ifs at hrequired with hfits
            cases hrequired
            intro n hn
            simp only [FitResult.amounts, breakdown, mem_append, mem_cons, some.injEq,
              not_mem_nil, or_false] at hn
            rcases hn with (hn | hn) | hn
            · exact hstatic n hn
            · exact hadmission n hn
            · omega
        · exact unknownResult_bounded hestimate (by simp)
      · exact unknownResult_bounded hestimate (by simp)

def tinyModel : LocalModelFitMetadata :=
  { weightsBytes := some 1, layerCount := some 1, kvHeadCount := some 1, headDimension := some 1
    weights_le := by decide, file_le := by decide }

theorem acceleratorsBounded_of_tiny
    (h : Bounded (assessExecutor tinyModel 1 executor).amounts) : executor.AcceleratorsBounded := by
  intro snapshot memory accelerators totals hsnapshot hmemory haccelerators htotal havailable
    hunified htotals
  obtain ⟨total, htotal⟩ := isSome_iff_exists.mp htotal
  obtain ⟨available, havailable⟩ := isSome_iff_exists.mp havailable
  have hle : total ≤ maxBytes := memory.total_le total htotal
  obtain ⟨required, hrequired⟩ : ∃ required,
      requirement ⟨1, 2, 4, runtimeBufferFloorBytes⟩ (headroomOf total) = some required := by
    rw [requirement_eq (by decide)]
    refine ⟨_, if_pos ?_⟩
    unfold headroomOf headroomFloorBytes runtimeBufferFloorBytes maxBytes at *
    dsimp only
    omega
  have hestimate : estimateModel tinyModel 1 = some ⟨1, 2, 4, runtimeBufferFloorBytes⟩ := rfl
  by_cases hnil : accelerators = []
  · cases hnil
    cases htotals
    exact Nat.zero_le _
  · apply h
    unfold assessExecutor
    rw [hsnapshot, hestimate]
    simp [hmemory, haccelerators, htotal, havailable, hrequired, assessPools, hunified, hnil,
      htotals, discreteAssessment, FitResult.amounts, LocalModelFitAssessment.amounts]

end Cognis.LocalModelFit
