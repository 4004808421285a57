import Cognis.RuntimeRelay.Queue

namespace Cognis.RuntimeRelay

open Option

variable (current : Envelope) (raw : Option Wire) (candidate : Envelope) (argv : Wire)

inductive AdmissionDecision
  | accept
  | stale
  | wrongTurn
  | wrongFence
  deriving DecidableEq

namespace Envelope

def sameGeneration (current : Envelope) : Bool :=
  candidate.directRequestId == current.directRequestId && candidate.turnId == current.turnId &&
    candidate.owner == current.owner

end Envelope

def compareContent : AdmissionDecision :=
  if current.inactive && candidate.kind == .runtime then .stale
  else if current.kind == .runtime && candidate.inactive then .accept
  else if candidate.sourceRevision.val < current.sourceRevision.val then .stale
  else if candidate.authority.isNone && current.authority.isNone &&
      candidate.sourceRevision == current.sourceRevision then .stale
  else if candidate.sourceRevision == current.sourceRevision &&
      !candidate.volatileItemsComplete && current.volatileItemsComplete then .stale
  else .accept

def compareEpochs : AdmissionDecision :=
  match candidate.authority, current.authority with
  | some candidateAuthority, some currentAuthority =>
    if candidateAuthority.sourceEpoch.isSome && currentAuthority.sourceEpoch.isSome &&
        candidateAuthority.sourceEpoch != currentAuthority.sourceEpoch then
      if candidate.kind != .runtime || current.kind != .runtime then .accept else .stale
    else compareContent current candidate
  | _, _ =>
    if candidate.origin.runtimeEpoch != current.origin.runtimeEpoch then .stale
    else compareContent current candidate

def compareAdmission (current : Option Envelope) (candidate : Envelope) : AdmissionDecision :=
  match current with
  | none => .accept
  | some current =>
    if candidate.fencingToken.val > current.fencingToken.val then .accept
    else if candidate.fencingToken.val < current.fencingToken.val then .wrongFence
    else if !candidate.sameGeneration current then .wrongTurn
    else compareEpochs current candidate

structure ScriptOutcome where
  reply : Int
  stored : Option Wire
  published : List Wire
  deriving DecidableEq

namespace ScriptOutcome

/-- `SET`, `PUBLISH` and `return 1`. -/
def admitted : ScriptOutcome := ⟨1, some argv, [argv]⟩

def rejected (reply : Int) : ScriptOutcome := ⟨reply, raw, []⟩

end ScriptOutcome

open ScriptOutcome Lua.Value in
def admitContent (candidate current : Lua.Value) (raw : Option Wire) (argv : Wire)
    (candidateAuthority currentAuthority : Bool) : Lua.Eval ScriptOutcome := do
  let candidateKind ← candidate.index "kind"
  let currentKind ← current.index "kind"
  let currentInactive :=
    currentKind.eq (string "terminal") || currentKind.eq (string "relinquished")
  let candidateInactive :=
    candidateKind.eq (string "terminal") || candidateKind.eq (string "relinquished")
  if currentInactive && candidateKind.eq (string "runtime") then
    return rejected raw (-1)
  if currentKind.eq (string "runtime") && candidateInactive then
    return admitted argv
  let candidateRevision ← candidate.index "source_revision"
  let currentRevision ← current.index "source_revision"
  if ← candidateRevision.lt currentRevision then
    return rejected raw (-1)
  if candidateRevision.eq currentRevision then
    if !candidateAuthority && !currentAuthority then
      return rejected raw (-1)
    let candidateComplete ← candidate.index "volatile_items_complete"
    let currentComplete ← current.index "volatile_items_complete"
    if candidateComplete.eq (bool false) && currentComplete.eq (bool true) then
      return rejected raw (-1)
  return admitted argv

open ScriptOutcome Lua.Value in
/-- `ADMIT_AND_PUBLISH_LUA` on the latest key with value `raw`. -/
def admitAndPublish : Lua.Eval ScriptOutcome := do
  let candidate := argv.decoded
  match raw with
  | none => return admitted argv
  | some stored =>
    let current := stored.decoded
    let candidateFence ← candidate.index "fencing_token"
    let currentFence ← current.index "fencing_token"
    if ← candidateFence.lt currentFence then
      return rejected raw (-3)
    if candidateFence.eq currentFence then
      let candidateOwner ← candidate.index "owner"
      let currentOwner ← current.index "owner"
      if !(← candidate.index "direct_request_id").eq (← current.index "direct_request_id") ||
          !(← candidate.index "turn_id").eq (← current.index "turn_id") ||
          !(← candidateOwner.index "controller_id").eq (← currentOwner.index "controller_id") ||
          !(← candidateOwner.index "incarnation_id").eq (← currentOwner.index "incarnation_id") then
        return rejected raw (-2)
      let authorityOfCandidate ← candidate.index "authority"
      let authorityOfCurrent ← current.index "authority"
      let candidateAuthority := authorityOfCandidate.isTable
      let currentAuthority := authorityOfCurrent.isTable
      if candidateAuthority && currentAuthority then
        let candidateEpoch ← authorityOfCandidate.index "source_epoch"
        let currentEpoch ← authorityOfCurrent.index "source_epoch"
        if candidateEpoch.truthy && currentEpoch.truthy && !candidateEpoch.eq currentEpoch &&
            (← candidate.index "kind").eq (string "runtime") &&
            (← current.index "kind").eq (string "runtime") then
          return rejected raw (-1)
      else
        let candidateOrigin ← candidate.index "origin"
        let currentOrigin ← current.index "origin"
        if !(← candidateOrigin.index "runtime_epoch").eq
            (← currentOrigin.index "runtime_epoch") then
          return rejected raw (-1)
      admitContent candidate current raw argv candidateAuthority currentAuthority
    else
      return admitted argv

namespace Wire

theorem index_decoded (w : Wire) {key : String} {v : Lua.Value}
    (hnew : key ∉ ["version", "event_id", "conversation_id", "session_id", "has_active_turn",
      "wire_version", "codec", "raw_size", "raw_sha256", "payload_b64"])
    (h : (admissionFields w.envelope).lookup key = some v) : w.decoded.index key = .ok v := by
  obtain ⟨e, form⟩ := w
  simp only [List.mem_cons, List.not_mem_nil, or_false, not_or] at hnew
  obtain ⟨h₁, h₂, h₃, h₄, h₅, h₆, h₇, h₈, h₉, h₁₀⟩ := hnew
  cases form <;>
    simp only [decoded, List.cons_append, List.nil_append, Lua.Value.index_table,
      List.lookup_cons, beq_eq_false_iff_ne.mpr, h₁, h₂, h₃, h₄, h₅, h₆, h₇, h₈, h₉, h₁₀, h,
      ne_eq, not_false_eq_true, getD_some]

variable (w : Wire)

@[simp] theorem index_kind : w.decoded.index "kind" = .ok (.string w.envelope.kind.text) :=
  w.index_decoded (by decide) rfl

@[simp] theorem index_directRequestId :
    w.decoded.index "direct_request_id" = .ok (.string w.envelope.directRequestId) :=
  w.index_decoded (by decide) rfl

@[simp] theorem index_turnId : w.decoded.index "turn_id" = .ok (.string w.envelope.turnId) :=
  w.index_decoded (by decide) rfl

@[simp] theorem index_owner : w.decoded.index "owner" = .ok w.envelope.owner.decoded :=
  w.index_decoded (by decide) rfl

@[simp] theorem index_origin : w.decoded.index "origin" = .ok w.envelope.origin.decoded :=
  w.index_decoded (by decide) rfl

@[simp] theorem index_fencingToken :
    w.decoded.index "fencing_token" = .ok (.number w.envelope.fencingToken.val) :=
  w.index_decoded (by decide) rfl

@[simp] theorem index_sourceRevision :
    w.decoded.index "source_revision" = .ok (.number w.envelope.sourceRevision.val) :=
  w.index_decoded (by decide) rfl

@[simp] theorem index_authority : w.decoded.index "authority" =
      .ok ((w.envelope.authority.map RuntimeAuthority.decoded).getD .null) :=
  w.index_decoded (by decide) rfl

@[simp] theorem index_volatileItemsComplete :
    w.decoded.index "volatile_items_complete" = .ok (.bool w.envelope.volatileItemsComplete) :=
  w.index_decoded (by decide) rfl

end Wire

@[simp] theorem RelayOwner.index_controllerId (o : RelayOwner) :
    o.decoded.index "controller_id" = .ok (.string o.controllerId) := rfl

@[simp] theorem RelayOwner.index_incarnationId (o : RelayOwner) :
    o.decoded.index "incarnation_id" = .ok (.string o.incarnationId) := rfl

@[simp] theorem RelayOrigin.index_runtimeEpoch (o : RelayOrigin) :
    o.decoded.index "runtime_epoch" = .ok (.string o.runtimeEpoch) := rfl

@[simp] theorem RuntimeAuthority.index_sourceEpoch (a : RuntimeAuthority) :
    a.decoded.index "source_epoch" = .ok (.ofOption a.sourceEpoch) := rfl

def ScriptOutcome.ofDecision : AdmissionDecision → ScriptOutcome
  | .accept => admitted argv
  | .stale => rejected raw (-1)
  | .wrongTurn => rejected raw (-2)
  | .wrongFence => rejected raw (-3)

def refusesEpoch : Bool :=
  match candidate.authority, current.authority with
  | some candidateAuthority, some currentAuthority =>
    candidateAuthority.sourceEpoch != currentAuthority.sourceEpoch &&
      candidate.kind == .runtime && current.kind == .runtime
  | _, _ => candidate.origin.runtimeEpoch != current.origin.runtimeEpoch

def scriptEpochs : AdmissionDecision :=
  if refusesEpoch current candidate then .stale else compareContent current candidate

def scriptDecision (current : Option Envelope) (candidate : Envelope) : AdmissionDecision :=
  match current with
  | none => .accept
  | some current =>
    if candidate.fencingToken.val < current.fencingToken.val then .wrongFence
    else if candidate.fencingToken.val == current.fencingToken.val then
      if !candidate.sameGeneration current then .wrongTurn
      else scriptEpochs current candidate
    else .accept

theorem Envelope.inactive_text (e : Envelope) :
    (e.kind.text == "terminal" || e.kind.text == "relinquished") = e.inactive := by
  unfold Envelope.inactive
  cases e.kind <;> decide

theorem RelayKind.runtime_text (k : RelayKind) : (k.text == "runtime") = (k == .runtime) := by
  cases k <;> decide

theorem val_beq_val (a b : RedisInteger) : (a.val == b.val) = (a == b) := by
  rw [Bool.eq_iff_iff, beq_iff_eq, beq_iff_eq]
  exact Subtype.ext_iff.symm

theorem admitContent_eq (candidate current : Wire) (raw : Option Wire) (argv : Wire) :
    admitContent candidate.decoded current.decoded raw argv candidate.envelope.authority.isSome
        current.envelope.authority.isSome =
      .ok (.ofDecision raw argv (compareContent current.envelope candidate.envelope)) := by
  unfold admitContent compareContent
  simp only [Wire.index_kind, Wire.index_sourceRevision, Wire.index_volatileItemsComplete,
    Lua.Value.eq_string, Envelope.inactive_text, RelayKind.runtime_text,
    Lua.Eval.ok_bind, Lua.Eval.pure_eq, Lua.Value.lt_number, Lua.Value.eq_number, Lua.Value.eq_bool,
      val_beq_val,
    not_isSome, decide_eq_true_eq, beq_false, beq_true]
  by_cases hresumed : (current.envelope.inactive && candidate.envelope.kind == .runtime)
  · rw [if_pos hresumed, if_pos hresumed]
    rfl
  · rw [if_neg hresumed, if_neg hresumed]
    by_cases hended : (current.envelope.kind == .runtime && candidate.envelope.inactive)
    · rw [if_pos hended, if_pos hended]
      rfl
    · rw [if_neg hended, if_neg hended]
      by_cases hlower : candidate.envelope.sourceRevision.val < current.envelope.sourceRevision.val
      · rw [if_pos hlower, if_pos hlower]
        rfl
      · rw [if_neg hlower, if_neg hlower]
        cases hsame : candidate.envelope.sourceRevision == current.envelope.sourceRevision
        · simp only [Bool.false_eq_true, if_false, Bool.and_false, Bool.false_and]
          rfl
        · simp only [if_true, Bool.and_true, Bool.true_and]
          split
          · rfl
          · split <;> rfl

theorem sameGeneration_text (current : Envelope) :
    (!(candidate.directRequestId == current.directRequestId) ||
      !(candidate.turnId == current.turnId) ||
      !(candidate.owner.controllerId == current.owner.controllerId) ||
      !(candidate.owner.incarnationId == current.owner.incarnationId)) =
      !candidate.sameGeneration current := by
  have howner : (candidate.owner == current.owner) =
      (candidate.owner.controllerId == current.owner.controllerId &&
        candidate.owner.incarnationId == current.owner.incarnationId) := by
    rw [Bool.eq_iff_iff, Bool.and_eq_true, beq_iff_eq, beq_iff_eq, beq_iff_eq]
    exact RelayOwner.ext_iff
  simp only [Envelope.sameGeneration, howner, Bool.not_and, Bool.or_assoc]

theorem decoded_authority_isTable (authority : Option RuntimeAuthority) :
    ((authority.map RuntimeAuthority.decoded).getD .null).isTable = authority.isSome := by
  cases authority <;> rfl

variable {current candidate : Envelope} {b : RuntimeAuthority} {a : RuntimeAuthority}

theorem refusesEpoch_of_both (hcurrent : current.authority = some b)
    (hcandidate : candidate.authority = some a) :
    refusesEpoch current candidate = (!(a.sourceEpoch == b.sourceEpoch) &&
      candidate.kind == .runtime && current.kind == .runtime) := by
  simp only [refusesEpoch, hcurrent, hcandidate, bne]

theorem refusesEpoch_of_not_both (h : ¬ (candidate.authority.isSome && current.authority.isSome)) :
    refusesEpoch current candidate =
      !(candidate.origin.runtimeEpoch == current.origin.runtimeEpoch) := by
  cases hcandidate : candidate.authority with
  | none => simp only [refusesEpoch, hcandidate, bne]
  | some a =>
    cases hcurrent : current.authority with
    | none => simp only [refusesEpoch, hcandidate, hcurrent, bne]
    | some b =>
      rw [hcandidate, hcurrent] at h
      exact absurd rfl h

theorem admitAndPublish_eq : admitAndPublish raw argv =
      .ok (.ofDecision raw argv (scriptDecision (raw.map (·.envelope)) argv.envelope)) := by
  cases raw with
  | none => rfl
  | some stored =>
    unfold admitAndPublish scriptDecision
    simp only [Wire.index_fencingToken, Wire.index_owner, Wire.index_directRequestId,
      Wire.index_turnId, Wire.index_authority, Wire.index_origin, Wire.index_kind,
      RelayOwner.index_controllerId, RelayOwner.index_incarnationId,
      RelayOrigin.index_runtimeEpoch, Lua.Eval.ok_bind, Lua.Eval.pure_eq, Lua.Value.lt_number,
      Lua.Value.eq_number, Lua.Value.eq_string, sameGeneration_text, RelayKind.runtime_text,
      decide_eq_true_eq, map_some, decoded_authority_isTable]
    by_cases hlower : argv.envelope.fencingToken.val < stored.envelope.fencingToken.val
    · rw [if_pos hlower, if_pos hlower]
      rfl
    · rw [if_neg hlower, if_neg hlower]
      by_cases hsame : (argv.envelope.fencingToken.val == stored.envelope.fencingToken.val)
      · rw [if_pos hsame, if_pos hsame]
        by_cases hother : (!argv.envelope.sameGeneration stored.envelope)
        · rw [if_pos hother, if_pos hother]
          rfl
        · rw [if_neg hother, if_neg hother]
          have hcontent := admitContent_eq argv stored (some stored) argv
          unfold scriptEpochs
          by_cases hboth : (argv.envelope.authority.isSome &&
              stored.envelope.authority.isSome)
          · rw [if_pos hboth, hcontent]
            rw [Bool.and_eq_true, isSome_iff_exists, isSome_iff_exists] at hboth
            obtain ⟨⟨candidateAuthority, hcandidate⟩, currentAuthority, hcurrent⟩ := hboth
            rw [refusesEpoch_of_both hcurrent hcandidate, hcandidate, hcurrent]
            simp only [map_some, getD_some, RuntimeAuthority.index_sourceEpoch,
              Lua.Eval.ok_bind, Lua.Value.truthy_ofOption, Lua.Value.eq_ofOption, Bool.true_and]
            split
            · rfl
            · rfl
          · rw [if_neg hboth, hcontent, refusesEpoch_of_not_both hboth]
            split
            · rfl
            · rfl
      · rw [if_neg hsame, if_neg hsame]
        rfl

def RulesAgree : Prop :=
  ∃ outcome, admitAndPublish raw argv = .ok outcome ∧
    let decision := compareAdmission (raw.map (·.envelope)) argv.envelope
    (decision = .accept ↔ outcome.stored = some argv ∧ outcome.published = [argv]) ∧
      (decision = .stale ↔ outcome.reply = -1) ∧ (decision = .wrongTurn ↔ outcome.reply = -2) ∧
      (decision = .wrongFence ↔ outcome.reply = -3)

def Envelope.OlderThan (candidate current : Envelope) : Prop :=
  candidate.sourceRevision.val < current.sourceRevision.val ∨
    (candidate.sourceRevision = current.sourceRevision ∧
      candidate.volatileItemsComplete = false ∧ current.volatileItemsComplete = true)

/-- Two authorities with different source epochs: a null epoch matters only for a runtime
envelope that is older, and two epochs only where a candidate that is not runtime and not older
follows an inactive envelope. -/
def EpochsSettled (current candidate : Envelope) : Prop :=
  ∀ a b, candidate.authority = some a → current.authority = some b → a.sourceEpoch ≠ b.sourceEpoch →
    ((a.sourceEpoch = none ∨ b.sourceEpoch = none) → candidate.kind = .runtime →
        current.kind = .runtime → candidate.OlderThan current) ∧
      (a.sourceEpoch ≠ none → b.sourceEpoch ≠ none → current.kind ≠ .runtime →
        candidate.kind ≠ .runtime ∧ ¬ candidate.OlderThan current)

theorem rulesAgree_iff_eq :
    RulesAgree raw argv ↔ compareAdmission (raw.map (·.envelope)) argv.envelope =
      scriptDecision (raw.map (·.envelope)) argv.envelope := by
  unfold RulesAgree
  rw [admitAndPublish_eq]
  generalize compareAdmission (raw.map (·.envelope)) argv.envelope = decision
  generalize scriptDecision (raw.map (·.envelope)) argv.envelope = reached
  constructor
  · rintro ⟨outcome, houtcome, haccept, hstale, hturn, hfence⟩
    obtain rfl := Except.ok.inj houtcome
    cases reached with
    | accept => exact haccept.mpr ⟨rfl, rfl⟩
    | stale => exact hstale.mpr rfl
    | wrongTurn => exact hturn.mpr rfl
    | wrongFence => exact hfence.mpr rfl
  · intro h
    subst h
    refine ⟨_, rfl, ?_⟩
    cases decision <;>
      simp [ScriptOutcome.ofDecision, ScriptOutcome.admitted, ScriptOutcome.rejected]

instance (candidate current : Envelope) : Decidable (candidate.OlderThan current) :=
  inferInstanceAs (Decidable (_ ∨ _))

theorem olderThan_iff : candidate.OlderThan current ↔
      candidate.sourceRevision.val < current.sourceRevision.val ∨
        (candidate.sourceRevision == current.sourceRevision && !candidate.volatileItemsComplete &&
          current.volatileItemsComplete) := by
  simp only [Envelope.OlderThan, Bool.and_eq_true, beq_iff_eq, Bool.not_eq_true', and_assoc]

theorem compareContent_of_some (hcurrent : current.authority = some b) :
    compareContent current candidate =
      if current.kind ≠ .runtime ∧ candidate.kind = .runtime then .stale
      else if current.kind = .runtime ∧ candidate.kind ≠ .runtime then .accept
      else if candidate.OlderThan current then .stale
      else .accept := by
  have hresumed : (current.inactive && candidate.kind == .runtime) ↔
      current.kind ≠ .runtime ∧ candidate.kind = .runtime := by simp [Envelope.inactive]
  have hended : (current.kind == .runtime && candidate.inactive) ↔
      current.kind = .runtime ∧ candidate.kind ≠ .runtime := by simp [Envelope.inactive]
  unfold compareContent
  simp only [hresumed, hended, hcurrent, isNone_some, Bool.and_false, Bool.false_and,
    Bool.false_eq_true, if_false, olderThan_iff]
  by_cases hlower : candidate.sourceRevision.val < current.sourceRevision.val
  · simp only [hlower, true_or, if_true]
  · simp only [hlower, false_or, if_false]

theorem epochsSettled_iff (hcurrent : current.authority = some b)
    (hcandidate : candidate.authority = some a) :
    EpochsSettled current candidate ↔ (a.sourceEpoch ≠ b.sourceEpoch →
      ((a.sourceEpoch = none ∨ b.sourceEpoch = none) → candidate.kind = .runtime →
        current.kind = .runtime → candidate.OlderThan current) ∧
      (a.sourceEpoch ≠ none → b.sourceEpoch ≠ none → current.kind ≠ .runtime →
        candidate.kind ≠ .runtime ∧ ¬ candidate.OlderThan current)) := by
  constructor
  · intro h
    exact h a b hcandidate hcurrent
  · intro h a' b' ha' hb'
    obtain rfl := some.inj (hcandidate.symm.trans ha')
    obtain rfl := some.inj (hcurrent.symm.trans hb')
    exact h

theorem compareEpochs_of_not_both (h : ¬ (candidate.authority.isSome && current.authority.isSome)) :
    compareEpochs current candidate = scriptEpochs current candidate := by
  rw [scriptEpochs, refusesEpoch_of_not_both h]
  cases hcandidate : candidate.authority with
  | none => simp only [compareEpochs, hcandidate, bne]
  | some a =>
    cases hcurrent : current.authority with
    | none => simp only [compareEpochs, hcandidate, hcurrent, bne]
    | some b =>
      rw [hcandidate, hcurrent] at h
      exact absurd rfl h

theorem compareEpochs_eq_iff (current candidate : Envelope) :
    compareEpochs current candidate = scriptEpochs current candidate ↔
      EpochsSettled current candidate := by
  by_cases hboth : (candidate.authority.isSome && current.authority.isSome)
  · rw [Bool.and_eq_true, isSome_iff_exists, isSome_iff_exists] at hboth
    obtain ⟨⟨a, hcandidate⟩, b, hcurrent⟩ := hboth
    rw [epochsSettled_iff hcurrent hcandidate]
    have hpython : compareEpochs current candidate =
        if a.sourceEpoch.isSome && b.sourceEpoch.isSome && a.sourceEpoch != b.sourceEpoch then
          if candidate.kind != .runtime || current.kind != .runtime then .accept else .stale
        else compareContent current candidate := by
      simp only [compareEpochs, hcandidate, hcurrent]
    rw [hpython, scriptEpochs, refusesEpoch_of_both hcurrent hcandidate,
      compareContent_of_some hcurrent]
    by_cases hepoch : a.sourceEpoch = b.sourceEpoch
    · simp [hepoch]
    · by_cases hnull : a.sourceEpoch = none ∨ b.sourceEpoch = none
      · have hsome : (a.sourceEpoch.isSome && b.sourceEpoch.isSome) = false := by
          rcases hnull with h | h <;> simp [h]
        have hnot : ¬ (a.sourceEpoch ≠ none ∧ b.sourceEpoch ≠ none) := by
          rintro ⟨ha, hb⟩
          exact hnull.elim ha hb
        -- only two runtime envelopes are treated differently
        by_cases hruntime : candidate.kind = .runtime ∧ current.kind = .runtime
        · obtain ⟨hcandidateKind, hcurrentKind⟩ := hruntime
          by_cases holder : candidate.OlderThan current
          · simp [hepoch, hcandidateKind, hcurrentKind, holder]
          · simp [hepoch, hsome, hcandidateKind, hcurrentKind, holder, hnull]
        · have hboth : (!(a.sourceEpoch == b.sourceEpoch) && candidate.kind == .runtime &&
              current.kind == .runtime) = false := by
            rw [Bool.and_assoc, Bool.and_eq_false_iff]
            right
            simpa using hruntime
          rw [hsome, hboth]
          simp only [Bool.false_and, Bool.false_eq_true, if_false, true_iff]
          intro _
          refine ⟨fun _ hc hk => absurd ⟨hc, hk⟩ hruntime, ?_⟩
          intro ha hb
          exact absurd ⟨ha, hb⟩ hnot
      · rw [not_or] at hnull
        have hsome : (a.sourceEpoch.isSome && b.sourceEpoch.isSome &&
            a.sourceEpoch != b.sourceEpoch) := by
          simp [isSome_iff_ne_none, hnull.1, hnull.2, hepoch]
        -- two epochs: the first rule decides by the kinds alone
        cases hcurrentKind : current.kind <;> cases hcandidateKind : candidate.kind <;>
          by_cases holder : candidate.OlderThan current <;>
          simp [hepoch, hnull.1, hnull.2, holder]
  · refine ⟨?_, fun _ => compareEpochs_of_not_both hboth⟩
    intro _ a b hcandidate hcurrent
    rw [hcandidate, hcurrent] at hboth
    exact absurd rfl hboth

/-- The two rules agree on a candidate exactly when its generation is another one, or no
difference of source epochs is in the way. -/
theorem rulesAgree_iff (raw : Option Wire) (argv : Wire) :
    RulesAgree raw argv ↔ ∀ stored, raw = some stored →
      argv.envelope.fencingToken = stored.envelope.fencingToken →
      argv.envelope.sameGeneration stored.envelope →
      EpochsSettled stored.envelope argv.envelope := by
  rw [rulesAgree_iff_eq]
  cases raw with
  | none =>
    refine ⟨?_, fun _ => rfl⟩
    intro _ stored h
    cases h
  | some stored =>
    have hcollapse : (∀ other, some stored = some other →
        argv.envelope.fencingToken = other.envelope.fencingToken →
        argv.envelope.sameGeneration other.envelope →
        EpochsSettled other.envelope argv.envelope) ↔
        (argv.envelope.fencingToken = stored.envelope.fencingToken →
          argv.envelope.sameGeneration stored.envelope →
          EpochsSettled stored.envelope argv.envelope) := by simp
    rw [hcollapse, map_some, ← compareEpochs_eq_iff]
    unfold compareAdmission scriptDecision
    rw [Subtype.ext_iff]
    rcases Nat.lt_trichotomy argv.envelope.fencingToken.val
      stored.envelope.fencingToken.val with hlt | heq | hgt
    · simp [hlt, Nat.lt_asymm hlt, Nat.ne_of_lt hlt]
    · simp only [heq, Nat.lt_irrefl, if_false, gt_iff_lt, beq_self_eq_true, if_true]
      cases argv.envelope.sameGeneration stored.envelope <;> simp
    · simp [hgt, Nat.lt_asymm hgt, Nat.ne_of_gt hgt]

def finishedEnvelope : Envelope where
  kind := .terminal
  eventId := "event-1"
  generatedAt := 0
  origin := ⟨"controller-a", "incarnation-1", "epoch-a"⟩
  conversationId := "conversation"
  sessionId := "session"
  turnId := "turn"
  directRequestId := "request"
  owner := ⟨"controller-a", "incarnation-1"⟩
  fencingToken := ⟨7, by decide⟩
  sourceRevision := ⟨2, by decide⟩
  authority := some ⟨"request", "turn", 7, .terminal, some "epoch-a", some 2⟩

def resumedEnvelope : Envelope :=
  { finishedEnvelope with
    kind := .runtime
    eventId := "event-2"
    origin := ⟨"controller-a", "incarnation-1", "epoch-b"⟩
    sourceRevision := ⟨3, by decide⟩
    authority := some ⟨"request", "turn", 7, .active, some "epoch-b", some 3⟩
    activeTurn := some ⟨"turn", "session", ""⟩
    hasActiveTurn := true }

theorem resumed_accepted_not_stored :
    finishedEnvelope.validateCoherence ∧ resumedEnvelope.validateCoherence ∧
      compareAdmission (some finishedEnvelope) resumedEnvelope = .accept ∧
      admitAndPublish (some ⟨finishedEnvelope, .plain⟩) ⟨resumedEnvelope, .plain⟩ =
        .ok ⟨-1, some ⟨finishedEnvelope, .plain⟩, []⟩ ∧
      ¬ RulesAgree (some ⟨finishedEnvelope, .plain⟩) ⟨resumedEnvelope, .plain⟩ := by
  refine ⟨by decide, by decide, by decide, ?_, ?_⟩
  · rfl
  · rw [rulesAgree_iff_eq]
    decide

end Cognis.RuntimeRelay
