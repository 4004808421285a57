import Cognis.Client.Local

namespace Cognis.Client

open List

variable (overlays : List RuntimeOverlaySnapshot) (c i : RuntimeOverlaySnapshot)

def foldRuntime : Option RuntimeOverlaySnapshot :=
  overlays.foldl (fun current incoming => maybeApplyRuntime current (some incoming)) none

def TokensIdentify : Prop :=
  ∀ o₁ ∈ overlays, ∀ o₂ ∈ overlays, ∀ a₁ ∈ runtimeAuthorityV1 o₁, ∀ a₂ ∈ runtimeAuthorityV1 o₂,
    a₁.fencingToken = a₂.fencingToken →
      a₁.directRequestId = a₂.directRequestId ∧ a₁.turnId = a₂.turnId

/-- `token` was delivered by an authoritative overlay, in the given activity. -/
def DeliveredToken (token : Int) (active : Bool) : Prop :=
  ∃ o ∈ overlays, ∃ a, runtimeAuthorityV1 o = some a ∧ a.fencingToken = token ∧
    o.hasActiveTurn = active

variable (r : RuntimeOverlaySnapshot)

@[simp] theorem runtimeAuthorityV1_dropTransientNotices :
    runtimeAuthorityV1 (dropTransientNotices r) = runtimeAuthorityV1 r := by
  unfold dropTransientNotices
  split_ifs <;> rfl

@[simp] theorem hasActiveTurn_dropTransientNotices :
    (dropTransientNotices r).hasActiveTurn = r.hasActiveTurn := by
  unfold dropTransientNotices
  split_ifs <;> rfl

@[simp] theorem runtimeAuthorityV1_mergeRuntimeOverlay :
    runtimeAuthorityV1 (mergeRuntimeOverlay c i) = runtimeAuthorityV1 i := by
  unfold mergeRuntimeOverlay
  split_ifs <;> rfl

@[simp] theorem hasActiveTurn_mergeRuntimeOverlay :
    (mergeRuntimeOverlay c i).hasActiveTurn = i.hasActiveTurn := by
  unfold mergeRuntimeOverlay
  split_ifs <;> rfl

def SpeaksFor (r incoming : RuntimeOverlaySnapshot) : Prop :=
  runtimeAuthorityV1 r = runtimeAuthorityV1 incoming ∧ r.hasActiveTurn = incoming.hasActiveTurn

theorem SpeaksFor.refl : SpeaksFor r r := ⟨rfl, rfl⟩

theorem speaksFor_mergeRuntimeOverlay : SpeaksFor (mergeRuntimeOverlay c i) i := ⟨by simp, by simp⟩

/-- Within one generation an overlay is kept or replaced by one that speaks for the
arriving overlay, and an ended turn stays ended. -/
def SettlesOnly (current incoming : RuntimeOverlaySnapshot) : RuntimeDecision → Prop
  | .keep => current.hasActiveTurn = true → incoming.hasActiveTurn = true
  | .accept r => SpeaksFor r incoming ∧
      (incoming.hasActiveTurn = true → current.hasActiveTurn = true)

variable {cur incoming : RuntimeOverlaySnapshot}

theorem applySameRevision_settlesOnly (h : cur.hasActiveTurn = incoming.hasActiveTurn) :
    SettlesOnly cur incoming (applySameRevision cur incoming) := by
  unfold applySameRevision
  split_ifs
  · exact ⟨.refl _, fun ha => h.trans ha⟩
  · exact fun ha => h.symm.trans ha
  · exact ⟨speaksFor_mergeRuntimeOverlay _ _, fun ha => h.trans ha⟩

theorem newerRevision_settlesOnly (h : cur.hasActiveTurn = incoming.hasActiveTurn) :
    SettlesOnly cur incoming (.accept (if incoming.volatileItemsComplete then incoming
      else mergeRuntimeOverlay cur incoming)) := by
  refine ⟨?_, fun ha => h.trans ha⟩
  split_ifs
  · exact .refl _
  · exact speaksFor_mergeRuntimeOverlay _ _

theorem applySameGeneration_settlesOnly (cur incoming : RuntimeOverlaySnapshot)
    (c i : RuntimeAuthority) : SettlesOnly cur incoming (applySameGeneration cur incoming c i) := by
  unfold applySameGeneration
  cases hca : cur.hasActiveTurn <;> cases hia : incoming.hasActiveTurn
  case false.true => simp [SettlesOnly, hca]
  case true.false => simp [SettlesOnly, SpeaksFor, hia]
  all_goals
    have hsame : cur.hasActiveTurn = incoming.hasActiveTurn := hca.trans hia.symm
    have hkeep : SettlesOnly cur incoming .keep := fun ha => hsame.symm.trans ha
    have hrev := applySameRevision_settlesOnly hsame
    simp only [Bool.not_false, Bool.not_true, Bool.and_false, Bool.and_true, Bool.false_eq_true,
      if_false]
    by_cases hepoch : truthyDiffer i.sourceEpoch c.sourceEpoch = true
    · rw [if_pos hepoch]
      exact hkeep
    · rw [if_neg hepoch]
      cases i.sourceRevision with
      | none => exact hrev
      | some ir =>
        cases c.sourceRevision with
        | none => exact hrev
        | some cr =>
          by_cases hlt : ir < cr
          · simpa only [if_pos hlt] using hkeep
          · by_cases hgt : cr < ir
            · simpa only [if_neg hlt, if_pos hgt] using newerRevision_settlesOnly hsame
            · simpa only [if_neg hlt, if_neg hgt] using hrev

section

variable {cur incoming : RuntimeOverlaySnapshot} {c i : RuntimeAuthority}

section

variable (hc : runtimeAuthorityV1 cur = some c)

include hc

theorem maybeApplyRuntime_of_authority : maybeApplyRuntime (some cur) (some incoming) =
      (applyAuthoritativeRuntime (some cur) (dropTransientNotices incoming)).apply (some cur) := by
  simp [maybeApplyRuntime, decideRuntime, hc]

theorem maybeApplyRuntime_keeps_authority
    (h : ∀ i, runtimeAuthorityV1 incoming = some i → i.fencingToken < c.fencingToken) :
    maybeApplyRuntime (some cur) (some incoming) = some cur := by
  rw [maybeApplyRuntime_of_authority hc]
  unfold applyAuthoritativeRuntime
  rw [runtimeAuthorityV1_dropTransientNotices]
  cases hi : runtimeAuthorityV1 incoming with
  | none => rfl
  | some i =>
    have hlt := h i hi
    simp only [hc]
    rw [if_pos (by omega), RuntimeDecision.of, if_neg (by simpa using le_of_lt hlt),
      RuntimeDecision.apply]

theorem maybeApplyRuntime_higher_token (hi : runtimeAuthorityV1 incoming = some i)
    (h : c.fencingToken < i.fencingToken) :
    maybeApplyRuntime (some cur) (some incoming) = some (dropTransientNotices incoming) := by
  rw [maybeApplyRuntime_of_authority hc]
  simp only [applyAuthoritativeRuntime, runtimeAuthorityV1_dropTransientNotices, hi, hc]
  rw [if_pos (by omega), RuntimeDecision.of, if_pos (by simpa using h), RuntimeDecision.apply]

theorem maybeApplyRuntime_same_generation (hi : runtimeAuthorityV1 incoming = some i)
    (ht : i.fencingToken = c.fencingToken)
    (hid : i.directRequestId = c.directRequestId ∧ i.turnId = c.turnId) :
    ∃ r a, maybeApplyRuntime (some cur) (some incoming) = some r ∧ runtimeAuthorityV1 r = some a ∧
      (a = c ∨ a = i) ∧ r.hasActiveTurn = (cur.hasActiveTurn && incoming.hasActiveTurn) := by
  rw [maybeApplyRuntime_of_authority hc]
  simp only [applyAuthoritativeRuntime, runtimeAuthorityV1_dropTransientNotices, hi, hc]
  rw [if_neg (by simp [ht]), if_neg (by simp [hid])]
  have hs := applySameGeneration_settlesOnly cur (dropTransientNotices incoming) c i
  cases hd : applySameGeneration cur (dropTransientNotices incoming) c i with
  | keep =>
    rw [hd, SettlesOnly, hasActiveTurn_dropTransientNotices] at hs
    refine ⟨cur, c, rfl, hc, .inl rfl, ?_⟩
    cases hca : cur.hasActiveTurn <;> simp_all
  | accept r =>
    rw [hd, SettlesOnly, SpeaksFor, runtimeAuthorityV1_dropTransientNotices,
      hasActiveTurn_dropTransientNotices] at hs
    refine ⟨r, i, rfl, hs.1.1.trans hi, .inr rfl, ?_⟩
    cases hia : incoming.hasActiveTurn <;> simp_all

end

variable {current : Option RuntimeOverlaySnapshot}

theorem maybeApplyRuntime_first_authority (hc : current.bind runtimeAuthorityV1 = none)
    (hi : runtimeAuthorityV1 incoming = some i) :
    maybeApplyRuntime current (some incoming) = some (dropTransientNotices incoming) := by
  cases current with
  | none =>
      simp [maybeApplyRuntime, decideRuntime, applyAuthoritativeRuntime, RuntimeDecision.apply, hi]
  | some cur =>
    have hcur : runtimeAuthorityV1 cur = none := hc
    simp [maybeApplyRuntime, decideRuntime, applyAuthoritativeRuntime, RuntimeDecision.apply, hi,
      hcur]

theorem maybeApplyRuntime_legacy (hc : current.bind runtimeAuthorityV1 = none)
    (hi : runtimeAuthorityV1 incoming = none) :
    (maybeApplyRuntime current (some incoming)).bind runtimeAuthorityV1 = none := by
  have hdrop : runtimeAuthorityV1 (dropTransientNotices incoming) = none := by simpa using hi
  have hrun : maybeApplyRuntime current (some incoming) =
      (applyLegacyRuntime current (dropTransientNotices incoming)).apply current := by
    simp [maybeApplyRuntime, decideRuntime, hdrop, hc]
  rw [hrun]
  cases current with
  | none => simpa [applyLegacyRuntime, RuntimeDecision.apply] using hi
  | some cur =>
    have hcur : runtimeAuthorityV1 cur = none := hc
    simp only [applyLegacyRuntime, RuntimeDecision.of]
    split_ifs <;> simp [RuntimeDecision.apply, hcur, hi]

end

/-- The held overlay carries the greatest token delivered, and its turn has ended exactly
when an ended overlay of that token was delivered. -/
structure Leads (seen : List RuntimeOverlaySnapshot) (held : RuntimeOverlaySnapshot)
    (a : RuntimeAuthority) : Prop where
  authority : runtimeAuthorityV1 held = some a
  greatest : ∀ o ∈ seen, ∀ b, runtimeAuthorityV1 o = some b → b.fencingToken ≤ a.fencingToken
  delivered : ∃ o ∈ seen, runtimeAuthorityV1 o = some a
  ended : held.hasActiveTurn = false ↔ DeliveredToken seen a.fencingToken false

variable {seen : List RuntimeOverlaySnapshot} {o : RuntimeOverlaySnapshot}

theorem deliveredToken_append {token : Int} {active : Bool} :
    DeliveredToken (seen ++ [o]) token active ↔ DeliveredToken seen token active ∨
      ∃ a, runtimeAuthorityV1 o = some a ∧ a.fencingToken = token ∧ o.hasActiveTurn = active := by
  constructor
  · rintro ⟨x, hx, h⟩
    rcases mem_append.mp hx with hx | hx
    · exact .inl ⟨x, hx, h⟩
    · obtain rfl := mem_singleton.mp hx
      exact .inr h
  · rintro (⟨x, hx, h⟩ | h)
    · exact ⟨x, mem_append_left _ hx, h⟩
    · exact ⟨o, by simp, h⟩

theorem not_deliveredToken_of_lt {token : Int} {active : Bool}
    (h : ∀ o ∈ seen, ∀ b, runtimeAuthorityV1 o = some b → b.fencingToken < token) :
    ¬ DeliveredToken seen token active := by
  rintro ⟨o, ho, b, hb, rfl, -⟩
  exact lt_irrefl _ (h o ho b hb)

theorem leads_new {i : RuntimeAuthority} (hi : runtimeAuthorityV1 o = some i)
    (hbelow : ∀ x ∈ seen, ∀ b, runtimeAuthorityV1 x = some b → b.fencingToken < i.fencingToken) :
    Leads (seen ++ [o]) (dropTransientNotices o) i where
  authority := by simpa using hi
  greatest x hx b hb := by
    rcases mem_append.mp hx with hx | hx
    · exact le_of_lt (hbelow x hx b hb)
    · obtain rfl := mem_singleton.mp hx
      rw [hi] at hb
      cases hb
      exact le_refl _
  delivered := ⟨o, by simp, hi⟩
  ended := by
    rw [deliveredToken_append, hasActiveTurn_dropTransientNotices]
    simp [not_deliveredToken_of_lt hbelow, hi]

theorem leads_step {held : RuntimeOverlaySnapshot} {c : RuntimeAuthority} (h : Leads seen held c)
    (hid : TokensIdentify (seen ++ [o])) :
    ∃ held' a, maybeApplyRuntime (some held) (some o) = some held' ∧
      Leads (seen ++ [o]) held' a := by
  have hkeep (hlow : ∀ i, runtimeAuthorityV1 o = some i → i.fencingToken < c.fencingToken) :
      Leads (seen ++ [o]) held c := by
    refine ⟨h.authority, fun x hx b hb => ?_, ?_, ?_⟩
    · rcases mem_append.mp hx with hx | hx
      · exact h.greatest x hx b hb
      · obtain rfl := mem_singleton.mp hx
        exact le_of_lt (hlow b hb)
    · obtain ⟨x, hx, hxa⟩ := h.delivered
      exact ⟨x, mem_append_left _ hx, hxa⟩
    · rw [deliveredToken_append, h.ended]
      refine ⟨.inl, fun hd => hd.resolve_right ?_⟩
      rintro ⟨a, ha, htok, -⟩
      exact absurd htok (ne_of_lt (hlow a ha))
  cases hi : runtimeAuthorityV1 o with
  | none =>
    have hlow : ∀ i, runtimeAuthorityV1 o = some i → i.fencingToken < c.fencingToken := by simp [hi]
    exact ⟨held, c, maybeApplyRuntime_keeps_authority h.authority hlow, hkeep hlow⟩
  | some i =>
    rcases lt_trichotomy i.fencingToken c.fencingToken with hlt | heq | hgt
    · have hlow : ∀ j, runtimeAuthorityV1 o = some j → j.fencingToken < c.fencingToken := by
        intro j hj
        rw [hi] at hj
        cases hj
        exact hlt
      exact ⟨held, c, maybeApplyRuntime_keeps_authority h.authority hlow, hkeep hlow⟩
    · obtain ⟨x, hx, hxc⟩ := h.delivered
      have hsame : i.directRequestId = c.directRequestId ∧ i.turnId = c.turnId :=
        hid o (by simp) x (mem_append_left _ hx) i hi c hxc heq
      obtain ⟨r, a, hr, hra, ha, hact⟩ :=
        maybeApplyRuntime_same_generation h.authority hi heq hsame
      have htok : a.fencingToken = c.fencingToken := by
        rcases ha with rfl | rfl
        · rfl
        · exact heq
      refine ⟨r, a, hr, hra, fun y hy b hb => ?_, ?_, ?_⟩
      · rw [htok]
        rcases mem_append.mp hy with hy | hy
        · exact h.greatest y hy b hb
        · obtain rfl := mem_singleton.mp hy
          rw [hi] at hb
          cases hb
          exact le_of_eq heq
      · rcases ha with rfl | rfl
        · exact ⟨x, mem_append_left _ hx, hxc⟩
        · exact ⟨o, by simp, hi⟩
      · rw [deliveredToken_append, htok, ← h.ended, hact, Bool.and_eq_false_iff]
        simp [hi, heq]
    · refine ⟨_, i, maybeApplyRuntime_higher_token h.authority hi hgt, leads_new hi ?_⟩
      intro x hx b hb
      exact lt_of_le_of_lt (h.greatest x hx b hb) hgt

theorem foldRuntime_append (seen : List RuntimeOverlaySnapshot) (o : RuntimeOverlaySnapshot) :
    foldRuntime (seen ++ [o]) = maybeApplyRuntime (foldRuntime seen) (some o) := by
  simp [foldRuntime]

theorem foldRuntime_leads (hid : TokensIdentify overlays) :
    ((∀ o ∈ overlays, runtimeAuthorityV1 o = none) ∧
      (foldRuntime overlays).bind runtimeAuthorityV1 = none) ∨
    ∃ held a, foldRuntime overlays = some held ∧ Leads overlays held a := by
  induction overlays using reverseRecOn with
  | nil => exact .inl ⟨by simp, rfl⟩
  | append_singleton seen o ih =>
    have hseen : TokensIdentify seen := fun o₁ h₁ o₂ h₂ =>
      hid o₁ (mem_append_left _ h₁) o₂ (mem_append_left _ h₂)
    rw [foldRuntime_append]
    rcases ih hseen with ⟨hall, hnone⟩ | ⟨held, a, hheld, hleads⟩
    · cases hi : runtimeAuthorityV1 o with
      | none =>
        refine .inl ⟨fun x hx => ?_, maybeApplyRuntime_legacy hnone hi⟩
        rcases mem_append.mp hx with hx | hx
        · exact hall x hx
        · obtain rfl := mem_singleton.mp hx
          exact hi
      | some i =>
        refine .inr ⟨_, i, maybeApplyRuntime_first_authority hnone hi, leads_new hi ?_⟩
        intro x hx b hb
        simp [hall x hx] at hb
    · rw [hheld]
      exact .inr (leads_step hleads hid)

/-- Runtime authority converges: the last overlay carries the greatest token delivered and is
inactive exactly when an inactive overlay of that token was delivered, in every order of
the same deliveries; and no legacy or lower-token overlay displaces an authoritative one. -/
theorem foldRuntime_converges (overlays : List RuntimeOverlaySnapshot)
    (hid : TokensIdentify overlays) (hsome : ∃ o ∈ overlays, (runtimeAuthorityV1 o).isSome) :
    (∃ held a, foldRuntime overlays = some held ∧ Leads overlays held a ∧
      ∀ other, other.Perm overlays → ∃ held' a', foldRuntime other = some held' ∧
        runtimeAuthorityV1 held' = some a' ∧ a'.fencingToken = a.fencingToken ∧
        held'.hasActiveTurn = held.hasActiveTurn) ∧
    ∀ cur c incoming, runtimeAuthorityV1 cur = some c →
      (∀ i, runtimeAuthorityV1 incoming = some i → i.fencingToken < c.fencingToken) →
      maybeApplyRuntime (some cur) (some incoming) = some cur := by
  have hlead (l : List RuntimeOverlaySnapshot) (hperm : l.Perm overlays) :
      ∃ held a, foldRuntime l = some held ∧ Leads l held a := by
    have hidl : TokensIdentify l := fun o₁ h₁ o₂ h₂ =>
      hid o₁ (hperm.mem_iff.mp h₁) o₂ (hperm.mem_iff.mp h₂)
    refine (foldRuntime_leads l hidl).resolve_left ?_
    rintro ⟨hall, -⟩
    obtain ⟨o, ho, hs⟩ := hsome
    simp [hall o (hperm.mem_iff.mpr ho)] at hs
  refine ⟨?_, fun cur c incoming hc hlow => maybeApplyRuntime_keeps_authority hc hlow⟩
  obtain ⟨held, a, hheld, hleads⟩ := hlead overlays (.refl _)
  refine ⟨held, a, hheld, hleads, fun other hperm => ?_⟩
  obtain ⟨held', a', hheld', hleads'⟩ := hlead other hperm
  have htok : a'.fencingToken = a.fencingToken := by
    obtain ⟨o, ho, hoa⟩ := hleads.delivered
    obtain ⟨o', ho', hoa'⟩ := hleads'.delivered
    exact le_antisymm (hleads.greatest o' (hperm.mem_iff.mp ho') a' hoa')
      (hleads'.greatest o (hperm.mem_iff.mpr ho) a hoa)
  refine ⟨held', a', hheld', hleads'.authority, htok, ?_⟩
  have hsame : DeliveredToken other a'.fencingToken false ↔
      DeliveredToken overlays a.fencingToken false := by
    simp only [DeliveredToken, hperm.mem_iff, htok]
  have hend := (hleads'.ended.trans hsame).trans hleads.ended.symm
  cases hh : held.hasActiveTurn <;> simp_all

def bareOverlay (authority : Option RuntimeAuthority) (active : Bool) : RuntimeOverlaySnapshot where
  runtimeEpoch := "epoch"
  runtimeRevision := 1
  generatedAt := "2026-01-01T00:00:00Z"
  hasActiveTurn := active
  authority := authority
  volatileItems := []

def generation (token : Int) (turnId : String) : RuntimeAuthority where
  directRequestId := "request:" ++ turnId
  turnId := turnId
  fencingToken := token

/-- A late running frame of the second turn, a legacy frame and a stale frame of the first
turn change nothing once the second turn has ended. -/
theorem foldRuntime_converges_late_frames :
    let overlays := [bareOverlay (some (generation 1 "t1")) true,
      bareOverlay (some (generation 2 "t2")) false, bareOverlay (some (generation 2 "t2")) true,
      bareOverlay none true, bareOverlay (some (generation 1 "t1")) false]
    TokensIdentify overlays ∧ (∃ o ∈ overlays, (runtimeAuthorityV1 o).isSome) ∧
      ∃ held a, foldRuntime overlays = some held ∧ Leads overlays held a := by
  intro overlays
  have hid : TokensIdentify overlays := by
    unfold TokensIdentify
    decide
  have hsome : ∃ o ∈ overlays, (runtimeAuthorityV1 o).isSome := by decide
  obtain ⟨⟨held, a, hheld, hleads, -⟩, -⟩ := foldRuntime_converges overlays hid hsome
  exact ⟨hid, hsome, held, a, hheld, hleads⟩

end Cognis.Client
