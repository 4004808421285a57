import Cognis.ToolClassification.Queue

namespace Cognis.ToolClassification

open Option

/-- The steps of the system, each with its guard. -/
inductive Moves (leaseSeconds : Nat) (s : System) : Event → System → Prop where
  | write (id fingerprint : String) (now : Nat) (hfree : s.table.held id = none) :
      Moves leaseSeconds s (.write id fingerprint now)
        ({ s with table := s.table.put id (enqueued fingerprint now) }.loseOthers id none)
  | select (number batch : Nat) (id : String) (now : Nat) (row : Row)
      (hnew : s.claims number = none) (hrow : s.table.committed id = some row)
      (hdue : due leaseSeconds now row = true) :
      Moves leaseSeconds s (.select number batch id now)
        (s.setClaim number ⟨batch, id, row.fingerprint, row.attempts, now, now, .selected, .idle,
          .waiting, false⟩)
  | claimHit (number : Nat) (c : Claim) (row : Row) (hclaim : s.claims number = some c)
      (hstage : c.stage = .selected) (hfree : s.table.held c.classificationId = none)
      (hrow : s.table.committed c.classificationId = some row)
      (hdue : due leaseSeconds c.now row = true)
      (hfresh : s.stamp c.classificationId c.now = none) :
      Moves leaseSeconds s (.claim number)
        { (s.setStamp c.classificationId c.now number).setClaim number
            { c with stage := .updated } with
          table := s.table.hold (.claim number) c.classificationId (claimed c.now row) }
  | claimSkip (e : Event) (number : Nat) (c : Claim) (hclaim : s.claims number = some c)
      (hstage : c.stage = .selected) :
      Moves leaseSeconds s e (s.setClaim number { c with stage := .skipped })
  | claimApplied (number : Nat) (c : Claim) (ok : Bool) (hclaim : s.claims number = some c)
      (hstage : c.stage = .updated) :
      Moves leaseSeconds s (.claimEnd number ok true)
        (let s := ((s.setClaim number { c with lost := false }).finish (.claim number)
            c.classificationId true).loseOthers c.classificationId (some number)
        if ok then s.setClaim number { c with stage := .owned, lost := false }
        else (s.setClaim number { c with stage := .gone, lost := false }).fail c.batch)
  | claimRolledBack (number : Nat) (c : Claim) (hclaim : s.claims number = some c)
      (hstage : c.stage = .updated) :
      Moves leaseSeconds s (.claimEnd number false false)
        (((s.finish (.claim number) c.classificationId false).setClaim number
          { c with stage := .gone }).fail c.batch)
  | renewSend (number now : Nat) (c : Claim) (hclaim : s.claims number = some c)
      (hstage : c.stage = .owned) (hidle : c.renewal = .idle) :
      Moves leaseSeconds s (.renewSend number now)
        (s.setClaim number { c with renewal := .sent now c.claimToken })
  | renewHit (number : Nat) (c : Claim) (now token : Nat) (row : Row)
      (hclaim : s.claims number = some c) (hstage : c.stage = .owned)
      (hsent : c.renewal = .sent now token) (hfree : s.table.held c.classificationId = none)
      (hrow : s.table.committed c.classificationId = some row)
      (howned : owned c.fingerprint token row = true)
      (hfresh : s.stamp c.classificationId now = none) :
      Moves leaseSeconds s (.renew number)
        { (s.setStamp c.classificationId now number).setClaim number
            { c with renewal := .updated now true } with
          table := s.table.hold (.renewal number) c.classificationId (renewed now row) }
  | renewNone (e : Event) (number : Nat) (c : Claim) (now token : Nat)
      (hclaim : s.claims number = some c) (hstage : c.stage = .owned)
      (hsent : c.renewal = .sent now token)
      (hnot : ∀ row, s.table.committed c.classificationId = some row →
        owned c.fingerprint token row = false) :
      Moves leaseSeconds s e (s.setClaim number { c with renewal := .updated now false })
  | renewNote (number : Nat) (c : Claim) (now : Nat) (matched : Bool)
      (hclaim : s.claims number = some c) (hstage : c.stage = .owned)
      (hupdated : c.renewal = .updated now matched) :
      Moves leaseSeconds s (.renewNote number) (s.setClaim number { c with
            renewal := .noted now matched
            claimToken := if matched then now else c.claimToken })
  | renewEnd (number : Nat) (c : Claim) (ok applied : Bool) (hclaim : s.claims number = some c)
      (hstage : c.stage = .owned) (hok : ok = true → applied = true)
      (hnoted : applied = true → c.renewal.isNoted = true) :
      Moves leaseSeconds s (.renewEnd number ok applied)
        (((s.finish (.renewal number) c.classificationId applied).setClaim number
          { c with renewal := .idle }).setBatch c.batch { s.batches c.batch with
              ownershipLost := (s.batches c.batch).ownershipLost || !(ok && c.renewal.matched)
              failed := (s.batches c.batch).failed || !ok })
  | renewStop (number : Nat) (c : Claim) (applied : Bool) (hclaim : s.claims number = some c)
      (hstage : c.stage = .owned)
      (hover : (s.batches c.batch).phase = .abandoned ∨ ∃ matched, c.settlement = .done matched)
      (hnoted : applied = true → c.renewal.isNoted = true) :
      Moves leaseSeconds s (.renewStop number applied)
        ((s.finish (.renewal number) c.classificationId applied).setClaim number
          { c with renewal := .idle })
  | check (batch : Nat) (hworking : (s.batches batch).phase = .working) :
      Moves leaseSeconds s (.check batch) (s.setBatch batch { s.batches batch with
          phase := if (s.batches batch).ownershipLost then .abandoned else .settling })
  | settleSend (number : Nat) (c : Claim) (outcome : Outcome) (hclaim : s.claims number = some c)
      (hstage : c.stage = .owned) (hphase : (s.batches c.batch).phase = .settling)
      (hwaiting : c.settlement = .waiting) :
      Moves leaseSeconds s (.settleSend number outcome)
        (s.setClaim number { c with settlement := .sent c.claimToken outcome })
  | settleHit (number : Nat) (c : Claim) (token : Nat) (outcome : Outcome) (row : Row)
      (hclaim : s.claims number = some c) (hstage : c.stage = .owned)
      (hsent : c.settlement = .sent token outcome)
      (hfree : s.table.held c.classificationId = none)
      (hrow : s.table.committed c.classificationId = some row)
      (howned : owned c.fingerprint token row = true) :
      Moves leaseSeconds s (.settle number)
        { s.setClaim number { c with settlement := .updated true } with
          table := s.table.hold (.settlement number) c.classificationId
            (settled c.fingerprint c.attempts outcome row) }
  | settleNone (e : Event) (number : Nat) (c : Claim) (token : Nat) (outcome : Outcome)
      (hclaim : s.claims number = some c) (hstage : c.stage = .owned)
      (hsent : c.settlement = .sent token outcome)
      (hnot : ∀ row, s.table.committed c.classificationId = some row →
        owned c.fingerprint token row = false) :
      Moves leaseSeconds s e (s.setClaim number { c with settlement := .updated false })
  | settleDone (number : Nat) (c : Claim) (matched : Bool) (hclaim : s.claims number = some c)
      (hstage : c.stage = .owned) (hupdated : c.settlement = .updated matched) :
      Moves leaseSeconds s (.settleEnd number true true)
        ((s.finish (.settlement number) c.classificationId true).setClaim number
          { c with settlement := .done matched })
  | settleError (number : Nat) (c : Claim) (applied : Bool) (hclaim : s.claims number = some c)
      (hstage : c.stage = .owned)
      (hheld : applied = true → ∃ matched, c.settlement = .updated matched) :
      Moves leaseSeconds s (.settleEnd number false applied)
        (((s.finish (.settlement number) c.classificationId applied).setClaim number
          { c with settlement := .waiting }).setBatch c.batch
            { s.batches c.batch with phase := .working, failed := true })
  | crash (number : Nat) (c : Claim) (hclaim : s.claims number = some c) :
      Moves leaseSeconds s (.crash number) (crash s number c)

variable {leaseSeconds : Nat} {s s' : System} {e : Event}

variable {number : Nat} {c : Claim} {ok applied : Bool}

theorem select_moves {batch now : Nat} {id : String}
    (h : select leaseSeconds s number batch id now = some s') :
    Moves leaseSeconds s (.select number batch id now) s' := by
  unfold select at h
  cases hnew : s.claims number with
  | some c =>
    rw [hnew] at h
    cases h
  | none =>
    cases hrow : s.table.committed id with
    | none =>
      rw [hnew, hrow] at h
      cases h
    | some row =>
      rw [hnew, hrow] at h
      dsimp only at h
      split_ifs at h with hdue
      cases h
      exact .select number batch id now row hnew hrow hdue

section

variable (hclaim : s.claims number = some c)

include hclaim

theorem claimRow_moves (h : claimRow leaseSeconds s number c = some s') :
    Moves leaseSeconds s (.claim number) s' := by
  unfold claimRow at h
  by_cases hselected : c.stage = .selected
  swap
  · rw [if_pos hselected] at h
    cases h
  rw [if_neg (not_not.mpr hselected)] at h
  split at h
  · cases h
  · cases h
    exact .claimSkip _ number c hclaim hselected
  · rename_i table hupdate
    obtain ⟨hfree, row, hrow, hdue, htable⟩ := LockedTable.of_update_true hupdate
    split_ifs at h with hfresh
    cases h
    rw [htable]
    exact .claimHit number c row hclaim hselected hfree hrow hdue hfresh

theorem claimEnd_moves (h : claimEnd s number c ok applied = some s') :
    Moves leaseSeconds s (.claimEnd number ok applied) s' := by
  unfold claimEnd at h
  by_cases hguard : c.stage ≠ .updated ∨ (ok ∧ applied = false)
  · rw [if_pos hguard] at h
    cases h
  rw [if_neg hguard] at h
  rw [not_or, not_not] at hguard
  cases applied with
  | true =>
    have hmove : Moves leaseSeconds s (.claimEnd number ok true) _ :=
      .claimApplied number c ok hclaim hguard.1
    cases ok with
    | true | false =>
      cases h
      exact hmove
  | false =>
    cases ok with
    | true => exact absurd ⟨rfl, rfl⟩ hguard.2
    | false =>
      cases h
      exact .claimRolledBack number c hclaim hguard.1

theorem renewRow_moves (h : renewRow s number c = some s') :
    Moves leaseSeconds s (.renew number) s' := by
  unfold renewRow at h
  split at h
  · rename_i now token hsent
    by_cases hactive : c.stage = .owned
    swap
    · rw [if_pos hactive] at h
      cases h
    rw [if_neg (not_not.mpr hactive)] at h
    split at h
    · cases h
    · rename_i table hupdate
      obtain ⟨-, hnot⟩ := LockedTable.of_update_false hupdate
      cases h
      exact .renewNone _ number c now token hclaim hactive hsent hnot
    · rename_i table hupdate
      obtain ⟨hfree, row, hrow, howned, htable⟩ := LockedTable.of_update_true hupdate
      split_ifs at h with hfresh
      cases h
      rw [htable]
      exact .renewHit number c now token row hclaim hactive hsent hfree hrow howned hfresh
  · cases h

theorem renewMiss_moves (h : renewMiss s number c = some s') :
    Moves leaseSeconds s (.renewMiss number) s' := by
  unfold renewMiss at h
  split at h
  · rename_i now token hsent
    split_ifs at h with hguard
    cases h
    exact .renewNone _ number c now token hclaim hguard.1 hsent (LockedTable.of_misses hguard.2)
  · cases h

theorem renewNote_moves (h : renewNote s number c = some s') :
    Moves leaseSeconds s (.renewNote number) s' := by
  unfold renewNote at h
  split at h
  · rename_i now matched hupdated
    by_cases hactive : c.stage = .owned
    swap
    · rw [if_pos hactive] at h
      cases h
    rw [if_neg (not_not.mpr hactive)] at h
    cases h
    exact .renewNote number c now matched hclaim hactive hupdated
  · cases h

theorem renewEnd_moves (h : renewEnd s number c ok applied = some s') :
    Moves leaseSeconds s (.renewEnd number ok applied) s' := by
  unfold renewEnd at h
  split_ifs at h with hguard
  simp only [not_or, not_and, not_not, Bool.not_eq_false] at hguard
  cases h
  exact .renewEnd number c ok applied hclaim hguard.1 hguard.2.2.1 hguard.2.2.2

theorem renewStop_moves (h : renewStop s number c applied = some s') :
    Moves leaseSeconds s (.renewStop number applied) s' := by
  unfold renewStop at h
  dsimp only at h
  split_ifs at h with hguard
  simp only [not_or, not_and, not_not, Bool.not_eq_false, Bool.or_eq_true, decide_eq_true_eq]
    at hguard
  obtain ⟨hstage, hover, hnoted⟩ := hguard
  cases h
  refine .renewStop number c applied hclaim hstage ?_ hnoted
  rcases hover with hphase | hdone | hdone
  · exact .inl hphase
  · exact .inr ⟨true, hdone⟩
  · exact .inr ⟨false, hdone⟩

theorem settleRow_moves (h : settleRow s number c = some s') :
    Moves leaseSeconds s (.settle number) s' := by
  unfold settleRow at h
  split at h
  · rename_i token outcome hsent
    by_cases hactive : c.stage = .owned
    swap
    · rw [if_pos hactive] at h
      cases h
    rw [if_neg (not_not.mpr hactive)] at h
    split at h
    · cases h
    · rename_i matched table hupdate
      cases h
      cases matched with
      | true =>
        obtain ⟨hfree, row, hrow, howned, htable⟩ := LockedTable.of_update_true hupdate
        rw [htable]
        exact .settleHit number c token outcome row hclaim hactive hsent hfree hrow howned
      | false =>
        obtain ⟨htable, hnot⟩ := LockedTable.of_update_false hupdate
        rw [htable]
        exact .settleNone _ number c token outcome hclaim hactive hsent hnot
  · cases h

theorem settleMiss_moves (h : settleMiss s number c = some s') :
    Moves leaseSeconds s (.settleMiss number) s' := by
  unfold settleMiss at h
  split at h
  · rename_i token outcome hsent
    split_ifs at h with hguard
    cases h
    exact .settleNone _ number c token outcome hclaim hguard.1 hsent
      (LockedTable.of_misses hguard.2)
  · cases h

theorem settleEnd_moves (h : settleEnd s number c ok applied = some s') :
    Moves leaseSeconds s (.settleEnd number ok applied) s' := by
  unfold settleEnd at h
  split at h
  · rename_i matched hupdated
    by_cases hguard : c.stage ≠ .owned ∨ (ok ∧ applied = false)
    · rw [if_pos hguard] at h
      cases h
    rw [if_neg hguard] at h
    rw [not_or, not_not] at hguard
    cases ok with
    | true =>
      cases applied with
      | true =>
        cases h
        exact .settleDone number c matched hclaim hguard.1 hupdated
      | false => exact absurd ⟨rfl, rfl⟩ hguard.2
    | false =>
      cases h
      exact .settleError number c applied hclaim hguard.1 fun _ => ⟨matched, hupdated⟩
  · by_cases hguard : c.stage ≠ .owned ∨ ok ∨ applied
    · rw [if_pos hguard] at h
      cases h
    rw [if_neg hguard] at h
    simp only [not_or, not_not, Bool.not_eq_true] at hguard
    obtain ⟨hstage, hok, happlied⟩ := hguard
    rw [hok, happlied]
    cases h
    refine .settleError number c false hclaim hstage ?_
    intro hfalse
    cases hfalse
  · cases h

end

theorem moves_of_attempt (h : attempt leaseSeconds s e = some s') : Moves leaseSeconds s e s' := by
  cases e with
  | write id fingerprint now =>
    obtain ⟨table, hwrite, hs'⟩ := map_eq_some_iff.mp h
    obtain ⟨hfree, htable⟩ := LockedTable.of_write hwrite
    rw [← hs', htable]
    exact .write id fingerprint now hfree
  | select => exact select_moves h
  | claim =>
    obtain ⟨c, hclaim, hrow⟩ := bind_eq_some_iff.mp h
    exact claimRow_moves hclaim hrow
  | claimMiss number =>
    obtain ⟨c, hclaim, hmiss⟩ := bind_eq_some_iff.mp h
    unfold claimMiss at hmiss
    split_ifs at hmiss with hguard
    cases hmiss
    exact .claimSkip _ number c hclaim hguard.1
  | claimEnd =>
    obtain ⟨c, hclaim, hend⟩ := bind_eq_some_iff.mp h
    exact claimEnd_moves hclaim hend
  | renewSend number now =>
    obtain ⟨c, hclaim, hsend⟩ := bind_eq_some_iff.mp h
    unfold renewSend at hsend
    split_ifs at hsend with hguard
    cases hsend
    exact .renewSend number now c hclaim hguard.1 hguard.2
  | renew =>
    obtain ⟨c, hclaim, hrow⟩ := bind_eq_some_iff.mp h
    exact renewRow_moves hclaim hrow
  | renewMiss =>
    obtain ⟨c, hclaim, hmiss⟩ := bind_eq_some_iff.mp h
    exact renewMiss_moves hclaim hmiss
  | renewNote =>
    obtain ⟨c, hclaim, hnote⟩ := bind_eq_some_iff.mp h
    exact renewNote_moves hclaim hnote
  | renewEnd =>
    obtain ⟨c, hclaim, hend⟩ := bind_eq_some_iff.mp h
    exact renewEnd_moves hclaim hend
  | renewStop =>
    obtain ⟨c, hclaim, hstop⟩ := bind_eq_some_iff.mp h
    exact renewStop_moves hclaim hstop
  | check batch =>
    change check s batch = some s' at h
    unfold check at h
    by_cases hphase : (s.batches batch).phase = .working
    swap
    · rw [if_neg hphase] at h
      cases h
    rw [if_pos hphase] at h
    cases h
    exact .check batch hphase
  | settleSend number outcome =>
    obtain ⟨c, hclaim, hsend⟩ := bind_eq_some_iff.mp h
    unfold settleSend at hsend
    split_ifs at hsend with hguard
    cases hsend
    exact .settleSend number c outcome hclaim hguard.1 hguard.2.1 hguard.2.2
  | settle =>
    obtain ⟨c, hclaim, hrow⟩ := bind_eq_some_iff.mp h
    exact settleRow_moves hclaim hrow
  | settleMiss =>
    obtain ⟨c, hclaim, hmiss⟩ := bind_eq_some_iff.mp h
    exact settleMiss_moves hclaim hmiss
  | settleEnd =>
    obtain ⟨c, hclaim, hend⟩ := bind_eq_some_iff.mp h
    exact settleEnd_moves hclaim hend
  | crash number =>
    obtain ⟨c, hclaim, hs'⟩ := map_eq_some_iff.mp h
    rw [← hs']
    exact .crash number c hclaim

/-- Every event is one of the moves. -/
theorem step_moves (leaseSeconds : Nat) (s : System) (e : Event) :
    step leaseSeconds s e = s ∨ Moves leaseSeconds s e (step leaseSeconds s e) := by
  unfold step
  cases h : attempt leaseSeconds s e with
  | none => exact .inl rfl
  | some s' => exact .inr (moves_of_attempt h)

end Cognis.ToolClassification
