import Cognis.ToolClassification.Owner

namespace Cognis.ToolClassification

variable {leaseSeconds : Nat} {s s' : System} {e : Event} {n m : Nat} {c c' d : Claim}
  {id : String} {row : Row} {task : Task}

variable {token now : Nat} {applied : Bool}

theorem Inv.not_lost (h : Inv s) (hclaim : s.claims n = some c) (huses : c.Uses token)
    (hrow : s.table.committed c.classificationId = some row)
    (howned : owned c.fingerprint token row) : c.lost = false := by
  unfold owned at howned
  simp only [Bool.and_eq_true, decide_eq_true_eq] at howned
  obtain ⟨⟨hrunning, -⟩, hlast⟩ := howned
  obtain ⟨t, m, d, hlast', hstamp, hd, -, hlost⟩ := h.running _ row hrow hrunning
  rw [hlast] at hlast'
  cases hlast'
  rw [h.stamps n c hclaim token huses] at hstamp
  cases hstamp
  rw [hclaim] at hd
  cases hd
  exact hlost

theorem rowOk_enqueued (fingerprint : String) (now : Nat) : RowOk (enqueued fingerprint now) where
  attempts_le := Nat.zero_le _
  attempts_lt := by
    intro _
    change 0 < classificationMaxAttempts
    decide
  ready := by
    intro h
    cases h

theorem attempts_lt_of_due (hok : RowOk row) (hdue : due leaseSeconds now row) :
    row.attempts < classificationMaxAttempts := by
  apply hok.attempts_lt
  intro hfailed
  unfold due at hdue
  rw [hfailed] at hdue
  simp at hdue

theorem RowOk.claimed (hok : RowOk row) (hdue : due leaseSeconds now row) :
    RowOk (claimed now row) := by
  have hlt : row.attempts < classificationMaxAttempts := attempts_lt_of_due hok hdue
  refine ⟨hok.attempts_le, fun _ => hlt, ?_⟩
  intro h
  cases h

theorem running_of_owned {fingerprint : String} (h : owned fingerprint token row) :
    row.status = .running ∧ row.fingerprint = fingerprint ∧ row.lastAttemptAt = some token := by
  unfold owned at h
  simp only [Bool.and_eq_true, decide_eq_true_eq] at h
  exact ⟨h.1.1, h.1.2, h.2⟩

theorem RowOk.settled {fingerprint : String} {attempts : Nat} (outcome : Outcome) (hok : RowOk row)
    (howned : owned fingerprint token row) (hattempts : attempts < classificationMaxAttempts) :
    RowOk (settled fingerprint attempts outcome row) := by
  obtain ⟨hrunning, hfingerprint, -⟩ := running_of_owned howned
  have hlt : row.attempts < classificationMaxAttempts := by
    apply hok.attempts_lt
    rw [hrunning]
    intro h
    cases h
  cases outcome with
  | classified =>
    refine ⟨hok.attempts_le, fun _ => hlt, ?_⟩
    intro _
    exact congrArg some hfingerprint.symm
  | rejected =>
    refine ⟨hattempts, ?_, ?_⟩
    · intro hstatus
      unfold ToolClassification.settled at hstatus ⊢
      dsimp only at hstatus ⊢
      by_contra hge
      rw [if_pos (by simpa using Nat.le_of_not_lt hge)] at hstatus
      exact hstatus rfl
    · intro hready
      unfold ToolClassification.settled at hready
      dsimp only at hready
      split_ifs at hready

theorem settled_status (fingerprint : String) (attempts : Nat) (outcome : Outcome) (row : Row) :
    (settled fingerprint attempts outcome row).status ≠ .running := by
  cases outcome with
  | classified =>
    intro h
    cases h
  | rejected =>
    intro h
    unfold settled at h
    dsimp only at h
    split_ifs at h

/-- A claim changes, but for its row, its stage and its loss, and what its transactions have written
stays written. -/
theorem Inv.setClaim_kept (h : Inv s) (hclaim : s.claims n = some c)
    (hid : c'.classificationId = c.classificationId) (hattempts : c'.attempts = c.attempts)
    (hnow : c'.now = c.now) (hstage : c'.stage = c.stage) (hlost : c'.lost = c.lost)
    (hstamps : ∀ t, c'.Uses t → s.stamp c.classificationId t = some n)
    (hrenewal : ∀ row, s.table.held c.classificationId = some (.renewal n, row) → ∀ now,
      c.renewal = .updated now true ∨ c.renewal = .noted now true →
      c'.renewal = .updated now true ∨ c'.renewal = .noted now true)
    (hsettlement : ∀ row, s.table.held c.classificationId = some (.settlement n, row) →
      c.settlement = .updated true → c'.settlement = .updated true) :
    Inv (s.setClaim n c') := by
  apply h.setClaim_same hclaim hid hattempts hstage hlost hstamps
  intro id task row hrow hnumber
  have hbefore : HeldBy s id row task := h.held id task row hrow
  cases task with
  | claim m =>
    obtain rfl : m = n := hnumber
    obtain ⟨d, hd, hdid, hds, hrunning, hlast⟩ := hbefore
    rw [hclaim] at hd
    cases hd
    exact ⟨c', setClaim_self, hid.trans hdid, hstage.trans hds, hrunning, hnow ▸ hlast⟩
  | renewal m =>
    obtain rfl : m = n := hnumber
    obtain ⟨d, now, hd, hdid, hds, hdl, hdr, hrest⟩ := hbefore
    rw [hclaim] at hd
    cases hd
    rw [← hdid] at hrow
    exact ⟨c', now, setClaim_self, hid.trans hdid, hstage.trans hds, hlost.trans hdl,
      hrenewal row hrow now hdr, hrest⟩
  | settlement m =>
    obtain rfl : m = n := hnumber
    obtain ⟨d, hd, hdid, hds, hdl, hdr, hrest⟩ := hbefore
    rw [hclaim] at hd
    cases hd
    rw [← hdid] at hrow
    exact ⟨c', setClaim_self, hid.trans hdid, hstage.trans hds, hlost.trans hdl,
      hsettlement row hrow hdr, hrest⟩

theorem not_held_finish (row : Row) :
    (s.finish task id applied).table.held id ≠ some (task, row) := by
  intro h
  exact (LockedTable.finish_held.mp h).2 ⟨rfl, rfl⟩

section

variable (h : Inv s) (hclaim : s.claims n = some c)

include h hclaim

theorem Inv.setRenewal {renewal : Renewal}
    (htoken : c.stage = .owned → s.stamp c.classificationId token = some n)
    (hstamps : ∀ t, renewal.Uses t → s.stamp c.classificationId t = some n)
    (hheld : ∀ row, s.table.held c.classificationId = some (.renewal n, row) →
      ∀ now, c.renewal = .updated now true ∨ c.renewal = .noted now true →
        renewal = .updated now true ∨ renewal = .noted now true) :
    Inv (s.setClaim n { c with renewal := renewal, claimToken := token }) := by
  refine h.setClaim_kept hclaim rfl rfl rfl rfl rfl ?_ hheld (fun _ _ hupdated => hupdated)
  intro t ht
  cases ht with
  | claim hu => exact h.stamps n c hclaim _ (.claim hu)
  | token hu => exact htoken hu
  | renewal t hu => exact hstamps _ hu
  | settlement token outcome hu => exact h.stamps n c hclaim _ (.settlement _ outcome hu)

variable {settlement : Settlement}

theorem Inv.setSettlement
    (hstamps : ∀ token outcome, settlement = .sent token outcome →
      s.stamp c.classificationId token = some n)
    (hheld : ∀ row, s.table.held c.classificationId = some (.settlement n, row) →
      c.settlement = .updated true → settlement = .updated true) :
    Inv (s.setClaim n { c with settlement := settlement }) := by
  refine h.setClaim_kept hclaim rfl rfl rfl rfl rfl ?_ (fun _ _ _ hupdated => hupdated) hheld
  intro t ht
  cases ht with
  | claim hu => exact h.stamps n c hclaim _ (.claim hu)
  | token hu => exact h.stamps n c hclaim _ (.token hu)
  | renewal t hu => exact h.stamps n c hclaim _ (.renewal _ hu)
  | settlement token outcome hu => exact hstamps _ outcome hu

theorem Inv.finish_renewal (applied : Bool) :
    Inv ((s.finish (.renewal n) c.classificationId applied).setClaim n
      { c with renewal := .idle }) := by
  have hfinish : Inv (s.finish (.renewal n) c.classificationId applied) := by
    apply h.finish
    intro _ row hrow _
    obtain ⟨d, now, hd, hid, -, hlost, hrenewal, -, hlast⟩ := h.held _ _ row hrow
    rw [hclaim] at hd
    cases hd
    have huses : c.renewal.Uses now := by
      rcases hrenewal with hupdated | hnoted
      · rw [hupdated]
        exact .updated now
      · rw [hnoted]
        exact .noted now
    exact ⟨now, n, c, hlast, h.stamps n c hclaim now (.renewal now huses), hclaim, rfl, hlost⟩
  apply hfinish.setRenewal hclaim
  · intro hu
    exact h.stamps n c hclaim _ (.token hu)
  · intro t ht
    cases ht
  · intro row hrow
    exact absurd hrow (not_held_finish row)

theorem Inv.finish_settlement (applied : Bool)
    (hsettlement : ∀ token outcome, settlement ≠ .sent token outcome) :
    Inv ((s.finish (.settlement n) c.classificationId applied).setClaim n
      { c with settlement := settlement }) := by
  have hfinish : Inv (s.finish (.settlement n) c.classificationId applied) := by
    apply h.finish
    intro _ row hrow hrunning
    obtain ⟨d, -, -, -, -, -, hnot⟩ := h.held _ _ row hrow
    exact absurd hrunning hnot
  apply hfinish.setSettlement hclaim
  · intro token outcome hsent
    exact absurd hsent (hsettlement token outcome)
  · intro row hrow
    exact absurd hrow (not_held_finish row)

theorem Inv.not_held (hstage : c.stage ≠ .owned)
    (hnot : c.stage = .updated → ∀ row, s.table.held c.classificationId ≠ some (.claim n, row)) :
    ∀ id task row, s.table.held id = some (task, row) → task.number ≠ n := by
  intro id task row hrow hnumber
  have hbefore : HeldBy s id row task := h.held id task row hrow
  cases task with
  | claim m =>
    obtain rfl : m = n := hnumber
    obtain ⟨d, hd, hdid, hds, -⟩ := hbefore
    rw [hclaim] at hd
    cases hd
    rw [← hdid] at hrow
    exact hnot hds row hrow
  | renewal m =>
    obtain rfl : m = n := hnumber
    obtain ⟨d, now, hd, -, hds, -⟩ := hbefore
    rw [hclaim] at hd
    cases hd
    exact hstage hds
  | settlement m =>
    obtain rfl : m = n := hnumber
    obtain ⟨d, hd, -, hds, -⟩ := hbefore
    rw [hclaim] at hd
    cases hd
    exact hstage hds

theorem Inv.setStage {stage : Stage} (hnot : stage ≠ .owned ∧ stage ≠ .updated)
    (hheld : ∀ id task row, s.table.held id = some (task, row) → task.number ≠ n) :
    Inv (s.setClaim n { c with stage := stage }) := by
  apply h.setClaim
  · intro d hd
    rw [hclaim] at hd
    cases hd
    exact ⟨rfl, fun hlost => hlost⟩
  · exact h.attempts n c hclaim
  · intro t ht
    cases ht with
    | claim hu => exact absurd hu hnot.2
    | token hu => exact absurd hu hnot.1
    | renewal t hu => exact h.stamps n c hclaim _ (.renewal _ hu)
    | settlement token outcome hu => exact h.stamps n c hclaim _ (.settlement _ outcome hu)
  · intro id task row hrow hnumber
    exact absurd hnumber (hheld id task row hrow)
  · intro howned
    exact absurd howned hnot.1

end

def Claim.taken (c : Claim) : Claim := { c with stage := .owned, lost := false }

def System.commitClaim (s : System) (n : Nat) (c : Claim) : System :=
  ((s.setClaim n { c with lost := false }).finish (.claim n) c.classificationId true).loseOthers
    c.classificationId (some n)

theorem commitClaim_self : (s.commitClaim n c).claims n = some { c with lost := false } :=
  loseOthers_kept setClaim_self fun _ => rfl

theorem commitClaim_free (hbegun : Begun s) (hclaim : s.claims n = some c)
    (hstage : c.stage = .updated) : (s.commitClaim n c).table.held c.classificationId = none := by
  obtain ⟨row, hrow⟩ := hbegun.held n c hclaim hstage
  cases hheld : (s.commitClaim n c).table.held c.classificationId with
  | none => rfl
  | some =>
    obtain ⟨hbefore, hnot⟩ := LockedTable.finish_held.mp hheld
    change s.table.held c.classificationId = _ at hbefore
    rw [hrow] at hbefore
    cases hbefore
    exact absurd ⟨rfl, rfl⟩ hnot

section

variable (h : Inv s) (hbegun : Begun s) (hclaim : s.claims n = some c) (hstage : c.stage = .updated)

include h hbegun hclaim hstage

theorem Inv.commitClaim : Inv (s.commitClaim n c) := by
  obtain ⟨row, hrow⟩ := hbegun.held n c hclaim hstage
  obtain ⟨d, hd, -, -, hrunning, hlast⟩ := h.held _ _ row hrow
  rw [hclaim] at hd
  cases hd
  have hstamp : s.stamp c.classificationId c.now = some n := h.stamps n c hclaim _ (.claim hstage)
  have hset : Inv (s.setClaim n { c with lost := false }) := by
    apply h.setClaim
    · intro d hd
      rw [hclaim] at hd
      cases hd
      exact ⟨rfl, fun _ => rfl⟩
    · exact h.attempts n c hclaim
    · intro t ht
      exact h.stamps n c hclaim t ht.of_lost
    · intro id task row' hrow' hnumber
      have hbefore : HeldBy s id row' task := h.held id task row' hrow'
      cases task with
      | claim m =>
        obtain rfl : m = n := hnumber
        obtain ⟨d, hd, hrest⟩ := hbefore
        rw [hclaim] at hd
        cases hd
        exact ⟨_, setClaim_self, hrest⟩
      | renewal m =>
        obtain rfl : m = n := hnumber
        obtain ⟨d, now, hd, -, hds, -⟩ := hbefore
        rw [hclaim] at hd
        cases hd
        rw [hstage] at hds
        cases hds
      | settlement m =>
        obtain rfl : m = n := hnumber
        obtain ⟨d, hd, -, hds, -⟩ := hbefore
        rw [hclaim] at hd
        cases hd
        rw [hstage] at hds
        cases hds
    · intro howned
      rw [hstage] at howned
      cases howned
  have hfinish : Inv ((s.setClaim n { c with lost := false }).finish (.claim n) c.classificationId
      true) := by
    apply hset.finish
    intro _ row' hrow' _
    change s.table.held c.classificationId = _ at hrow'
    rw [hrow] at hrow'
    cases hrow'
    exact ⟨c.now, n, _, hlast, hstamp, setClaim_self, rfl, rfl⟩
  apply hfinish.loseOthers (commitClaim_free hbegun hclaim hstage)
  intro row' hrow' _
  have hcommitted := LockedTable.finish_applied hrow
  change (s.table.finish _ _ _).committed c.classificationId = _ at hrow'
  rw [hcommitted] at hrow'
  cases hrow'
  exact ⟨c.now, n, hlast, hstamp, rfl⟩

theorem Inv.taken : Inv ((s.commitClaim n c).setClaim n c.taken) := by
  have hcommit : Inv (s.commitClaim n c) := h.commitClaim hbegun hclaim hstage
  have hearly := hbegun.early n c hclaim (.inr hstage)
  apply hcommit.setClaim
  · intro d hd
    rw [commitClaim_self] at hd
    cases hd
    exact ⟨rfl, fun _ => rfl⟩
  · exact h.attempts n c hclaim
  · intro t ht
    have hstamp : s.stamp c.classificationId c.now = some n :=
      h.stamps n c hclaim _ (.claim hstage)
    cases ht with
    | claim hu => cases hu
    | token hu =>
      change s.stamp c.classificationId c.claimToken = some n
      rw [hearly.1]
      exact hstamp
    | renewal t hu => exact h.stamps n c hclaim _ (.renewal _ hu)
    | settlement token outcome hu => exact h.stamps n c hclaim _ (.settlement _ outcome hu)
  · intro id task row hrow hnumber
    have hne : c.stage ≠ .owned := by
      rw [hstage]
      decide
    refine absurd hnumber (hcommit.not_held commitClaim_self hne ?_ id task row hrow)
    intro _ row' hheld
    rw [commitClaim_free hbegun hclaim hstage] at hheld
    cases hheld
  · intro _ _ m d hd hm _ hid
    obtain ⟨c0, hc0, hdc, hkept, -⟩ := loseOthers_cases hd
    by_contra hlost
    obtain ⟨heq, hnumber⟩ := hkept (Bool.eq_false_iff.mpr hlost)
    rw [heq] at hid
    exact hm (Option.some.inj (hnumber hid)).symm

theorem Inv.released :
    Inv ((s.commitClaim n c).setClaim n { c with stage := .gone, lost := false }) := by
  have hne : c.stage ≠ .owned := by
    rw [hstage]
    decide
  have hcommit : Inv (s.commitClaim n c) := h.commitClaim hbegun hclaim hstage
  apply hcommit.setStage commitClaim_self (by decide)
  apply hcommit.not_held commitClaim_self hne
  intro _ row' hheld
  rw [commitClaim_free hbegun hclaim hstage] at hheld
  cases hheld

end

theorem Inv.rollBack (h : Inv s) (task : Task) (id : String) : Inv (s.finish task id false) := by
  apply h.finish
  intro hfalse
  cases hfalse

def System.rollBackAll (s : System) (n : Nat) (id : String) : System :=
  ((s.finish (.claim n) id false).finish (.renewal n) id false).finish (.settlement n) id false

theorem held_rollBackAll {id' : String}
    (h : (s.rollBackAll n id).table.held id' = some (task, row)) :
    s.table.held id' = some (task, row) ∧ ¬ (id' = id ∧ task.number = n) := by
  obtain ⟨hrenewal, hnotSettlement⟩ := LockedTable.finish_held.mp h
  obtain ⟨hclaim, hnotRenewal⟩ := LockedTable.finish_held.mp hrenewal
  obtain ⟨hbefore, hnotClaim⟩ := LockedTable.finish_held.mp hclaim
  refine ⟨hbefore, ?_⟩
  rintro ⟨hid, hnumber⟩
  cases task with
  | claim m => exact hnotClaim ⟨hid, congrArg Task.claim hnumber⟩
  | renewal m => exact hnotRenewal ⟨hid, congrArg Task.renewal hnumber⟩
  | settlement m => exact hnotSettlement ⟨hid, congrArg Task.settlement hnumber⟩

theorem Inv.crash (h : Inv s) (hclaim : s.claims n = some c) : Inv (crash s n c) := by
  have hall :
    Inv (s.rollBackAll n c.classificationId) := ((h.rollBack _ _).rollBack _ _).rollBack _ _
  apply Inv.setBatch
  apply hall.setClaim
  · intro d hd
    change s.claims n = some d at hd
    rw [hclaim] at hd
    cases hd
    exact ⟨rfl, fun hlost => hlost⟩
  · exact h.attempts n c hclaim
  · intro t ht
    cases ht with
    | claim hu | token hu | renewal t hu | settlement token outcome hu => cases hu
  · intro id task row hrow hnumber
    obtain ⟨hbefore, hnot⟩ := held_rollBackAll hrow
    obtain ⟨d, hd, hid⟩ := (h.held id task row hbefore).exists_claim
    rw [hnumber, hclaim] at hd
    cases hd
    exact absurd ⟨hid.symm, hnumber⟩ hnot
  · intro howned
    cases howned

theorem Inv.step (h : Inv s) (hbegun : Begun s) (hmove : Moves leaseSeconds s e s') : Inv s' := by
  cases hmove with
  | write id fingerprint now hfree =>
    apply (h.put (rowOk_enqueued fingerprint now) (by intro hrun; cases hrun)).loseOthers hfree
    intro row hrow hrunning
    change Function.update s.table.committed id _ id = _ at hrow
    rw [Function.update_self] at hrow
    cases hrow
    cases hrunning
  | select number batch id now row hnew hrow hdue =>
    apply h.setClaim
    · intro c hc
      rw [hnew] at hc
      cases hc
    · exact attempts_lt_of_due (h.rows id row (.inl hrow)) hdue
    · intro t ht
      cases ht with
      | claim h | token h | renewal t h | settlement token outcome h => cases h
    · intro id' task row' hheld hnumber
      obtain ⟨c, hc, -⟩ := (h.held id' task row' hheld).exists_claim
      rw [hnumber, hnew] at hc
      cases hc
    · intro hstage
      cases hstage
  | claimHit number c row hclaim hstage hfree hrow hdue hfresh =>
    have hstamped : Inv (s.setStamp c.classificationId c.now number) := h.setStamp hfresh
    have hne : c.stage ≠ .owned := by
      rw [hstage]
      decide
    have hset : Inv ((s.setStamp c.classificationId c.now number).setClaim number
        { c with stage := .updated }) := by
      apply hstamped.setClaim
      · intro d hd
        change s.claims number = some d at hd
        rw [hclaim] at hd
        cases hd
        exact ⟨rfl, fun hlost => hlost⟩
      · exact h.attempts number c hclaim
      · intro t ht
        cases ht with
        | claim hu => exact Inv.stamp_self c.now
        | token hu => cases hu
        | renewal t hu => exact hstamped.stamps number c hclaim _ (.renewal _ hu)
        | settlement token outcome hu =>
          exact hstamped.stamps number c hclaim _ (.settlement _ outcome hu)
      · intro id task row' hheld hnumber
        refine absurd hnumber (h.not_held hclaim hne ?_ id task row' hheld)
        intro hupdated
        rw [hstage] at hupdated
        cases hupdated
      · intro howned
        cases howned
    exact hset.hold ((h.rows _ row (.inl hrow)).claimed hdue)
      ⟨_, setClaim_self, rfl, rfl, rfl, rfl⟩
  | claimSkip e number c hclaim hstage =>
    have hne : c.stage ≠ .owned := by
      rw [hstage]
      decide
    apply h.setStage hclaim (by decide)
    apply h.not_held hclaim hne
    intro hupdated
    rw [hstage] at hupdated
    cases hupdated
  | claimApplied number c ok hclaim hstage =>
    cases ok with
    | true => exact h.taken hbegun hclaim hstage
    | false => exact (h.released hbegun hclaim hstage).setBatch _ _
  | claimRolledBack number c hclaim hstage =>
    have hne : c.stage ≠ .owned := by
      rw [hstage]
      decide
    have hfinish : Inv (s.finish (.claim number) c.classificationId false) := by
      apply h.finish
      intro hfalse
      cases hfalse
    apply Inv.setBatch
    apply hfinish.setStage hclaim (by decide)
    apply hfinish.not_held hclaim hne
    intro _ row hrow
    exact not_held_finish row hrow
  | renewSend number now c hclaim hstage hidle =>
    have htoken : s.stamp c.classificationId c.claimToken = some number :=
      h.stamps number c hclaim _ (.token hstage)
    apply h.setRenewal hclaim (fun _ => htoken)
    · intro t ht
      cases ht
      exact htoken
    · intro row _ now' hupdated
      rw [hidle] at hupdated
      rcases hupdated with hfalse | hfalse
      · cases hfalse
      · cases hfalse
  | renewHit number c now token row hclaim hstage hsent hfree hrow howned hfresh =>
    have huses : c.Uses token := .renewal _ (hsent ▸ .sent now token)
    have hlost : c.lost = false := h.not_lost hclaim huses hrow howned
    have hrowOk : RowOk row := h.rows _ row (.inl hrow)
    have hstamped : Inv (s.setStamp c.classificationId now number) := h.setStamp hfresh
    have hset : Inv ((s.setStamp c.classificationId now number).setClaim number
        { c with renewal := .updated now true }) := by
      apply hstamped.setRenewal hclaim
      · intro hu
        exact hstamped.stamps number c hclaim _ (.token hu)
      · intro t ht
        cases ht
        exact Inv.stamp_self now
      · intro row' hheld
        change s.table.held c.classificationId = _ at hheld
        rw [hfree] at hheld
        cases hheld
    exact hset.hold ⟨hrowOk.attempts_le, hrowOk.attempts_lt, hrowOk.ready⟩
      ⟨_, now, setClaim_self, rfl, hstage, hlost, .inl rfl, (running_of_owned howned).1, rfl⟩
  | renewNone e number c now token hclaim hstage hsent =>
    apply h.setRenewal hclaim
    · intro hu
      exact h.stamps number c hclaim _ (.token hu)
    · intro t ht
      cases ht
    · intro row _ now' hupdated
      rw [hsent] at hupdated
      rcases hupdated with hfalse | hfalse
      · cases hfalse
      · cases hfalse
  | renewNote number c now matched hclaim hstage hupdated =>
    have hnow : matched → s.stamp c.classificationId now = some number := by
      intro hmatched
      rw [hmatched] at hupdated
      exact h.stamps number c hclaim _ (.renewal _ (hupdated ▸ .updated now))
    apply h.setRenewal hclaim
    · intro hu
      split_ifs with hmatched
      · exact hnow hmatched
      · exact h.stamps number c hclaim _ (.token hu)
    · intro t ht
      cases ht
      exact hnow rfl
    · intro row _ now' hbefore
      rw [hupdated] at hbefore
      rcases hbefore with heq | hfalse
      · cases heq
        exact .inr rfl
      · cases hfalse
  | renewEnd number c ok applied hclaim =>
    exact (h.finish_renewal hclaim applied).setBatch _ _
  | renewStop number c applied hclaim => exact h.finish_renewal hclaim applied
  | check => exact h.setBatch _ _
  | settleSend number c outcome hclaim hstage hphase hwaiting =>
    apply h.setSettlement hclaim
    · intro token outcome' hsent
      cases hsent
      exact h.stamps number c hclaim _ (.token hstage)
    · intro row _ hupdated
      rw [hwaiting] at hupdated
      cases hupdated
  | settleHit number c token outcome row hclaim hstage hsent hfree hrow howned =>
    have hlost : c.lost = false := h.not_lost hclaim (.settlement _ outcome hsent) hrow howned
    have hset : Inv (s.setClaim number { c with settlement := .updated true }) := by
      apply h.setSettlement hclaim
      · intro token' outcome' hsent'
        cases hsent'
      · intro row' _ _
        rfl
    exact hset.hold ((h.rows _ row (.inl hrow)).settled outcome howned (h.attempts number c hclaim))
      ⟨_, setClaim_self, rfl, hstage, hlost, rfl, settled_status _ _ _ _⟩
  | settleNone e number c token outcome hclaim hstage hsent =>
    apply h.setSettlement hclaim
    · intro token' outcome' hsent'
      cases hsent'
    · intro row _ hupdated
      rw [hsent] at hupdated
      cases hupdated
  | settleDone number c matched hclaim =>
    apply h.finish_settlement hclaim true
    intro token outcome hsent
    cases hsent
  | settleError number c applied hclaim =>
    apply Inv.setBatch
    apply h.finish_settlement hclaim applied
    intro token outcome hsent
    cases hsent
  | crash number c hclaim => exact h.crash hclaim

section

variable (h : Begun s)

include h

theorem Begun.setClaim (hstage : c.stage ≠ .updated)
    (hearly : c.stage = .selected → c.claimToken = c.now ∧ c.renewal = .idle ∧
      c.settlement = .waiting) :
    Begun (s.setClaim n c) where
  held := by
    intro m d hd hds
    obtain ⟨-, rfl⟩ | ⟨-, hold⟩ := setClaim_cases hd
    · exact absurd hds hstage
    · exact h.held m d hold hds
  early := by
    intro m d hd hds
    obtain ⟨-, rfl⟩ | ⟨-, hold⟩ := setClaim_cases hd
    · exact hearly (hds.resolve_right hstage)
    · exact h.early m d hold hds

theorem Begun.setOwned (hstage : c.stage = .owned) : Begun (s.setClaim n c) := by
  apply h.setClaim
  · rw [hstage]
    decide
  · intro hselected
    rw [hstage] at hselected
    cases hselected

theorem Begun.setBatch (batch : Nat) (b : Batch) : Begun (s.setBatch batch b) :=
  ⟨h.held, h.early⟩

theorem Begun.finish (htask : ∀ n, task ≠ .claim n) : Begun (s.finish task id applied) where
  held := by
    intro m d hd hds
    obtain ⟨row, hrow⟩ := h.held m d hd hds
    refine ⟨row, LockedTable.finish_held.mpr ⟨hrow, ?_⟩⟩
    intro hsame
    exact htask m hsame.2.symm
  early := h.early

theorem Begun.endClaim {c' : Claim} (hstage : c'.stage = .owned ∨ c'.stage = .gone) :
    Begun ((s.finish (.claim n) id applied).setClaim n c') where
  held := by
    intro m d hd hds
    obtain ⟨-, rfl⟩ | ⟨hm, hold⟩ := setClaim_cases hd
    · rcases hstage with howned | hgone
      · rw [howned] at hds
        cases hds
      · rw [hgone] at hds
        cases hds
    · obtain ⟨row, hrow⟩ := h.held m d hold hds
      refine ⟨row, LockedTable.finish_held.mpr ⟨hrow, ?_⟩⟩
      intro hsame
      cases hsame.2
      exact hm rfl
  early := by
    intro m d hd hds
    obtain ⟨-, rfl⟩ | ⟨-, hold⟩ := setClaim_cases hd
    · rcases hstage with howned | hgone
      · rw [howned] at hds
        rcases hds with hfalse | hfalse
        · cases hfalse
        · cases hfalse
      · rw [hgone] at hds
        rcases hds with hfalse | hfalse
        · cases hfalse
        · cases hfalse
    · exact h.early m d hold hds

theorem Begun.hold (hfree : s.table.held id = none) :
    Begun { s with table := s.table.hold task id row } where
  held := by
    intro m d hd hds
    obtain ⟨row', hrow'⟩ := h.held m d hd hds
    have hne : d.classificationId ≠ id := by
      intro heq
      rw [heq, hfree] at hrow'
      cases hrow'
    exact ⟨row', (Function.update_of_ne hne _ _).trans hrow'⟩
  early := h.early

theorem Begun.loseOthers {number : Option Nat} : Begun (s.loseOthers id number) where
  held := by
    intro m d hd hds
    obtain ⟨d0, hd0, hdd, -⟩ := loseOthers_cases hd
    rw [hdd] at hds ⊢
    exact h.held m d0 hd0 hds
  early := by
    intro m d hd hds
    obtain ⟨d0, hd0, hdd, -⟩ := loseOthers_cases hd
    rw [hdd] at hds ⊢
    exact h.early m d0 hd0 hds

theorem Begun.commitClaim {c' : Claim} (hstage : c'.stage = .owned ∨ c'.stage = .gone) :
    Begun ((s.commitClaim n c).setClaim n c') := by
  have hend : Begun (((s.finish (.claim n) c.classificationId true).setClaim n c').loseOthers
      c.classificationId (some n)) := (h.endClaim hstage).loseOthers
  refine ⟨?_, ?_⟩
  · intro m d hd hds
    obtain ⟨rfl, rfl⟩ | ⟨hm, hold⟩ := setClaim_cases hd
    · rcases hstage with howned | hgone
      · rw [howned] at hds
        cases hds
      · rw [hgone] at hds
        cases hds
    · apply hend.held m d ?_ hds
      rw [← hold]
      unfold System.commitClaim System.loseOthers System.finish
      dsimp only
      rw [setClaim_of_ne hm, setClaim_of_ne hm]
  · intro m d hd hds
    obtain ⟨rfl, rfl⟩ | ⟨hm, hold⟩ := setClaim_cases hd
    · rcases hstage with howned | hgone
      · rw [howned] at hds
        rcases hds with hfalse | hfalse
        · cases hfalse
        · cases hfalse
      · rw [hgone] at hds
        rcases hds with hfalse | hfalse
        · cases hfalse
        · cases hfalse
    · apply hend.early m d ?_ hds
      rw [← hold]
      unfold System.commitClaim System.loseOthers System.finish
      dsimp only
      rw [setClaim_of_ne hm, setClaim_of_ne hm]

theorem Begun.claimHit (hclaim : s.claims n = some c) (hstage : c.stage = .selected)
    (hfree : s.table.held c.classificationId = none) :
    Begun { (s.setStamp c.classificationId now n).setClaim n { c with stage := .updated } with
      table := s.table.hold (.claim n) c.classificationId row } where
  held := by
    intro m d hd hds
    obtain ⟨rfl, rfl⟩ | ⟨_, hold⟩ := setClaim_cases hd
    · exact ⟨row, Function.update_self _ _ _⟩
    · exact (h.hold hfree).held m d hold hds
  early := by
    intro m d hd hds
    obtain ⟨rfl, rfl⟩ | ⟨_, hold⟩ := setClaim_cases hd
    · exact h.early m c hclaim (.inl hstage)
    · exact h.early m d hold hds

theorem Begun.step (hmove : Moves leaseSeconds s e s') : Begun s' := by
  cases hmove with
  | write id fingerprint now =>
    have hput : Begun { s with table := s.table.put id (enqueued fingerprint now) } :=
      ⟨h.held, h.early⟩
    exact hput.loseOthers
  | select =>
    apply h.setClaim
    · intro hupdated
      cases hupdated
    · intro _
      exact ⟨rfl, rfl, rfl⟩
  | claimHit number c row hclaim hstage hfree =>
    exact h.claimHit hclaim hstage hfree
  | claimSkip =>
    apply h.setClaim
    · intro hupdated
      cases hupdated
    · intro hselected
      cases hselected
  | claimApplied number c ok =>
    cases ok with
    | true => exact h.commitClaim (.inl rfl)
    | false => exact (h.commitClaim (.inr rfl)).setBatch _ _
  | claimRolledBack => exact (h.endClaim (.inr rfl)).setBatch _ _
  | renewSend number now c hclaim hstage => exact h.setOwned hstage
  | renewHit number c now token row hclaim hstage hsent hfree =>
    have hset : Begun ((s.setStamp c.classificationId now number).setClaim number
        { c with renewal := .updated now true }) :=
      Begun.setOwned ⟨h.held, h.early⟩ hstage
    exact hset.hold hfree
  | renewNone e number c now token hclaim hstage hsent hnot
  | renewNote number c now matched hclaim hstage =>
    exact h.setOwned hstage
  | renewEnd number c ok applied hclaim hstage hok hnoted
  | settleError number c applied hclaim hstage =>
    apply Begun.setBatch
    refine Begun.setOwned ?_ hstage
    apply h.finish
    intro n hfalse
    cases hfalse
  | renewStop number c applied hclaim hstage hover hnoted
  | settleDone number c matched hclaim hstage =>
    refine Begun.setOwned ?_ hstage
    apply h.finish
    intro n hfalse
    cases hfalse
  | check => exact h.setBatch _ _
  | settleSend number c outcome hclaim hstage hphase hwaiting
  | settleNone e number c token outcome hclaim hstage =>
    exact h.setOwned hstage
  | settleHit number c token outcome row hclaim hstage hsent hfree =>
    have hset : Begun (s.setClaim number { c with settlement := .updated true }) :=
      h.setOwned hstage
    exact hset.hold hfree
  | crash number c =>
    have hend : Begun ((s.finish (.claim number) c.classificationId false).setClaim number
        { c with stage := .gone, renewal := .idle, settlement := .waiting }) :=
      h.endClaim (.inr rfl)
    have hall : Begun ((((s.finish (.claim number) c.classificationId false).setClaim number
        { c with stage := .gone, renewal := .idle, settlement := .waiting }).finish
        (.renewal number) c.classificationId false).finish
        (.settlement number) c.classificationId false) :=
      (hend.finish (by intro n hfalse; cases hfalse)).finish (by intro n hfalse; cases hfalse)
    exact hall.setBatch _ _

end

end Cognis.ToolClassification
