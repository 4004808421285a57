import Cognis.ToolClassification.OwnerSteps

namespace Cognis.ToolClassification

open Bool

variable (t : LockedTable String Row Task)

variable {applied : Bool} {batch now token : Nat} {b : Batch} {outcome : Outcome}
section

def Renewal.isOpen : Renewal → Bool
  | .updated _ _ | .noted _ _ => true
  | _ => false

/-- No renewal is open while a settlement is under way, and a row is claimed with the fingerprint
that was read. -/
def Orderly (s : System) : Event → Prop
  | .settleSend number _ => ∀ c, s.claims number = some c → c.renewal.isOpen = false
  | .renew number => ∀ c, s.claims number = some c →
      ∀ token outcome, c.settlement ≠ .sent token outcome
  | .claim number => ∀ c, s.claims number = some c →
      ∀ row, s.table.committed c.classificationId = some row → row.fingerprint = c.fingerprint
  | _ => True

/-- Who has lost no row settles: each finished update has matched, and a batch is abandoned only
if one of its rows was lost. -/
structure Settles (s : System) : Prop where
  matched : ∀ n c, s.claims n = some c → c.stage = .owned → (s.batches c.batch).failed = false →
    c.lost = false → ∀ matched, c.settlement = .updated matched ∨ c.settlement = .done matched →
    matched = true
  abandoned : ∀ b, (s.batches b).failed = false → (s.batches b).phase = .abandoned →
    ∃ n c, s.claims n = some c ∧ c.batch = b ∧ c.stage = .owned ∧ c.lost = true

def Renewing (n : Nat) (c : Claim) (now : Nat) : Prop :=
  ∃ row, t.held c.classificationId = some (.renewal n, row) ∧ row.status = .running ∧
    row.fingerprint = c.fingerprint ∧ row.lastAttemptAt = some now

def Owns (n : Nat) (c : Claim) : Prop :=
  ∃ row, t.committed c.classificationId = some row ∧ row.status = .running ∧
    row.fingerprint = c.fingerprint ∧
    match c.renewal with
    | .idle => row.lastAttemptAt = some c.claimToken
    | .sent _ token => token = c.claimToken ∧ row.lastAttemptAt = some c.claimToken
    | .updated now matched => matched = true ∧ Renewing t n c now
    | .noted now matched => matched = true ∧ c.claimToken = now ∧ Renewing t n c now

def Settling (n : Nat) (c : Claim) : Prop :=
  match c.settlement with
  | .waiting => Owns t n c
  | .sent token _ => token = c.claimToken ∧ c.renewal.isOpen = false ∧ Owns t n c
  | .updated matched | .done matched => matched = true

/-- Unless its batch failed, a claim that is not lost keeps its row until it settles. -/
structure Live (s : System) : Prop where
  fresh : ∀ n c row, s.claims n = some c →
    s.table.held c.classificationId = some (.claim n, row) → row.fingerprint = c.fingerprint
  claims : ∀ n c, s.claims n = some c → c.stage = .owned → (s.batches c.batch).failed = false →
    (s.batches c.batch).phase ≠ .abandoned → c.lost = false → Settling s.table n c
  waiting : ∀ n c, s.claims n = some c → c.stage = .owned → (s.batches c.batch).failed = false →
    (s.batches c.batch).phase ≠ .settling → c.settlement = .waiting
  batches : ∀ b, (s.batches b).failed = false →
    ((s.batches b).ownershipLost = true ∧ (s.batches b).phase = .working) ∨
      (s.batches b).phase = .abandoned →
    ∃ n c, s.claims n = some c ∧ c.batch = b ∧ c.stage = .owned ∧ c.lost = true

variable {leaseSeconds : Nat} {s s' : System} {e : Event} {n m : Nat} {c c' d : Claim}
  {id : String} {row : Row} {task : Task} {t t' : LockedTable String Row Task}

theorem Live.settles (h : Live s) : Settles s where
  matched := by
    intro n c hc howned hfailed hlost matched hsettlement
    have hphase : (s.batches c.batch).phase = .settling := by
      by_contra hnot
      rw [h.waiting n c hc howned hfailed hnot] at hsettlement
      rcases hsettlement with hfalse | hfalse
      · cases hfalse
      · cases hfalse
    have hsettling : Settling s.table n c := by
      apply h.claims n c hc howned hfailed _ hlost
      rw [hphase]
      decide
    unfold Settling at hsettling
    rcases hsettlement with hupdated | hdone
    · rw [hupdated] at hsettling
      exact hsettling
    · rw [hdone] at hsettling
      exact hsettling
  abandoned := fun b hfailed hphase => h.batches b hfailed (.inr hphase)

theorem Owns.of_same (h : Owns t n c)
    (hcommitted : t'.committed c.classificationId = t.committed c.classificationId)
    (hheld : ∀ row, t.held c.classificationId = some (.renewal n, row) →
      t'.held c.classificationId = some (.renewal n, row)) : Owns t' n c := by
  obtain ⟨row, hrow, hrunning, hfingerprint, hrenewal⟩ := h
  refine ⟨row, hcommitted.trans hrow, hrunning, hfingerprint, ?_⟩
  cases hr : c.renewal with
  | idle | sent =>
    rw [hr] at hrenewal
    exact hrenewal
  | updated =>
    rw [hr] at hrenewal
    obtain ⟨hmatched, row', hrow', hrest⟩ := hrenewal
    exact ⟨hmatched, row', hheld row' hrow', hrest⟩
  | noted =>
    rw [hr] at hrenewal
    obtain ⟨hmatched, hnow, row', hrow', hrest⟩ := hrenewal
    exact ⟨hmatched, hnow, row', hheld row' hrow', hrest⟩

theorem Settling.of_same (h : Settling t n c)
    (hcommitted : t'.committed c.classificationId = t.committed c.classificationId)
    (hheld : ∀ row, t.held c.classificationId = some (.renewal n, row) →
      t'.held c.classificationId = some (.renewal n, row)) : Settling t' n c := by
  unfold Settling at h ⊢
  cases hs : c.settlement with
  | waiting =>
    rw [hs] at h
    exact h.of_same hcommitted hheld
  | sent =>
    rw [hs] at h
    exact ⟨h.1, h.2.1, h.2.2.of_same hcommitted hheld⟩
  | updated | done =>
    rw [hs] at h
    exact h

theorem Settling.hold (h : Settling t n c) (hfree : t.held id = none) :
    Settling (t.hold task id row) n c := by
  refine h.of_same rfl ?_
  intro row' hrow'
  have hne : c.classificationId ≠ id := by
    intro heq
    rw [heq, hfree] at hrow'
    cases hrow'
  exact (Function.update_of_ne hne _ _).trans hrow'

theorem Settling.finish (h : Settling s.table n c) (hinv : Inv s) (hclaim : s.claims n = some c)
    (howned : c.stage = .owned) (hlost : c.lost = false)
    (hother : task.number ≠ n) (hnot : applied → ∀ m, task ≠ .claim m) :
    Settling (s.table.finish task id applied) n c := by
  apply h.of_same
  · apply LockedTable.finish_committed_eq
    intro hid happlied row hrow
    have hheld : HeldBy s id row task := hinv.held id task row hrow
    cases task with
    | claim m => exact hnot happlied m rfl
    | renewal m =>
      obtain ⟨d, now, hd, hdid, hds, hdl, -⟩ := hheld
      exact hother (hinv.unique m n d c hd hclaim (hdid.trans hid.symm) hds howned hdl hlost)
    | settlement m =>
      obtain ⟨d, hd, hdid, hds, hdl, -⟩ := hheld
      exact hother (hinv.unique m n d c hd hclaim (hdid.trans hid.symm) hds howned hdl hlost)
  · intro row hrow
    apply LockedTable.finish_held.mpr
    refine ⟨hrow, ?_⟩
    rintro ⟨-, htask⟩
    exact hother (htask ▸ rfl)

theorem Live.setClaim (h : Live s)
    (hlost : ∀ c, s.claims n = some c → (s.batches c.batch).failed = false → c.stage = .owned →
      c.lost → c'.batch = c.batch ∧ c'.stage = .owned ∧ c'.lost)
    (hfresh : ∀ row, t.held c'.classificationId = some (.claim n, row) →
      row.fingerprint = c'.fingerprint)
    (hheld : ∀ id m row, m ≠ n → t.held id = some (.claim m, row) →
      s.table.held id = some (.claim m, row))
    (hothers : ∀ m d, m ≠ n → s.claims m = some d → d.stage = .owned → d.lost = false →
      Settling s.table m d → Settling t m d)
    (hself : c'.stage = .owned → (s.batches c'.batch).failed = false →
      (s.batches c'.batch).phase ≠ .abandoned → c'.lost = false → Settling t n c')
    (hwaiting : c'.stage = .owned → (s.batches c'.batch).failed = false →
      (s.batches c'.batch).phase ≠ .settling → c'.settlement = .waiting) :
    Live ({ s with table := t }.setClaim n c') where
  fresh := by
    intro m d row hd hrow
    obtain ⟨rfl, rfl⟩ | ⟨hm, hold⟩ := setClaim_cases hd
    · exact hfresh row hrow
    · exact h.fresh m d row hold (hheld _ m row hm hrow)
  claims := by
    intro m d hd howned hfailed hphase hdl
    obtain ⟨rfl, rfl⟩ | ⟨hm, hold⟩ := setClaim_cases hd
    · exact hself howned hfailed hphase hdl
    · exact hothers m d hm hold howned hdl (h.claims m d hold howned hfailed hphase hdl)
  waiting := by
    intro m d hd howned hfailed hphase
    obtain ⟨rfl, rfl⟩ | ⟨_, hold⟩ := setClaim_cases hd
    · exact hwaiting howned hfailed hphase
    · exact h.waiting m d hold howned hfailed hphase
  batches := by
    intro b hfailed hphase
    obtain ⟨m, d, hd, hb, howned, hdl⟩ := h.batches b hfailed hphase
    by_cases hm : m = n
    · rw [hm] at hd
      rw [← hb] at hfailed
      obtain ⟨hbatch, hstage, hkept⟩ := hlost d hd hfailed howned hdl
      exact ⟨n, c', setClaim_self, hbatch.trans hb, hstage, hkept⟩
    · exact ⟨m, d, (setClaim_of_ne hm).trans hd, hb, howned, hdl⟩

theorem setBatch_self : (s.setBatch batch b).batches batch = b :=
  Function.update_self _ _ _

theorem setBatch_of_ne {k : Nat} (h : k ≠ batch) :
    (s.setBatch batch b).batches k = s.batches k := Function.update_of_ne h _ _

section

variable (h : Live s)
include h

theorem Live.setBatch (batch : Nat)
    (hfailed : b.failed = false → (s.batches batch).failed = false)
    (hclaims : b.failed = false → b.phase ≠ .abandoned → (s.batches batch).phase ≠ .abandoned)
    (hwaiting : b.failed = false → b.phase ≠ .settling → (s.batches batch).phase ≠ .settling)
    (hlost : b.failed = false →
      (b.ownershipLost ∧ b.phase = .working) ∨ b.phase = .abandoned →
      ∃ n c, s.claims n = some c ∧ c.batch = batch ∧ c.stage = .owned ∧ c.lost) :
    Live (s.setBatch batch b) where
  fresh := h.fresh
  claims := by
    intro m d hd howned hk hphase
    by_cases heq : d.batch = batch
    · rw [heq, setBatch_self] at hk hphase
      rw [← heq] at hfailed hclaims
      exact h.claims m d hd howned (hfailed hk) (hclaims hk hphase)
    · rw [setBatch_of_ne heq] at hk hphase
      exact h.claims m d hd howned hk hphase
  waiting := by
    intro m d hd howned hk hphase
    by_cases heq : d.batch = batch
    · rw [heq, setBatch_self] at hk hphase
      rw [← heq] at hfailed hwaiting
      exact h.waiting m d hd howned (hfailed hk) (hwaiting hk hphase)
    · rw [setBatch_of_ne heq] at hk hphase
      exact h.waiting m d hd howned hk hphase
  batches := by
    intro k hk hphase
    by_cases heq : k = batch
    · rw [heq, setBatch_self] at hk hphase
      rw [heq]
      exact hlost hk hphase
    · rw [setBatch_of_ne heq] at hk hphase
      exact h.batches k hk hphase

theorem Live.setFailed (batch : Nat) (hfailed : b.failed) :
    Live (s.setBatch batch b) := by
  have hnot : b.failed ≠ false := by
    rw [hfailed]
    decide
  exact h.setBatch batch (fun hf => absurd hf hnot) (fun hf => absurd hf hnot)
    (fun hf => absurd hf hnot) (fun hf => absurd hf hnot)

theorem Live.loseOthers {number : Option Nat} : Live (s.loseOthers id number) where
  fresh := by
    intro m d row hd hrow
    obtain ⟨c, hc, hdc, -⟩ := loseOthers_cases hd
    rw [hdc] at hrow ⊢
    exact h.fresh m c row hc hrow
  claims := by
    intro m d hd howned hfailed hphase hlost
    obtain ⟨c, hc, -, hkept, -⟩ := loseOthers_cases hd
    obtain ⟨rfl, -⟩ := hkept hlost
    exact h.claims m d hc howned hfailed hphase hlost
  waiting := by
    intro m d hd howned hfailed hphase
    obtain ⟨c, hc, hdc, -⟩ := loseOthers_cases hd
    rw [hdc] at howned hfailed hphase ⊢
    exact h.waiting m c hc howned hfailed hphase
  batches := by
    intro b hfailed hphase
    obtain ⟨m, c, hc, hb, howned, hlost⟩ := h.batches b hfailed hphase
    cases hd : (s.loseOthers id number).claims m with
    | none =>
      unfold System.loseOthers at hd
      dsimp only at hd
      rw [hc] at hd
      cases hd
    | some d =>
      obtain ⟨c0, hc0, hdc, -, hstays⟩ := loseOthers_cases hd
      rw [hc] at hc0
      cases hc0
      refine ⟨m, d, hd, ?_, ?_, hstays hlost⟩
      · rw [hdc]
        exact hb
      · rw [hdc]
        exact howned

theorem Live.put (hall : ∀ m d, s.claims m = some d → d.classificationId = id →
    d.lost) : Live { s with table := s.table.put id row } where
  fresh := h.fresh
  claims := by
    intro m d hd howned hfailed hphase hlost
    refine (h.claims m d hd howned hfailed hphase hlost).of_same ?_ (fun _ hrow => hrow)
    apply Function.update_of_ne
    intro hid
    rw [hall m d hd hid] at hlost
    cases hlost
  waiting := h.waiting
  batches := h.batches

theorem Live.check (hworking : (s.batches batch).phase = .working) :
    Live (s.setBatch batch { s.batches batch with
      phase := if (s.batches batch).ownershipLost then .abandoned else .settling }) := by
  apply h.setBatch
  · intro hfailed
    exact hfailed
  · intro _ _
    rw [hworking]
    decide
  · intro _ _
    rw [hworking]
    decide
  · intro hfailed hphase
    apply h.batches batch hfailed
    left
    refine ⟨?_, hworking⟩
    by_contra hnot
    rw [if_neg hnot] at hphase
    rcases hphase with ⟨-, hfalse⟩ | hfalse
    · cases hfalse
    · cases hfalse

theorem Live.setOwned (hinv : Inv s) (hclaim : s.claims n = some c)
    (howned : c.stage = .owned) (hbatch : c'.batch = c.batch) (hstage : c'.stage = c.stage)
    (hlost : c'.lost = c.lost)
    (hheld : ∀ id m row, t.held id = some (.claim m, row) → s.table.held id = some (.claim m, row))
    (hothers : ∀ m d, m ≠ n → s.claims m = some d → d.stage = .owned → d.lost = false →
      Settling s.table m d → Settling t m d)
    (hself : (s.batches c.batch).failed = false → (s.batches c.batch).phase ≠ .abandoned →
      Settling s.table n c → Settling t n c')
    (hwaiting : (s.batches c.batch).failed = false → (s.batches c.batch).phase ≠ .settling →
      c.settlement = .waiting → c'.settlement = .waiting) :
    Live ({ s with table := t }.setClaim n c') := by
  apply h.setClaim
  · intro d hd _ _ hdl
    rw [hclaim] at hd
    cases hd
    exact ⟨hbatch, hstage.trans howned, hlost.trans hdl⟩
  · intro row hrow
    obtain ⟨d, hd, -, hds, -⟩ := hinv.held _ _ row (hheld _ n row hrow)
    rw [hclaim] at hd
    cases hd
    rw [howned] at hds
    cases hds
  · intro id m row _ hrow
    exact hheld id m row hrow
  · exact hothers
  · intro _ hfailed hphase hl
    rw [hbatch] at hfailed hphase
    exact hself hfailed hphase (h.claims n c hclaim howned hfailed hphase (hlost.symm.trans hl))
  · intro _ hfailed hphase
    rw [hbatch] at hfailed hphase
    exact hwaiting hfailed hphase (h.waiting n c hclaim howned hfailed hphase)

end

theorem Settling.setRenewal (h : Settling t n c) (hsettlement : c'.settlement = c.settlement)
    (hsent : ∀ token outcome, c.settlement = .sent token outcome →
      c'.claimToken = c.claimToken ∧ c'.renewal.isOpen = false)
    (howns : Owns t n c → Owns t' n c') : Settling t' n c' := by
  unfold Settling at h ⊢
  rw [hsettlement]
  cases hs : c.settlement with
  | waiting =>
    rw [hs] at h
    exact howns h
  | sent token outcome =>
    rw [hs] at h
    obtain ⟨htoken, hopen⟩ := hsent token outcome hs
    exact ⟨h.1.trans htoken.symm, hopen, howns h.2.2⟩
  | updated | done =>
    rw [hs] at h
    exact h

theorem Owns.owned (h : Owns t n c) (hopen : c.renewal.isOpen = false) :
    ∃ row, t.committed c.classificationId = some row ∧
      owned c.fingerprint c.claimToken row := by
  obtain ⟨row, hrow, hrunning, hfingerprint, hrenewal⟩ := h
  have hlast : row.lastAttemptAt = some c.claimToken := by
    cases hr : c.renewal with
    | idle =>
      rw [hr] at hrenewal
      exact hrenewal
    | sent =>
      rw [hr] at hrenewal
      exact hrenewal.2
    | updated | noted =>
      rw [hr] at hopen
      cases hopen
  refine ⟨row, hrow, ?_⟩
  unfold ToolClassification.owned
  rw [hrunning, hfingerprint, hlast]
  simp

theorem Owns.sent_token (h : Owns t n c) (hsent : c.renewal = .sent now token) :
    token = c.claimToken := by
  obtain ⟨row, -, -, -, hrenewal⟩ := h
  rw [hsent] at hrenewal
  exact hrenewal.1

theorem Live.renewSend (h : Live s) (hinv : Inv s) (hclaim : s.claims n = some c)
    (hstage : c.stage = .owned) (hidle : c.renewal = .idle) :
    Live (s.setClaim n { c with renewal := .sent now c.claimToken }) := by
  refine h.setOwned hinv hclaim hstage rfl rfl rfl (fun _ _ _ hrow => hrow)
    (fun _ _ _ _ _ _ hsettling => hsettling) ?_ (fun _ _ hwaiting => hwaiting)
  intro _ _ hsettling
  refine hsettling.setRenewal rfl (fun _ _ _ => ⟨rfl, rfl⟩) ?_
  intro howns
  obtain ⟨row, hrow, hrunning, hfingerprint, hrenewal⟩ := howns
  rw [hidle] at hrenewal
  exact ⟨row, hrow, hrunning, hfingerprint, rfl, hrenewal⟩

theorem held_claim_of_hold {k : Nat} {row' : Row} {id' : String} (htask : task ≠ .claim k)
    (h : (t.hold task id row).held id' = some (.claim k, row')) :
    t.held id' = some (.claim k, row') := by
  obtain ⟨-, hown, -⟩ | hbefore := LockedTable.hold_held h
  · exact absurd hown.symm htask
  · exact hbefore

section

variable (h : Live s) (hinv : Inv s) (hclaim : s.claims n = some c)

include h hinv hclaim

theorem Live.renewHit (hstage : c.stage = .owned) (hfree : s.table.held c.classificationId = none)
    (hrow : s.table.committed c.classificationId = some row)
    (howned : owned c.fingerprint token row)
    (horderly : ∀ token outcome, c.settlement ≠ .sent token outcome) :
    Live
      ({ s with table := s.table.hold (.renewal n) c.classificationId (renewed now row) }.setClaim
      n { c with renewal := .updated now true }) := by
  refine h.setOwned hinv hclaim hstage rfl rfl rfl ?_
    (fun _ _ _ _ _ _ hsettling => hsettling.hold hfree) ?_ (fun _ _ hwaiting => hwaiting)
  · intro id m row' hheld
    apply held_claim_of_hold _ hheld
    intro hfalse
    cases hfalse
  · intro _ _ hsettling
    refine hsettling.setRenewal rfl (fun token outcome hs => absurd hs (horderly token outcome)) ?_
    intro _
    obtain ⟨hrunning, hfingerprint, -⟩ := running_of_owned howned
    exact ⟨row, hrow, hrunning, hfingerprint, rfl, _, Function.update_self _ _ _, hrunning,
      hfingerprint, rfl⟩

theorem Live.renewNone (hstage : c.stage = .owned) (hsent : c.renewal = .sent now token)
    (hnot : ∀ row, s.table.committed c.classificationId = some row →
      owned c.fingerprint token row = false) :
    Live (s.setClaim n { c with renewal := .updated now false }) := by
  have hopen : c.renewal.isOpen = false := by
    rw [hsent]
    rfl
  have hfalse : ¬ Owns s.table n c := by
    intro howns
    obtain ⟨row, hrow, howned⟩ := howns.owned hopen
    rw [← howns.sent_token hsent, hnot row hrow] at howned
    cases howned
  refine h.setOwned hinv hclaim hstage rfl rfl rfl (fun _ _ _ hrow => hrow)
    (fun _ _ _ _ _ _ hsettling => hsettling) ?_ (fun _ _ hwaiting => hwaiting)
  intro _ _ hsettling
  refine hsettling.setRenewal rfl ?_ (fun howns => absurd howns hfalse)
  intro token' outcome hs
  unfold Settling at hsettling
  rw [hs] at hsettling
  exact absurd hsettling.2.2 hfalse

theorem Live.renewNote {matched : Bool} (hstage : c.stage = .owned)
    (hupdated : c.renewal = .updated now matched) : Live (s.setClaim n { c with
      renewal := .noted now matched
      claimToken := if matched then now else c.claimToken }) := by
  refine h.setOwned hinv hclaim hstage rfl rfl rfl (fun _ _ _ hrow => hrow)
    (fun _ _ _ _ _ _ hsettling => hsettling) ?_ (fun _ _ hwaiting => hwaiting)
  intro _ _ hsettling
  refine hsettling.setRenewal rfl ?_ ?_
  · intro token outcome hs
    unfold Settling at hsettling
    rw [hs, hupdated] at hsettling
    cases hsettling.2.1
  · intro howns
    obtain ⟨row, hrow, hrunning, hfingerprint, hrenewal⟩ := howns
    rw [hupdated] at hrenewal
    exact ⟨row, hrow, hrunning, hfingerprint, hrenewal.1, if_pos hrenewal.1, hrenewal.2⟩

theorem Live.finish (howned : c.stage = .owned) (hnumber : task.number = n)
    (htask : ∀ m, task ≠ .claim m) (hbatch : c'.batch = c.batch) (hstage : c'.stage = c.stage)
    (hlost : c'.lost = c.lost)
    (hself : (s.batches c.batch).failed = false → (s.batches c.batch).phase ≠ .abandoned →
      Settling s.table n c → Settling (s.table.finish task c.classificationId applied) n c')
    (hwaiting : (s.batches c.batch).failed = false → (s.batches c.batch).phase ≠ .settling →
      c.settlement = .waiting → c'.settlement = .waiting) :
    Live ((s.finish task c.classificationId applied).setClaim n c') := by
  refine h.setOwned hinv hclaim howned hbatch hstage hlost
    (fun _ _ _ hrow => (LockedTable.finish_held.mp hrow).1) ?_ hself hwaiting
  intro m d hm hd hds hdl hsettling
  apply hsettling.finish hinv hd hds hdl
  · rw [hnumber]
    exact hm.symm
  · exact fun _ => htask

variable (hstage : c.stage = .owned)
include hstage

theorem Live.renewEnd (hnoted : c.renewal.isNoted) :
    Live
      ((s.finish (.renewal n) c.classificationId true).setClaim n { c with renewal := .idle }) := by
  refine h.finish hinv hclaim hstage rfl (fun m hfalse => by cases hfalse) rfl rfl rfl ?_
    (fun _ _ hwaiting => hwaiting)
  intro _ _ hsettling
  obtain ⟨now, matched, hr⟩ : ∃ now matched, c.renewal = .noted now matched := by
    cases hr : c.renewal with
    | noted now matched => exact ⟨now, matched, rfl⟩
    | idle | sent | updated =>
      rw [hr] at hnoted
      cases hnoted
  refine hsettling.setRenewal rfl ?_ ?_
  · intro token outcome _
    exact ⟨rfl, rfl⟩
  · intro howns
    obtain ⟨row, _, _, _, hrenewal⟩ := howns
    rw [hr] at hrenewal
    obtain ⟨-, hnow, row', hheld, hrest⟩ := hrenewal
    refine ⟨row', LockedTable.finish_applied hheld, hrest.1, hrest.2.1, ?_⟩
    rw [hnow]
    exact hrest.2.2

theorem Live.settleSend
    (hphase : (s.batches c.batch).phase = .settling) (hwaiting : c.settlement = .waiting)
    (horderly : c.renewal.isOpen = false) :
    Live (s.setClaim n { c with settlement := .sent c.claimToken outcome }) := by
  refine h.setOwned hinv hclaim hstage rfl rfl rfl (fun _ _ _ hrow => hrow)
    (fun _ _ _ _ _ _ hsettling => hsettling) ?_ ?_
  · intro _ _ hsettling
    unfold Settling at hsettling
    rw [hwaiting] at hsettling
    exact ⟨rfl, horderly, hsettling⟩
  · intro _ hnot
    exact absurd hphase hnot

theorem Live.settleNone (hsent : c.settlement = .sent token outcome)
    (hnot : ∀ row, s.table.committed c.classificationId = some row →
      owned c.fingerprint token row = false) :
    Live (s.setClaim n { c with settlement := .updated false }) := by
  refine h.setOwned hinv hclaim hstage rfl rfl rfl (fun _ _ _ hrow => hrow)
    (fun _ _ _ _ _ _ hsettling => hsettling) ?_ ?_
  · intro _ _ hsettling
    unfold Settling at hsettling
    rw [hsent] at hsettling
    obtain ⟨htoken, hopen, howns⟩ := hsettling
    obtain ⟨row, hrow, howned⟩ := howns.owned hopen
    rw [← htoken, hnot row hrow] at howned
    cases howned
  · intro _ _ hwaiting
    rw [hsent] at hwaiting
    cases hwaiting

end

theorem Live.setBegun (h : Live s) (hstage' : c'.stage ≠ .owned)
    (hlost : ∀ c, s.claims n = some c → (s.batches c.batch).failed = false → c.stage ≠ .owned)
    (hfresh : ∀ row, t.held c'.classificationId = some (.claim n, row) →
      row.fingerprint = c'.fingerprint)
    (hheld : ∀ id m row, m ≠ n → t.held id = some (.claim m, row) →
      s.table.held id = some (.claim m, row))
    (hothers : ∀ m d, m ≠ n → s.claims m = some d → d.stage = .owned → d.lost = false →
      Settling s.table m d → Settling t m d) :
    Live ({ s with table := t }.setClaim n c') := by
  apply h.setClaim
  · intro c hc hfailed howned
    exact absurd howned (hlost c hc hfailed)
  · exact hfresh
  · exact hheld
  · exact hothers
  · intro howned
    exact absurd howned hstage'
  · intro howned
    exact absurd howned hstage'

theorem Live.select (h : Live s) (hinv : Inv s) (hnew : s.claims n = none)
    (hstage : c.stage = .selected) : Live (s.setClaim n c) := by
  refine h.setBegun ?_ ?_ ?_ (fun _ _ _ _ hrow => hrow) (fun _ _ _ _ _ _ hsettling => hsettling)
  · rw [hstage]
    decide
  · intro d hd
    rw [hnew] at hd
    cases hd
  · intro row hrow
    obtain ⟨d, hd, -⟩ := (hinv.held _ _ row hrow).exists_claim
    change s.claims n = some d at hd
    rw [hnew] at hd
    cases hd

theorem Live.claimHit (h : Live s) (hclaim : s.claims n = some c) (hstage : c.stage = .selected)
    (hfree : s.table.held c.classificationId = none) (horderly : row.fingerprint = c.fingerprint) :
    Live
      ({ s with table := s.table.hold (.claim n) c.classificationId (claimed c.now row) }.setClaim
      n { c with stage := .updated }) := by
  refine h.setBegun ?_ ?_ ?_ ?_ (fun _ _ _ _ _ _ hsettling => hsettling.hold hfree)
  · intro hfalse
    cases hfalse
  · intro d hd _
    rw [hclaim] at hd
    cases hd
    rw [hstage]
    decide
  · intro row' hheld
    change Function.update s.table.held c.classificationId _ c.classificationId = _ at hheld
    rw [Function.update_self] at hheld
    cases hheld
    exact horderly
  · intro id m row' hm hheld
    apply held_claim_of_hold _ hheld
    intro heq
    cases heq
    exact hm rfl

theorem Live.gone (h : Live s) (hclaim : s.claims n = some c)
    (hfailed : (s.batches c.batch).failed) {t : LockedTable String Row Task}
    (hcommitted : t.committed = s.table.committed)
    (hheld : ∀ id m row, m ≠ n →
      (t.held id = some (.claim m, row) ↔ s.table.held id = some (.claim m, row)) ∧
      (s.table.held id = some (.renewal m, row) → t.held id = some (.renewal m, row)))
    (hfree : ∀ row, t.held c.classificationId ≠ some (.claim n, row))
    {renewal : Renewal} {settlement : Settlement} :
    Live ({ s with table := t }.setClaim n
      { c with stage := .gone, renewal := renewal, settlement := settlement }) := by
  refine h.setBegun ?_ ?_ ?_ ?_ ?_
  · intro hfalse
    cases hfalse
  · intro d hd hnot
    rw [hclaim] at hd
    cases hd
    rw [hfailed] at hnot
    cases hnot
  · intro row hrow
    exact absurd hrow (hfree row)
  · intro id m row hm hrow
    exact (hheld id m row hm).1.mp hrow
  · intro m d hm _ _ _ hsettling
    apply hsettling.of_same
    · rw [hcommitted]
    · intro row hrow
      exact (hheld _ m row hm).2 hrow

theorem rollBack_committed (task : Task) (id : String) :
    (t.finish task id false).committed = t.committed := by
  funext key
  apply LockedTable.finish_committed_eq
  intro _ hfalse
  cases hfalse

theorem commitClaim_setClaim : (s.commitClaim n c).setClaim n c' =
      { s.loseOthers c.classificationId (some n) with
        table := s.table.finish (.claim n) c.classificationId true }.setClaim n c' := by
  have hclaims : ((s.commitClaim n c).setClaim n c').claims =
      (({ s.loseOthers c.classificationId (some n) with
        table := s.table.finish (.claim n) c.classificationId true }).setClaim n c').claims := by
    funext k
    by_cases hk : k = n
    · rw [hk, setClaim_self, setClaim_self]
    · rw [setClaim_of_ne hk, setClaim_of_ne hk]
      unfold System.commitClaim System.loseOthers System.finish
      dsimp only
      rw [setClaim_of_ne hk]
  unfold System.commitClaim System.loseOthers System.finish System.setClaim at hclaims ⊢
  dsimp only at hclaims ⊢
  rw [hclaims]

section

variable (h : Live s)
include h

theorem Live.claimApplied (hinv : Inv s) (hbegun : Begun s)
    (hclaim : s.claims n = some c) (hstage : c.stage = .updated) {stage : Stage} :
    Live ((s.commitClaim n c).setClaim n { c with stage := stage, lost := false }) := by
  obtain ⟨row, hrow⟩ := hbegun.held n c hclaim hstage
  obtain ⟨d, hd, -, -, hrunning, hlast⟩ := hinv.held _ _ row hrow
  rw [hclaim] at hd
  cases hd
  obtain ⟨htoken, hrenewal, hsettlement⟩ := hbegun.early n c hclaim (.inr hstage)
  have hlose : Live (s.loseOthers c.classificationId (some n)) := h.loseOthers
  have hkept : (s.loseOthers c.classificationId (some n)).claims n = some c :=
    loseOthers_kept hclaim fun _ => rfl
  rw [commitClaim_setClaim]
  apply hlose.setClaim
  · intro d hd _ hds
    rw [hkept] at hd
    cases hd
    rw [hstage] at hds
    cases hds
  · intro row' hrow'
    exact absurd ⟨rfl, rfl⟩ (LockedTable.finish_held.mp hrow').2
  · intro id m row' _ hrow'
    exact (LockedTable.finish_held.mp hrow').1
  · intro m d hm hd _ hdl hsettling
    apply hsettling.of_same
    · apply LockedTable.finish_committed_eq
      intro hid _ row' _
      obtain ⟨d0, hd0, -, hsame, -⟩ := loseOthers_cases hd
      obtain ⟨rfl, hnumber⟩ := hsame hdl
      exact hm (Option.some.inj (hnumber hid)).symm
    · intro row' hrow'
      apply LockedTable.finish_held.mpr
      refine ⟨hrow', ?_⟩
      intro hsame
      cases hsame.2
  · intro _ _ _ _
    rw [hsettlement]
    refine ⟨row, LockedTable.finish_applied hrow, hrunning, h.fresh n c row hclaim hrow, ?_⟩
    rw [hrenewal]
    rw [hlast, htoken]
  · intro _ _ _
    exact hsettlement

theorem Live.settleHit (hinv : Inv s) (hclaim : s.claims n = some c)
    (hstage : c.stage = .owned)
    (hsent : c.settlement = .sent token outcome)
    (hfree : s.table.held c.classificationId = none) :
    Live ({ s with table := s.table.hold (.settlement n) c.classificationId row }.setClaim n
      { c with settlement := .updated true }) := by
  refine h.setOwned hinv hclaim hstage rfl rfl rfl ?_
    (fun _ _ _ _ _ _ hsettling => hsettling.hold hfree) (fun _ _ _ => rfl) ?_
  · intro id m row' hheld
    apply held_claim_of_hold _ hheld
    intro hfalse
    cases hfalse
  · intro _ _ hwaiting
    rw [hsent] at hwaiting
    cases hwaiting

theorem Live.settleDone (hinv : Inv s) (hclaim : s.claims n = some c)
    (hstage : c.stage = .owned) {matched : Bool} (hupdated : c.settlement = .updated matched) :
    Live ((s.finish (.settlement n) c.classificationId true).setClaim n
      { c with settlement := .done matched }) := by
  refine h.finish hinv hclaim hstage rfl (fun m hfalse => by cases hfalse) rfl rfl rfl ?_ ?_
  · intro _ _ hsettling
    unfold Settling at hsettling
    rw [hupdated] at hsettling
    exact hsettling
  · intro _ _ hwaiting
    rw [hupdated] at hwaiting
    cases hwaiting

theorem Live.renewal_matched (hclaim : s.claims n = some c) (hstage : c.stage = .owned)
    (hfailed : (s.batches c.batch).failed = false) (hphase : (s.batches c.batch).phase = .working)
    (hlost : c.lost = false) (hnoted : c.renewal.isNoted) : c.renewal.matched := by
  have hwaiting : c.settlement = .waiting := by
    apply h.waiting n c hclaim hstage hfailed
    rw [hphase]
    decide
  have hsettling : Settling s.table n c := by
    apply h.claims n c hclaim hstage hfailed _ hlost
    rw [hphase]
    decide
  unfold Settling at hsettling
  rw [hwaiting] at hsettling
  obtain ⟨row, -, -, -, hrenewal⟩ := hsettling
  cases hr : c.renewal with
  | noted =>
    rw [hr] at hrenewal
    exact hrenewal.1
  | idle | sent | updated =>
    rw [hr] at hnoted
    cases hnoted

theorem Live.renewEnded (hinv : Inv s) (hclaim : s.claims n = some c)
    (hstage : c.stage = .owned) {ok : Bool} (hok : ok → applied)
    (hnoted : applied → c.renewal.isNoted) :
    Live (((s.finish (.renewal n) c.classificationId applied).setClaim n
      { c with renewal := .idle }).setBatch c.batch { s.batches c.batch with
          ownershipLost := (s.batches c.batch).ownershipLost || !(ok && c.renewal.matched)
          failed := (s.batches c.batch).failed || !ok }) := by
  cases ok with
  | false =>
    have hfailed : Live (s.setBatch c.batch { s.batches c.batch with
        ownershipLost := (s.batches c.batch).ownershipLost || !(false && c.renewal.matched)
        failed := (s.batches c.batch).failed || !false }) := by
      apply h.setFailed
      exact or_true _
    have hinv' : Inv (s.setBatch c.batch { s.batches c.batch with
        ownershipLost := (s.batches c.batch).ownershipLost || !(false && c.renewal.matched)
        failed := (s.batches c.batch).failed || !false }) := hinv.setBatch _ _
    refine hfailed.finish hinv' hclaim hstage rfl (fun m hfalse => by cases hfalse) rfl rfl rfl ?_
      (fun _ _ hwaiting => hwaiting)
    intro hnot
    rw [setBatch_self] at hnot
    change ((s.batches c.batch).failed || true) = false at hnot
    rw [Bool.or_true] at hnot
    cases hnot
  | true =>
    have happlied : applied := hok rfl
    rw [happlied] at hnoted ⊢
    apply (h.renewEnd hinv hclaim hstage (hnoted rfl)).setBatch
    · intro hfailed
      change ((s.batches c.batch).failed || false) = false at hfailed
      rw [Bool.or_false] at hfailed
      exact hfailed
    · exact fun _ hphase => hphase
    · exact fun _ hphase => hphase
    · intro hfailed hphase
      change ((s.batches c.batch).failed || false) = false at hfailed
      rw [Bool.or_false] at hfailed
      have hwitness : ∃ m d, s.claims m = some d ∧ d.batch = c.batch ∧ d.stage = .owned ∧
          d.lost := by
        rcases hphase with ⟨hown, hworking⟩ | habandoned
        · by_cases hlost : c.lost
          · exact ⟨n, c, hclaim, rfl, hstage, hlost⟩
          · have hmatched : c.renewal.matched :=
              h.renewal_matched hclaim hstage hfailed hworking (eq_false_iff.mpr hlost)
                (hnoted rfl)
            rw [hmatched] at hown
            have hbefore : (s.batches c.batch).ownershipLost := by simpa using hown
            exact h.batches c.batch hfailed (.inl ⟨hbefore, hworking⟩)
        · exact h.batches c.batch hfailed (.inr habandoned)
      obtain ⟨m, d, hd, hb, hds, hdl⟩ := hwitness
      by_cases hm : m = n
      · rw [hm, hclaim] at hd
        cases hd
        exact ⟨n, _, setClaim_self, hb, hds, hdl⟩
      · exact ⟨m, d, (setClaim_of_ne hm).trans hd, hb, hds, hdl⟩

theorem Live.claimSkip (hinv : Inv s) (hclaim : s.claims n = some c)
    (hstage : c.stage = .selected) : Live (s.setClaim n { c with stage := .skipped }) := by
  refine h.setBegun ?_ ?_ ?_ (fun _ _ _ _ hrow => hrow) (fun _ _ _ _ _ _ hsettling => hsettling)
  · intro hfalse
    cases hfalse
  · intro d hd _
    rw [hclaim] at hd
    cases hd
    rw [hstage]
    decide
  · intro row hrow
    obtain ⟨d, hd, -, hds, -⟩ := hinv.held _ _ row hrow
    rw [hclaim] at hd
    cases hd
    rw [hstage] at hds
    cases hds

theorem Live.claimRolledBack (hclaim : s.claims n = some c) :
    Live (((s.finish (.claim n) c.classificationId false).setClaim n
      { c with stage := .gone }).fail c.batch) := by
  have hfailed : Live (s.fail c.batch) := h.setFailed _ rfl
  apply hfailed.gone hclaim
  · change ((s.setBatch _ _).batches c.batch).failed
    rw [setBatch_self]
  · exact rollBack_committed _ _
  · intro id m row hm
    have hne : Task.claim m ≠ Task.claim n := fun heq => hm (by cases heq; rfl)
    refine ⟨LockedTable.finish_held.trans ⟨fun hrow => hrow.1, fun hrow => ⟨hrow, ?_⟩⟩, ?_⟩
    · intro hsame
      exact hne hsame.2
    · intro hrow
      apply LockedTable.finish_held.mpr
      refine ⟨hrow, ?_⟩
      intro hsame
      cases hsame.2
  · exact not_held_finish

theorem Live.renewStop (hinv : Inv s) (hclaim : s.claims n = some c)
    (hstage : c.stage = .owned)
    (hover : (s.batches c.batch).phase = .abandoned ∨ ∃ matched, c.settlement = .done matched) :
    Live ((s.finish (.renewal n) c.classificationId applied).setClaim n
      { c with renewal := .idle }) := by
  refine h.finish hinv hclaim hstage rfl (fun m hfalse => by cases hfalse) rfl rfl rfl ?_
    (fun _ _ hwaiting => hwaiting)
  intro _ hphase hsettling
  rcases hover with habandoned | ⟨matched, hdone⟩
  · exact absurd habandoned hphase
  · unfold Settling at hsettling ⊢
    rw [hdone] at hsettling ⊢
    exact hsettling

theorem Live.settleError (hinv : Inv s) (hclaim : s.claims n = some c)
    (hstage : c.stage = .owned) :
    Live (((s.finish (.settlement n) c.classificationId applied).setClaim n
      { c with settlement := .waiting }).setBatch c.batch
        { s.batches c.batch with phase := .working, failed := true }) := by
  have hfailed : Live (s.setBatch c.batch
      { s.batches c.batch with phase := .working, failed := true }) := h.setFailed _ rfl
  refine hfailed.finish (hinv.setBatch _ _) hclaim hstage rfl (fun m hfalse => by cases hfalse)
    rfl rfl rfl ?_ (fun _ _ _ => rfl)
  intro hnot
  rw [setBatch_self] at hnot
  cases hnot

end

theorem rollBackAll_held {id' : String} (hrow : s.table.held id' = some (task, row))
    (hnumber : task.number ≠ n) : (s.rollBackAll n id).table.held id' = some (task, row) := by
  apply LockedTable.finish_held.mpr
  refine ⟨LockedTable.finish_held.mpr ⟨LockedTable.finish_held.mpr ⟨hrow, ?_⟩, ?_⟩, ?_⟩
  · intro hsame
    exact hnumber (congrArg Task.number hsame.2)
  · intro hsame
    exact hnumber (congrArg Task.number hsame.2)
  · intro hsame
    exact hnumber (congrArg Task.number hsame.2)

theorem Live.crash (h : Live s) (hclaim : s.claims n = some c) : Live (crash s n c) := by
  have hfailed : Live (s.fail c.batch) := h.setFailed _ rfl
  have hgone : Live ({ s.fail c.batch with
      table := (s.rollBackAll n c.classificationId).table }.setClaim n
      { c with stage := .gone, renewal := .idle, settlement := .waiting }) := by
    apply hfailed.gone hclaim
    · change ((s.setBatch _ _).batches c.batch).failed
      rw [setBatch_self]
    · exact (rollBack_committed _ _).trans ((rollBack_committed _ _).trans (rollBack_committed _ _))
    · intro id m row hm
      exact ⟨⟨fun hrow => (held_rollBackAll hrow).1, fun hrow => rollBackAll_held hrow hm⟩,
        fun hrow => rollBackAll_held hrow hm⟩
    · intro row hrow
      exact (held_rollBackAll hrow).2 ⟨rfl, rfl⟩
  exact hgone

theorem Live.step (h : Live s) (hinv : Inv s) (hbegun : Begun s) (horderly : Orderly s e)
    (hmove : Moves leaseSeconds s e s') : Live s' := by
  cases hmove with
  | write id =>
    apply Live.put (s := s.loseOthers id none) h.loseOthers
    intro m d hd hid
    by_contra hlost
    obtain ⟨c, hc, -, hsame, -⟩ := loseOthers_cases hd
    obtain ⟨rfl, hnumber⟩ := hsame (eq_false_iff.mpr hlost)
    cases hnumber hid
  | select number batch id now row hnew => exact h.select hinv hnew rfl
  | claimHit number c row hclaim hstage hfree hrow =>
    have hhit : Live ({ s with
        table := s.table.hold (.claim number) c.classificationId (claimed c.now row) }.setClaim
          number
        { c with stage := .updated }) := h.claimHit hclaim hstage hfree (horderly c hclaim row hrow)
    exact ⟨hhit.fresh, hhit.claims, hhit.waiting, hhit.batches⟩
  | claimSkip e number c hclaim hstage => exact h.claimSkip hinv hclaim hstage
  | claimApplied number c ok hclaim hstage =>
    cases ok with
    | true => exact h.claimApplied hinv hbegun hclaim hstage
    | false => exact (h.claimApplied hinv hbegun hclaim hstage).setFailed _ rfl
  | claimRolledBack number c hclaim => exact h.claimRolledBack hclaim
  | renewSend number now c hclaim hstage hidle => exact h.renewSend hinv hclaim hstage hidle
  | renewHit number c now token row hclaim hstage hsent hfree hrow howned =>
    have hhit : Live ({ s with
        table := s.table.hold (.renewal number) c.classificationId (renewed now row) }.setClaim
          number
        { c with renewal := .updated now true }) :=
      h.renewHit hinv hclaim hstage hfree hrow howned (horderly c hclaim)
    exact ⟨hhit.fresh, hhit.claims, hhit.waiting, hhit.batches⟩
  | renewNone e number c now token hclaim hstage hsent hnot =>
    exact h.renewNone hinv hclaim hstage hsent hnot
  | renewNote number c now matched hclaim hstage hupdated =>
    exact h.renewNote hinv hclaim hstage hupdated
  | renewEnd number c ok applied hclaim hstage hok hnoted =>
    exact h.renewEnded hinv hclaim hstage hok hnoted
  | renewStop number c applied hclaim hstage hover =>
    exact h.renewStop hinv hclaim hstage hover
  | check batch hworking => exact h.check hworking
  | settleSend number c outcome hclaim hstage hphase hwaiting =>
    exact h.settleSend hinv hclaim hstage hphase hwaiting (horderly c hclaim)
  | settleHit number c token outcome row hclaim hstage hsent hfree =>
    exact h.settleHit hinv hclaim hstage hsent hfree
  | settleNone e number c token outcome hclaim hstage hsent hnot =>
    exact h.settleNone hinv hclaim hstage hsent hnot
  | settleDone number c matched hclaim hstage hupdated =>
    exact h.settleDone hinv hclaim hstage hupdated
  | settleError number c applied hclaim hstage => exact h.settleError hinv hclaim hstage
  | crash number c hclaim => exact h.crash hclaim

end

/-- A settlement finds only a row that its claim has not lost, with the fingerprint that was
classified, and the rows are as they should be. -/
structure Fenced (s : System) : Prop where
  owner : ∀ n c token outcome row, s.claims n = some c → c.settlement = .sent token outcome →
    s.table.committed c.classificationId = some row → owned c.fingerprint token row = true →
    c.lost = false ∧ row.fingerprint = c.fingerprint
  ready : ∀ id row, s.table.Version id row → row.status = .ready →
    row.classifiedFrom = some row.fingerprint
  attempts : ∀ id row, s.table.Version id row → row.attempts ≤ classificationMaxAttempts

variable {leaseSeconds : Nat} {s : System}

theorem Inv.fenced (h : Inv s) : Fenced s where
  owner := by
    intro n c token outcome row hclaim hsent hrow howned
    exact ⟨h.not_lost hclaim (.settlement token outcome hsent) hrow howned,
      (running_of_owned howned).2.1⟩
  ready := fun id row hversion => (h.rows id row hversion).ready
  attempts := fun id row hversion => (h.rows id row hversion).attempts_le

theorem inv_empty : Inv .empty where
  rows := by
    intro id row hversion
    rcases hversion with hcommitted | ⟨task, hheld⟩
    · cases hcommitted
    · cases hheld
  attempts := by
    intro n c hc
    cases hc
  stamps := by
    intro n c hc
    cases hc
  running := by
    intro id row hrow
    cases hrow
  held := by
    intro id task row hrow
    cases hrow
  unique := by
    intro n m c d hc
    cases hc

theorem begun_empty : Begun .empty where
  held := by
    intro n c hc
    cases hc
  early := by
    intro n c hc
    cases hc

theorem live_empty : Live .empty where
  fresh := by
    intro n c row hc
    cases hc
  claims := by
    intro n c hc
    cases hc
  waiting := by
    intro n c hc
    cases hc
  batches := by
    intro b _ hphase
    rcases hphase with ⟨hlost, -⟩ | habandoned
    · cases hlost
    · cases habandoned

theorem step_inv (e : Event) (h : Inv s ∧ Begun s) :
    Inv (step leaseSeconds s e) ∧ Begun (step leaseSeconds s e) := by
  rcases step_moves leaseSeconds s e with hsame | hmove
  · rw [hsame]
    exact h
  · exact ⟨h.1.step h.2 hmove, h.2.step hmove⟩

theorem step_live (e : Event) (h : (Inv s ∧ Begun s) ∧ Live s) (horderly : Orderly s e) :
    (Inv (step leaseSeconds s e) ∧ Begun (step leaseSeconds s e)) ∧
      Live (step leaseSeconds s e) := by
  refine ⟨step_inv e h.1, ?_⟩
  rcases step_moves leaseSeconds s e with hsame | hmove
  · rw [hsame]
    exact h.2
  · exact h.2.step h.1.1 h.1.2 horderly hmove

/-- A claim is settled by its owner only; and by its owner, if no renewal meets the settlement and
the row was claimed as it was read. -/
theorem claim_settled_by_owner (leaseSeconds : Nat) (events : List Event) :
    Fenced (run leaseSeconds events) ∧
      (Runs.Meets (step leaseSeconds) Orderly .empty events →
        Settles (run leaseSeconds events)) := by
  constructor
  · have hinv : Inv (run leaseSeconds events) ∧ Begun (run leaseSeconds events) :=
      Runs.run_invariant (fun s => Inv s ∧ Begun s) (fun _ e h => step_inv e h)
        ⟨inv_empty, begun_empty⟩ events
    exact hinv.1.fenced
  · intro hmeets
    have hlive : (Inv (run leaseSeconds events) ∧ Begun (run leaseSeconds events)) ∧
        Live (run leaseSeconds events) :=
      Runs.run_invariant_of_meets (fun s => (Inv s ∧ Begun s) ∧ Live s)
        (fun _ e h horderly => step_live e h horderly)
        ⟨⟨inv_empty, begun_empty⟩, live_empty⟩ hmeets
    exact hlive.2.settles

def claimOne : List Event :=
  [.write "tc_1" "f" 0, .select 0 0 "tc_1" 1, .claim 0, .claimEnd 0 true true]

def renewedBefore : List Event :=
  claimOne ++ [.renewSend 0 2, .renew 0, .renewNote 0, .renewEnd 0 true true, .check 0,
    .settleSend 0 (.rejected "no_classification_result" 9), .settle 0, .settleEnd 0 true true]

theorem settled_renewedBefore : Settles (run 300 renewedBefore) ∧
      ((run 300 renewedBefore).claims 0).map (·.settlement) = some (.done true) := by
  refine ⟨(claim_settled_by_owner 300 renewedBefore).2 ?_, by decide⟩
  refine ⟨trivial, trivial, ?_, trivial, trivial, ?_, trivial, trivial, trivial, ?_, trivial,
    trivial, trivial⟩
  · intro c hc row hrow
    cases hc
    cases hrow
    rfl
  · intro c hc token outcome hsent
    cases hc
    cases hsent
  · intro c hc
    cases hc
    rfl

def overlapping : List Event :=
  claimOne ++ [.renewSend 0 2, .check 0, .settleSend 0 (.rejected "no_classification_result" 9),
    .renew 0, .renewNote 0, .renewEnd 0 true true, .settle 0, .settleEnd 0 true true]

theorem settlement_of_owner_lost :
    ((run 300 overlapping).claims 0).map (fun c => (c.stage, c.lost, c.settlement)) =
        some (.owned, false, .done false) ∧
      (run 300 overlapping).batches 0 = ⟨.settling, false, false⟩ := by
  decide

end Cognis.ToolClassification
