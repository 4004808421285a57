import Cognis.ToolClassification.Moves

namespace Cognis.ToolClassification

/-- Attempts are bounded, and a ready row is classified from its fingerprint. -/
structure RowOk (row : Row) : Prop where
  attempts_le : row.attempts ≤ classificationMaxAttempts
  attempts_lt : row.status ≠ .failed → row.attempts < classificationMaxAttempts
  ready : row.status = .ready → row.classifiedFrom = some row.fingerprint

/-- The tokens that a renewal works with. -/
inductive Renewal.Uses : Renewal → Nat → Prop where
  | sent (now token : Nat) : Uses (.sent now token) token
  | updated (now : Nat) : Uses (.updated now true) now
  | noted (now : Nat) : Uses (.noted now true) now

/-- The timestamps that a claim has written, or compares with. -/
inductive Claim.Uses (c : Claim) : Nat → Prop where
  | claim (h : c.stage = .updated) : c.Uses c.now
  | token (h : c.stage = .owned) : c.Uses c.claimToken
  | renewal (t : Nat) (h : c.renewal.Uses t) : c.Uses t
  | settlement (token : Nat) (outcome : Outcome) (h : c.settlement = .sent token outcome) :
      c.Uses token

def Task.number : Task → Nat
  | .claim n | .renewal n | .settlement n => n

def HeldBy (s : System) (id : String) (row : Row) : Task → Prop
  | .claim n => ∃ c, s.claims n = some c ∧ c.classificationId = id ∧ c.stage = .updated ∧
      row.status = .running ∧ row.lastAttemptAt = some c.now
  | .renewal n => ∃ c now, s.claims n = some c ∧ c.classificationId = id ∧ c.stage = .owned ∧
      c.lost = false ∧ (c.renewal = .updated now true ∨ c.renewal = .noted now true) ∧
      row.status = .running ∧ row.lastAttemptAt = some now
  | .settlement n => ∃ c, s.claims n = some c ∧ c.classificationId = id ∧ c.stage = .owned ∧
      c.lost = false ∧ c.settlement = .updated true ∧ row.status ≠ .running

def Stamped (s : System) (id : String) (row : Row) : Prop :=
  ∃ t n c, row.lastAttemptAt = some t ∧ s.stamp id t = some n ∧ s.claims n = some c ∧
    c.classificationId = id ∧ c.lost = false

/-- A running row is stamped by its claim, and no two claims own a classification. -/
structure Inv (s : System) : Prop where
  rows : ∀ id row, s.table.Version id row → RowOk row
  attempts : ∀ n c, s.claims n = some c → c.attempts < classificationMaxAttempts
  stamps : ∀ n c, s.claims n = some c → ∀ t, c.Uses t → s.stamp c.classificationId t = some n
  running : ∀ id row, s.table.committed id = some row → row.status = .running → Stamped s id row
  held : ∀ id task row, s.table.held id = some (task, row) → HeldBy s id row task
  unique : ∀ n m c d, s.claims n = some c → s.claims m = some d →
    c.classificationId = d.classificationId → c.stage = .owned → d.stage = .owned →
    c.lost = false → d.lost = false → n = m

/-- A claim that is being taken holds its row under its own token. -/
structure Begun (s : System) : Prop where
  held : ∀ n c, s.claims n = some c → c.stage = .updated →
    ∃ row, s.table.held c.classificationId = some (.claim n, row)
  early : ∀ n c, s.claims n = some c → c.stage = .selected ∨ c.stage = .updated →
    c.claimToken = c.now ∧ c.renewal = .idle ∧ c.settlement = .waiting

variable {s s' : System} {n m : Nat} {c c' d : Claim}
  {id : String} {row : Row} {task : Task}

theorem setClaim_self : (s.setClaim n c).claims n = some c := Function.update_self _ _ _

theorem setClaim_of_ne (h : m ≠ n) : (s.setClaim n c).claims m = s.claims m :=
  Function.update_of_ne h _ _

theorem setClaim_cases (h : (s.setClaim n c).claims m = some d) :
    (m = n ∧ d = c) ∨ (m ≠ n ∧ s.claims m = some d) := by
  by_cases hm : m = n
  · rw [hm, setClaim_self] at h
    exact .inl ⟨hm, (Option.some.inj h).symm⟩
  · rw [setClaim_of_ne hm] at h
    exact .inr ⟨hm, h⟩

theorem HeldBy.setClaim (h : HeldBy s id row task) (hne : task.number ≠ n) :
    HeldBy (s.setClaim n c) id row task := by
  cases task with
  | claim m | settlement m =>
    obtain ⟨d, hd, hrest⟩ := h
    exact ⟨d, (setClaim_of_ne hne).trans hd, hrest⟩
  | renewal m =>
    obtain ⟨d, now, hd, hrest⟩ := h
    exact ⟨d, now, (setClaim_of_ne hne).trans hd, hrest⟩

theorem HeldBy.of_claims (h : HeldBy s id row task) (hclaims : s'.claims = s.claims) :
    HeldBy s' id row task := by
  cases task with
  | claim | renewal | settlement =>
    unfold HeldBy at h ⊢
    rwa [hclaims]

theorem HeldBy.exists_claim (h : HeldBy s id row task) :
    ∃ c, s.claims task.number = some c ∧ c.classificationId = id := by
  cases task with
  | claim m | settlement m =>
    obtain ⟨d, hd, hid, -⟩ := h
    exact ⟨d, hd, hid⟩
  | renewal m =>
    obtain ⟨d, now, hd, hid, -⟩ := h
    exact ⟨d, hd, hid⟩

namespace Inv

variable (h : Inv s)
include h

theorem setClaim
    (hkeeps : ∀ c, s.claims n = some c →
      c'.classificationId = c.classificationId ∧ (c.lost = false → c'.lost = false))
    (hattempts : c'.attempts < classificationMaxAttempts)
    (hstamps : ∀ t, c'.Uses t → s.stamp c'.classificationId t = some n)
    (hheld : ∀ id task row, s.table.held id = some (task, row) → task.number = n →
      HeldBy (s.setClaim n c') id row task)
    (hunique : c'.stage = .owned → c'.lost = false → ∀ m d, s.claims m = some d → m ≠ n →
      d.stage = .owned → d.classificationId = c'.classificationId → d.lost) :
    Inv (s.setClaim n c') where
  rows := h.rows
  attempts := by
    intro m d hd
    obtain ⟨-, hdc⟩ | ⟨-, hold⟩ := setClaim_cases hd
    · rw [hdc]
      exact hattempts
    · exact h.attempts m d hold
  stamps := by
    intro m d hd t ht
    obtain ⟨hm, hdc⟩ | ⟨-, hold⟩ := setClaim_cases hd
    · rw [hdc] at ht ⊢
      rw [hm]
      exact hstamps t ht
    · exact h.stamps m d hold t ht
  running := by
    intro id row hrow hrunning
    obtain ⟨t, m, d, hlast, hstamp, hd, hid, hlost⟩ := h.running id row hrow hrunning
    by_cases hm : m = n
    · rw [hm] at hd hstamp
      obtain ⟨hsame, hkept⟩ := hkeeps d hd
      exact ⟨t, n, c', hlast, hstamp, setClaim_self, hsame.trans hid, hkept hlost⟩
    · exact ⟨t, m, d, hlast, hstamp, (setClaim_of_ne hm).trans hd, hid, hlost⟩
  held := by
    intro id task row hrow
    by_cases hnumber : task.number = n
    · exact hheld id task row hrow hnumber
    · exact (h.held id task row hrow).setClaim hnumber
  unique := by
    intro k m c d hc hd hid hcs hds hcl hdl
    obtain ⟨hk, hkc⟩ | ⟨hk, hold⟩ := setClaim_cases hc
    · obtain ⟨hm, -⟩ | ⟨hm, hold'⟩ := setClaim_cases hd
      · rw [hk, hm]
      · rw [hkc] at hid hcs hcl
        rw [hunique hcs hcl m d hold' hm hds hid.symm] at hdl
        cases hdl
    · obtain ⟨hm, hmd⟩ | ⟨_, hold'⟩ := setClaim_cases hd
      · rw [hmd] at hid hds hdl
        rw [hunique hds hdl k c hold hk hcs hid] at hcl
        cases hcl
      · exact h.unique k m c d hold hold' hid hcs hds hcl hdl

theorem setClaim_same (hclaim : s.claims n = some c)
    (hid : c'.classificationId = c.classificationId) (hattempts : c'.attempts = c.attempts)
    (hstage : c'.stage = c.stage) (hlost : c'.lost = c.lost)
    (hstamps : ∀ t, c'.Uses t → s.stamp c.classificationId t = some n)
    (hheld : ∀ id task row, s.table.held id = some (task, row) → task.number = n →
      HeldBy (s.setClaim n c') id row task) : Inv (s.setClaim n c') := by
  apply h.setClaim
  · intro d hd
    rw [hclaim] at hd
    cases hd
    exact ⟨hid, fun hfalse => hlost.trans hfalse⟩
  · rw [hattempts]
    exact h.attempts n c hclaim
  · rw [hid]
    exact hstamps
  · exact hheld
  · intro howned hfalse m d hd hm hds hdid
    by_contra hdl
    apply hm
    exact h.unique m n d c hd hclaim (hdid.trans hid) hds (hstage ▸ howned)
      (Bool.eq_false_iff.mpr hdl) (hlost ▸ hfalse)

theorem setBatch (batch : Nat) (b : Batch) : Inv (s.setBatch batch b) :=
  ⟨h.rows, h.attempts, h.stamps, h.running, h.held, h.unique⟩

omit h in
theorem stamp_of_some {now t k : Nat} {id' : String} (hfresh : s.stamp id now = none)
    (hsome : s.stamp id' t = some k) : (s.setStamp id now n).stamp id' t = some k := by
  unfold System.setStamp
  dsimp only
  by_cases hid : id' = id
  · rw [hid, Function.update_self]
    rw [hid] at hsome
    by_cases ht : t = now
    · rw [ht, hfresh] at hsome
      cases hsome
    · rw [Function.update_of_ne ht]
      exact hsome
  · rw [Function.update_of_ne hid]
    exact hsome

omit h in
theorem stamp_self (now : Nat) : (s.setStamp id now n).stamp id now = some n := by
  unfold System.setStamp
  dsimp only
  rw [Function.update_self, Function.update_self]

theorem setStamp {now : Nat} (hfresh : s.stamp id now = none) : Inv (s.setStamp id now n) where
  rows := h.rows
  attempts := h.attempts
  stamps := fun m d hd t ht => stamp_of_some hfresh (h.stamps m d hd t ht)
  running := by
    intro id' row hrow hrunning
    obtain ⟨t, m, d, hlast, hstamp, hrest⟩ := h.running id' row hrow hrunning
    exact ⟨t, m, d, hlast, stamp_of_some hfresh hstamp, hrest⟩
  held id' task row hrow := (h.held id' task row hrow).of_claims rfl
  unique := h.unique

theorem hold (hok : RowOk row) (hheld : HeldBy s id row task) :
    Inv { s with table := s.table.hold task id row } where
  rows := by
    intro id' row' hversion
    obtain hcommitted | ⟨task', hrow⟩ := hversion
    · exact h.rows id' row' (.inl hcommitted)
    · obtain ⟨-, -, rfl⟩ | hbefore := LockedTable.hold_held hrow
      · exact hok
      · exact h.rows id' row' (.inr ⟨task', hbefore⟩)
  attempts := h.attempts
  stamps := h.stamps
  running := h.running
  held := by
    intro id' task' row' hrow
    obtain ⟨rfl, rfl, rfl⟩ | hbefore := LockedTable.hold_held hrow
    · exact hheld.of_claims rfl
    · exact (h.held id' task' row' hbefore).of_claims rfl
  unique := h.unique

theorem finish {applied : Bool}
    (hrun : applied → ∀ row, s.table.held id = some (task, row) →
      row.status = .running → Stamped s id row) : Inv (s.finish task id applied) where
  rows := by
    intro id' row' hversion
    obtain hcommitted | ⟨task', hrow⟩ := hversion
    · obtain hbefore | ⟨_, -, hheld⟩ := LockedTable.finish_committed hcommitted
      · exact h.rows id' row' (.inl hbefore)
      · exact h.rows id row' (.inr ⟨task, hheld⟩)
    · exact h.rows id' row' (.inr ⟨task', (LockedTable.finish_held.mp hrow).1⟩)
  attempts := h.attempts
  stamps := h.stamps
  running := by
    intro id' row' hrow hrunning
    obtain hbefore | ⟨hid, happlied, hheld⟩ := LockedTable.finish_committed hrow
    · exact h.running id' row' hbefore hrunning
    · rw [hid]
      exact hrun happlied row' hheld hrunning
  held id' task' row' hrow :=
    (h.held id' task' row' (LockedTable.finish_held.mp hrow).1).of_claims rfl
  unique := h.unique

theorem put (hok : RowOk row) (hnot : row.status ≠ .running) :
    Inv { s with table := s.table.put id row } where
  rows := by
    intro id' row' hversion
    obtain hcommitted | hheld := hversion
    · obtain ⟨-, rfl⟩ | hbefore := LockedTable.put_committed hcommitted
      · exact hok
      · exact h.rows id' row' (.inl hbefore)
    · exact h.rows id' row' (.inr hheld)
  attempts := h.attempts
  stamps := h.stamps
  running := by
    intro id' row' hrow hrunning
    obtain ⟨-, rfl⟩ | hbefore := LockedTable.put_committed hrow
    · exact absurd hrunning hnot
    · exact h.running id' row' hbefore hrunning
  held id' task row' hrow := (h.held id' task row' hrow).of_claims rfl
  unique := h.unique

end Inv

variable {number : Option Nat}

theorem loseOthers_kept (hclaim : s.claims m = some d)
    (hkept : d.classificationId = id → number = some m) :
    (s.loseOthers id number).claims m = some d := by
  unfold System.loseOthers
  dsimp only
  rw [hclaim, Option.map_some, if_neg]
  intro hlost
  exact hlost.2 (hkept hlost.1).symm

theorem loseOthers_cases (hclaim : (s.loseOthers id number).claims m = some d) :
    ∃ c, s.claims m = some c ∧ d = { c with lost := d.lost } ∧
      (d.lost = false → d = c ∧ (c.classificationId = id → number = some m)) ∧
      (c.lost → d.lost) := by
  obtain ⟨c, hc, hd⟩ := Option.map_eq_some_iff.mp hclaim
  refine ⟨c, hc, ?_⟩
  rw [← hd]
  split_ifs with hlost
  · refine ⟨rfl, ?_, fun _ => rfl⟩
    intro hfalse
    cases hfalse
  · refine ⟨rfl, ?_, fun hlost' => hlost'⟩
    intro _
    refine ⟨rfl, ?_⟩
    intro hid
    by_contra hne
    exact hlost ⟨hid, fun heq => hne heq.symm⟩

theorem Claim.Uses.of_lost {t : Nat} {lost : Bool} (h : Claim.Uses { c with lost := lost } t) :
    c.Uses t := by
  cases h with
  | claim h => exact .claim h
  | token h => exact .token h
  | renewal t h => exact .renewal _ h
  | settlement token outcome h => exact .settlement _ outcome h

theorem HeldBy.loseOthers {id' : String} (h : HeldBy s id' row task)
    (hne : id' ≠ id) : HeldBy (s.loseOthers id number) id' row task := by
  cases task with
  | claim m | settlement m =>
    obtain ⟨d, hd, hid, hrest⟩ := h
    exact ⟨d, loseOthers_kept hd fun heq => absurd (hid.symm.trans heq) hne, hid, hrest⟩
  | renewal m =>
    obtain ⟨d, now, hd, hid, hrest⟩ := h
    exact ⟨d, now, loseOthers_kept hd fun heq => absurd (hid.symm.trans heq) hne, hid, hrest⟩

theorem Inv.loseOthers (h : Inv s) (hfree : s.table.held id = none)
    (hrun : ∀ row, s.table.committed id = some row → row.status = .running →
      ∃ t m, row.lastAttemptAt = some t ∧ s.stamp id t = some m ∧ number = some m) :
    Inv (s.loseOthers id number) where
  rows := h.rows
  attempts := by
    intro m d hd
    obtain ⟨c, hc, hdc, -⟩ := loseOthers_cases hd
    rw [hdc]
    exact h.attempts m c hc
  stamps := by
    intro m d hd t ht
    obtain ⟨c, hc, hdc, -⟩ := loseOthers_cases hd
    rw [hdc] at ht ⊢
    exact h.stamps m c hc t ht.of_lost
  running := by
    intro id' row hrow hrunning
    obtain ⟨t, m, d, hlast, hstamp, hd, hid, hlost⟩ := h.running id' row hrow hrunning
    refine ⟨t, m, d, hlast, hstamp, loseOthers_kept hd ?_, hid, hlost⟩
    intro heq
    have hsame : id' = id := hid.symm.trans heq
    rw [hsame] at hrow hstamp
    obtain ⟨t', m', hlast', hstamp', hnumber⟩ := hrun row hrow hrunning
    rw [hlast] at hlast'
    cases hlast'
    rw [hstamp] at hstamp'
    cases hstamp'
    exact hnumber
  held := by
    intro id' task row hrow
    apply (h.held id' task row hrow).loseOthers
    intro heq
    rw [heq] at hrow
    change s.table.held id = _ at hrow
    rw [hfree] at hrow
    cases hrow
  unique := by
    intro k m c d hc hd hid hcs hds hcl hdl
    obtain ⟨c0, hc0, -, hcsame, -⟩ := loseOthers_cases hc
    obtain ⟨d0, hd0, -, hdsame, -⟩ := loseOthers_cases hd
    obtain ⟨rfl, -⟩ := hcsame hcl
    obtain ⟨rfl, -⟩ := hdsame hdl
    exact h.unique k m c d hc0 hd0 hid hcs hds hcl hdl

end Cognis.ToolClassification
