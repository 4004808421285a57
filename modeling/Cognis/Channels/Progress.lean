import Cognis.Channels.Delivery

/-! What the row says of the chunks the channel has taken, and what a worker knows of the
row while it holds its lease. -/

namespace Cognis.Channels

open List

variable (splitMarkdown : String → Nat → List String) (deliveryId : String)

def acceptedOf (p : Projection) : List Accepted :=
  (p.chunks splitMarkdown).mapIdx fun i chunk => ⟨i, chunk, idempotencyKey deliveryId p i⟩

def RowStatus.terminal (status : RowStatus) : Prop :=
  status = .uncertain ∨ status = .suppressed ∨ status = .sent

/-- The row of a projection: what is recorded has been taken, and one more chunk at most,
which is in flight and is not sent again unless it has a key. -/
structure Tracks (row : Row) (accepted : List Accepted) (p : Projection) : Prop where
  projected : row.projectedChunkCount = some (p.chunks splitMarkdown).length
  completed_le : row.completedChunkCount ≤ (p.chunks splitMarkdown).length
  inflight : ∀ i, row.inflightChunkIndex = some i →
    i = row.completedChunkCount ∧ i < (p.chunks splitMarkdown).length ∧
      row.inflightIdempotent = some (chunkIdempotent deliveryId p)
  accepted_eq : accepted = (acceptedOf splitMarkdown deliveryId p).take accepted.length
  count : accepted.length = row.completedChunkCount ∨
    (accepted.length = row.completedChunkCount + 1 ∧
      row.inflightChunkIndex = some row.completedChunkCount)
  retry : accepted.length = row.completedChunkCount + 1 →
    chunkIdempotent deliveryId p = false → row.status ≠ .pending ∧ row.status ≠ .failed

/-- What the row says of its progress agrees with what the channel accepted. -/
structure RowSound (row : Row) (accepted : List Accepted) : Prop where
  blank : row.projectionDigest = none →
    row.projectedChunkCount = none ∧ row.completedChunkCount = 0 ∧
      row.inflightChunkIndex = none ∧ accepted = []
  tracks : ∀ p, row.projectionDigest = some p → Tracks splitMarkdown deliveryId row accepted p
  leased : ∀ token, row.leaseToken = some token → row.status = .sending
  sent : row.status = .sent → row.projectedChunkCount = some row.completedChunkCount

/-- The progress of the row as a worker left it under its lease; `exposed` when it has sent
the chunk in flight without a key, `acked` when the channel has answered that send. -/
structure Held where
  completed : Nat
  projected : Option Nat
  digest : Option Projection
  inflight : Option Nat
  idempotent : Option Bool
  exposed : Bool := false
  acked : Bool := false
  deriving DecidableEq

def Row.held (row : Row) : Held where
  completed := row.completedChunkCount
  projected := row.projectedChunkCount
  digest := row.projectionDigest
  inflight := row.inflightChunkIndex
  idempotent := row.inflightIdempotent

def Held.Right (h : Held) : Prop :=
  ∃ i p, h.inflight = some i ∧ h.digest = some p ∧ chunkIdempotent deliveryId p = false

/-- What a worker holds, against the row and the channel; `owner` made the last claim. -/
structure HeldSound (owner : Option Nat) (row : Row) (accepted : List Accepted) (token : Nat)
    (h : Held) : Prop where
  held_eq : row.leaseToken = some token → row.held = { h with exposed := false, acked := false } ∧
      ∀ p, row.projectionDigest = some p → chunkIdempotent deliveryId p = false →
        accepted.length = row.completedChunkCount + 1 → h.exposed = true
  completed_le : h.completed ≤ row.completedChunkCount
  digest : ∀ p, h.digest = some p → row.projectionDigest = some p
  inflight : ∀ i, h.inflight = some i →
    i = h.completed ∧ (row.completedChunkCount = i → row.inflightChunkIndex = some i) ∧
      ∃ p, h.digest = some p ∧ h.projected = some (p.chunks splitMarkdown).length ∧
        i < (p.chunks splitMarkdown).length
  right : h.Right deliveryId →
    owner = some token ∧ (row.leaseToken = some token ∨ row.status.terminal)
  unsent : ∀ i, h.inflight = some i → h.Right deliveryId → h.exposed = false → accepted.length = i
  acked : h.acked = true → ∀ i, h.inflight = some i → i < accepted.length

def Agrees (owner : Option Nat) (row : Row) (accepted : List Accepted) (token : Nat) :
    Option Held → Prop
  | none => row.leaseToken ≠ some token
  | some h => HeldSound splitMarkdown deliveryId owner row accepted token h

variable {splitMarkdown deliveryId} {owner owner' : Option Nat} {row row' : Row}
  {accepted accepted' : List Accepted} {token : Nat} {h : Held} {p : Projection}

theorem not_terminal_of_sending (h : row.status = .sending) : ¬ row.status.terminal := by
  rintro (hstatus | hstatus | hstatus) <;> rw [h] at hstatus <;> cases hstatus

section

variable (hh : HeldSound splitMarkdown deliveryId owner row accepted token h)

include hh

theorem HeldSound.not_right (hlease : row.leaseToken ≠ some token)
    (hstatus : ¬ row.status.terminal) : ¬ h.Right deliveryId := by
  intro hright
  rcases (hh.right hright).2 with hown | hterminal
  · exact hlease hown
  · exact hstatus hterminal

theorem HeldSound.frame (hlease : row'.leaseToken ≠ some token)
    (hcompleted : row.completedChunkCount ≤ row'.completedChunkCount)
    (hdigest : ∀ p, row.projectionDigest = some p → row'.projectionDigest = some p)
    (hinflight : ∀ i, row.inflightChunkIndex = some i → row.completedChunkCount = i →
      row'.completedChunkCount = i → row'.inflightChunkIndex = some i)
    (haccepted : accepted.length ≤ accepted'.length)
    (hright : h.Right deliveryId → owner' = owner ∧ accepted'.length = accepted.length ∧
      row'.status.terminal) :
    HeldSound splitMarkdown deliveryId owner' row' accepted' token h where
  held_eq hown := absurd hown hlease
  completed_le := hh.completed_le.trans hcompleted
  digest p hp := hdigest p (hh.digest p hp)
  inflight i hi := by
    obtain ⟨heq, hrow, hp⟩ := hh.inflight i hi
    refine ⟨heq, ?_, hp⟩
    intro hcount
    have hle := hh.completed_le
    have hsame : row.completedChunkCount = i := by omega
    exact hinflight i (hrow hsame) hsame hcount
  right hr := by
    obtain ⟨howner, -, hterminal⟩ := hright hr
    exact ⟨howner.trans (hh.right hr).1, .inr hterminal⟩
  unsent i hi hr hexposed := by
    obtain ⟨-, hlength, -⟩ := hright hr
    exact hlength.trans (hh.unsent i hi hr hexposed)
  acked hacked i hi := Nat.lt_of_lt_of_le (hh.acked hacked i hi) haccepted

theorem HeldSound.renew (t : Option Nat) :
    HeldSound splitMarkdown deliveryId owner { row with leaseExpiresAt := t } accepted token h :=
  ⟨hh.held_eq, hh.completed_le, hh.digest, hh.inflight, hh.right, hh.unsent, hh.acked⟩

theorem HeldSound.accept (haccepted : accepted.length ≤ accepted'.length)
    (hright : ¬ h.Right deliveryId)
    (hkeyed : row.leaseToken = some token → ∀ p, row.projectionDigest = some p →
      chunkIdempotent deliveryId p) :
    HeldSound splitMarkdown deliveryId owner row accepted' token h where
  held_eq hown := by
    refine ⟨(hh.held_eq hown).1, ?_⟩
    intro p hp hflag
    rw [hkeyed hown p hp] at hflag
    cases hflag
  completed_le := hh.completed_le
  digest := hh.digest
  inflight := hh.inflight
  right hr := absurd hr hright
  unsent i _ hr := absurd hr hright
  acked hacked i hi := Nat.lt_of_lt_of_le (hh.acked hacked i hi) haccepted

end

/-- The row after its lease is given up: its progress stays, and a chunk in flight is
forgotten only when all are recorded. -/
structure Released (row row' : Row) : Prop where
  lease : row'.leaseToken = none
  digest : row'.projectionDigest = row.projectionDigest
  projected : row'.projectedChunkCount = row.projectedChunkCount
  completed : row'.completedChunkCount = row.completedChunkCount
  inflight : (row'.inflightChunkIndex = row.inflightChunkIndex ∧
      row'.inflightIdempotent = row.inflightIdempotent) ∨
    (row'.inflightChunkIndex = none ∧ row.projectedChunkCount = some row.completedChunkCount)
  sent : row'.status = .sent → row.projectedChunkCount = some row.completedChunkCount
  deliveryId : row'.deliveryId = row.deliveryId
  fallbackText : row'.fallbackText = row.fallbackText

theorem RowSound.inflight_none (hrow : RowSound splitMarkdown deliveryId row accepted)
    (hcomplete : row.projectedChunkCount = some row.completedChunkCount) :
    row.inflightChunkIndex = none := by
  cases hdigest : row.projectionDigest with
  | none => exact (hrow.blank hdigest).2.2.1
  | some p =>
    have htracks := hrow.tracks p hdigest
    cases hinflight : row.inflightChunkIndex with
    | none => rfl
    | some i =>
      obtain ⟨heq, hlt, -⟩ := htracks.inflight i hinflight
      rw [htracks.projected, Option.some.injEq] at hcomplete
      omega

theorem Released.inflight_eq (h : Released row row')
    (hrow : RowSound splitMarkdown deliveryId row accepted) :
    row'.inflightChunkIndex = row.inflightChunkIndex := by
  rcases h.inflight with hsame | ⟨hnone, hcomplete⟩
  · exact hsame.1
  · rw [hnone, hrow.inflight_none hcomplete]

theorem RowSound.release (hrow : RowSound splitMarkdown deliveryId row accepted)
    (h : Released row row')
    (hretry : ∀ p, row.projectionDigest = some p → chunkIdempotent deliveryId p = false →
      accepted.length = row.completedChunkCount + 1 →
      row'.status ≠ .pending ∧ row'.status ≠ .failed) :
    RowSound splitMarkdown deliveryId row' accepted where
  blank hdigest := by
    rw [h.digest] at hdigest
    obtain ⟨hprojected, hcompleted, hinflight, haccepted⟩ := hrow.blank hdigest
    exact ⟨h.projected.trans hprojected, h.completed.trans hcompleted,
      (h.inflight_eq hrow).trans hinflight, haccepted⟩
  tracks p hdigest := by
    rw [h.digest] at hdigest
    have htracks := hrow.tracks p hdigest
    refine ⟨h.projected.trans htracks.projected, ?_, ?_, htracks.accepted_eq, ?_, ?_⟩
    · rw [h.completed]
      exact htracks.completed_le
    · intro i hi
      rcases h.inflight with hsame | ⟨hnone, -⟩
      · rw [hsame.1] at hi
        rw [h.completed, hsame.2]
        exact htracks.inflight i hi
      · rw [hnone] at hi
        cases hi
    · rw [h.completed, h.inflight_eq hrow]
      exact htracks.count
    · rw [h.completed]
      intro hlength hflag
      exact hretry p hdigest hflag hlength
  leased token hlease := by
    rw [h.lease] at hlease
    cases hlease
  sent hsent := by
    rw [h.projected, h.completed]
    exact h.sent hsent

theorem HeldSound.release (hh : HeldSound splitMarkdown deliveryId owner row accepted token h)
    (hrow : RowSound splitMarkdown deliveryId row accepted) (hreleased : Released row row')
    (hright : h.Right deliveryId → row'.status.terminal) :
    HeldSound splitMarkdown deliveryId owner row' accepted token h := by
  apply hh.frame
  · rw [hreleased.lease]
    nofun
  · rw [hreleased.completed]
  · intro p hp
    rw [hreleased.digest, hp]
  · intro i hi _ _
    rw [hreleased.inflight_eq hrow, hi]
  · exact Nat.le_refl _
  · intro hr
    exact ⟨rfl, rfl, hright hr⟩

variable {k : Option Held} {other : Nat}

theorem Agrees.release (hk : Agrees splitMarkdown deliveryId owner row accepted token k)
    (hrow : RowSound splitMarkdown deliveryId row accepted) (hreleased : Released row row')
    (hright : ∀ h, k = some h → h.Right deliveryId → row'.status.terminal) :
    Agrees splitMarkdown deliveryId owner row' accepted token k := by
  cases k with
  | none =>
    intro hlease
    rw [hreleased.lease] at hlease
    cases hlease
  | some h => exact HeldSound.release hk hrow hreleased (hright h rfl)

theorem HeldSound.not_right_of_idle
    (hh : HeldSound splitMarkdown deliveryId owner row accepted token h)
    (hrow : RowSound splitMarkdown deliveryId row accepted)
    (hstatus : row.status = .pending ∨ row.status = .failed) : ¬ h.Right deliveryId := by
  apply hh.not_right
  · intro hlease
    have hsending := hrow.leased token hlease
    rcases hstatus with hpending | hfailed
    · rw [hpending] at hsending
      cases hsending
    · rw [hfailed] at hsending
      cases hsending
  · rintro (hterminal | hterminal | hterminal) <;> rw [hterminal] at hstatus <;> simp at hstatus

theorem RowSound.tracks_of_inflight (hrow : RowSound splitMarkdown deliveryId row accepted)
    {i : Nat} (hi : row.inflightChunkIndex = some i) :
    ∃ p, row.projectionDigest = some p ∧ Tracks splitMarkdown deliveryId row accepted p := by
  cases hdigest : row.projectionDigest with
  | none =>
    rw [(hrow.blank hdigest).2.2.1] at hi
    cases hi
  | some p => exact ⟨p, rfl, hrow.tracks p hdigest⟩

def Row.claimed (row : Row) (token expires : Nat) : Row :=
  { row with status := .sending, leaseToken := some token, leaseExpiresAt := some expires }

section

variable {expires : Nat}

theorem RowSound.claimed (hrow : RowSound splitMarkdown deliveryId row accepted) :
    RowSound splitMarkdown deliveryId (row.claimed token expires) accepted where
  blank := hrow.blank
  tracks p hp := by
    have htracks := hrow.tracks p hp
    exact ⟨htracks.projected, htracks.completed_le, htracks.inflight, htracks.accepted_eq,
      htracks.count, fun _ _ => ⟨nofun, nofun⟩⟩
  leased _ _ := rfl
  sent := nofun

theorem HeldSound.claimed (hrow : RowSound splitMarkdown deliveryId row accepted)
    (hstatus : row.status = .pending ∨ row.status = .failed) :
    HeldSound splitMarkdown deliveryId (some token) (row.claimed token expires) accepted token
      (row.claimed token expires).held where
  held_eq _ := by
    refine ⟨rfl, ?_⟩
    intro p hp hflag hlength
    obtain ⟨hpending, hfailed⟩ := (hrow.tracks p hp).retry hlength hflag
    rcases hstatus with h | h
    · exact absurd h hpending
    · exact absurd h hfailed
  completed_le := Nat.le_refl _
  digest _ hp := hp
  inflight i hi := by
    obtain ⟨p, hp, htracks⟩ := hrow.tracks_of_inflight hi
    obtain ⟨heq, hlt, -⟩ := htracks.inflight i hi
    exact ⟨heq, fun _ => hi, p, hp, htracks.projected, hlt⟩
  right _ := ⟨rfl, .inl rfl⟩
  unsent i hi hr _ := by
    obtain ⟨j, p, -, hp, hflag⟩ := hr
    have htracks := hrow.tracks p hp
    obtain ⟨heq, -⟩ := htracks.inflight i hi
    rcases htracks.count with hcount | ⟨hcount, -⟩
    · exact hcount.trans heq.symm
    · obtain ⟨hpending, hfailed⟩ := htracks.retry hcount hflag
      rcases hstatus with h | h
      · exact absurd h hpending
      · exact absurd h hfailed
  acked := nofun

theorem Agrees.claimed (hother : other ≠ token)
    (hk : Agrees splitMarkdown deliveryId owner row accepted other k)
    (hrow : RowSound splitMarkdown deliveryId row accepted)
    (hstatus : row.status = .pending ∨ row.status = .failed) :
    Agrees splitMarkdown deliveryId (some token) (row.claimed token expires) accepted other k := by
  have hlease : (row.claimed token expires).leaseToken ≠ some other := by
    intro hsame
    exact hother (Option.some.inj hsame).symm
  cases k with
  | none => exact hlease
  | some h =>
    apply HeldSound.frame hk hlease (Nat.le_refl _) (fun _ hp => hp) (fun _ hi _ _ => hi)
      (Nat.le_refl _)
    intro hr
    exact absurd hr (HeldSound.not_right_of_idle hk hrow hstatus)

end

def Row.marked (row : Row) (index : Nat) (p : Projection) (projected : Nat) (idempotent : Bool)
    (expires : Nat) : Row :=
  { row with
    projectedChunkCount := some projected
    projectionDigest := some p
    inflightChunkIndex := some index
    inflightIdempotent := some idempotent
    leaseExpiresAt := some expires }

def Held.marked (h : Held) (index : Nat) (p : Projection) (projected : Nat)
    (idempotent : Bool) : Held where
  completed := h.completed
  projected := some projected
  digest := some p
  inflight := some index
  idempotent := some idempotent

/-- What `mark_channel_delivery_chunk_inflight` asks of the row, as its worker knows it. -/
structure Held.Guard (h : Held) (index : Nat) (p : Projection) : Prop where
  completed : h.completed = index
  digest : ∀ q, h.digest = some q → q = p

section

variable {index expires : Nat}

theorem HeldSound.row_eq (hh : HeldSound splitMarkdown deliveryId owner row accepted token h)
    (hlease : row.leaseToken = some token) :
    row.completedChunkCount = h.completed ∧ row.projectedChunkCount = h.projected ∧
      row.projectionDigest = h.digest ∧ row.inflightChunkIndex = h.inflight ∧
      row.inflightIdempotent = h.idempotent := by
  have heq := (hh.held_eq hlease).1
  simp only [Row.held, Held.mk.injEq] at heq
  exact ⟨heq.1, heq.2.1, heq.2.2.1, heq.2.2.2.1, heq.2.2.2.2.1⟩

theorem RowSound.fresh (hrow : RowSound splitMarkdown deliveryId row accepted)
    (hdigest : ∀ q, row.projectionDigest = some q → q = p) :
    row.completedChunkCount ≤ (p.chunks splitMarkdown).length ∧
      accepted = (acceptedOf splitMarkdown deliveryId p).take accepted.length ∧
      (accepted.length = row.completedChunkCount ∨ (accepted.length = row.completedChunkCount + 1 ∧
          row.inflightChunkIndex = some row.completedChunkCount)) := by
  cases hsome : row.projectionDigest with
  | none =>
    obtain ⟨-, hcompleted, -, haccepted⟩ := hrow.blank hsome
    simp [hcompleted, haccepted]
  | some q =>
    obtain rfl := hdigest q hsome
    have htracks := hrow.tracks q hsome
    exact ⟨htracks.completed_le, htracks.accepted_eq, htracks.count⟩

theorem RowSound.marked (hrow : RowSound splitMarkdown deliveryId row accepted)
    (hstatus : row.status = .sending) (hcompleted : row.completedChunkCount = index)
    (hdigest : ∀ q, row.projectionDigest = some q → q = p)
    (hindex : index < (p.chunks splitMarkdown).length) :
    RowSound splitMarkdown deliveryId
      (row.marked index p (p.chunks splitMarkdown).length (chunkIdempotent deliveryId p) expires)
      accepted where
  blank := nofun
  tracks q hq := by
    cases hq
    obtain ⟨hle, haccepted, hcount⟩ := hrow.fresh hdigest
    refine ⟨rfl, hle, ?_, haccepted, ?_, ?_⟩
    · intro i hi
      cases hi
      exact ⟨hcompleted.symm, hindex, rfl⟩
    · rcases hcount with hcount | ⟨hcount, -⟩
      · exact .inl hcount
      · exact .inr ⟨hcount, congrArg some hcompleted.symm⟩
    · intro _ _
      simp [Row.marked, hstatus]
  leased _ _ := hstatus
  sent hsent := by
    rw [Row.marked, hstatus] at hsent
    cases hsent

theorem HeldSound.marked (hh : HeldSound splitMarkdown deliveryId owner row accepted token h)
    (hrow : RowSound splitMarkdown deliveryId row accepted) (hlease : row.leaseToken = some token)
    (howner : owner = some token) (hexposed : h.exposed = false) (hguard : h.Guard index p)
    (hindex : index < (p.chunks splitMarkdown).length) :
    HeldSound splitMarkdown deliveryId owner
      (row.marked index p (p.chunks splitMarkdown).length (chunkIdempotent deliveryId p) expires)
      accepted token
      (h.marked index p (p.chunks splitMarkdown).length (chunkIdempotent deliveryId p)) := by
  obtain ⟨hcompleted, -, hdigest, -, -⟩ := hh.row_eq hlease
  have hrowIndex : row.completedChunkCount = index := hcompleted.trans hguard.completed
  have hrowDigest : ∀ q, row.projectionDigest = some q → q = p := by
    intro q hq
    exact hguard.digest q (hdigest.symm.trans hq)
  have hunsent : chunkIdempotent deliveryId p = false →
      accepted.length ≠ row.completedChunkCount + 1 := by
    intro hflag hlength
    have hsome : row.projectionDigest = some p := by
      cases hnone : row.projectionDigest with
      | none =>
        obtain ⟨-, hzero, -, hnil⟩ := hrow.blank hnone
        simp [hzero, hnil] at hlength
      | some q => rw [hrowDigest q hnone]
    have htrue := (hh.held_eq hlease).2 p hsome hflag hlength
    rw [hexposed] at htrue
    cases htrue
  refine ⟨?_, ?_, ?_, ?_, ?_, ?_, nofun⟩
  · intro _
    refine ⟨?_, ?_⟩
    · simp [Row.held, Row.marked, Held.marked, hcompleted]
    · intro q hq hflag hlength
      cases hq
      exact absurd hlength (hunsent hflag)
  · exact Nat.le_of_eq hcompleted.symm
  · intro q hq
    exact hq
  · intro i hi
    cases hi
    exact ⟨hguard.completed.symm, fun _ => rfl, p, rfl, rfl, hindex⟩
  · intro _
    exact ⟨howner, .inl hlease⟩
  · rintro i hi ⟨j, q, -, hq, hflag⟩ -
    cases hi
    cases hq
    obtain ⟨-, -, hcount⟩ := hrow.fresh hrowDigest
    rcases hcount with hcount | ⟨hcount, -⟩
    · exact hcount.trans hrowIndex
    · exact absurd hcount (hunsent hflag)

theorem HeldSound.not_right_of_other (hother : other ≠ token)
    (hh : HeldSound splitMarkdown deliveryId owner row accepted other h)
    (hlease : row.leaseToken = some token) (hstatus : row.status = .sending) :
    ¬ h.Right deliveryId := by
  apply hh.not_right
  · intro hown
    rw [hlease] at hown
    exact hother (Option.some.inj hown).symm
  · exact not_terminal_of_sending hstatus

/-- What the worker of the lease writes leaves the others as they were. -/
theorem Agrees.of_other (hother : other ≠ token)
    (hk : Agrees splitMarkdown deliveryId owner row accepted other k)
    (hlease : row.leaseToken = some token) (hstatus : row.status = .sending)
    (hlease' : row'.leaseToken = some token)
    (hcompleted : row.completedChunkCount ≤ row'.completedChunkCount)
    (hdigest : ∀ q, row.projectionDigest = some q → row'.projectionDigest = some q)
    (hinflight : ∀ i, row.inflightChunkIndex = some i → row.completedChunkCount = i →
      row'.completedChunkCount = i → row'.inflightChunkIndex = some i) :
    Agrees splitMarkdown deliveryId owner row' accepted other k := by
  have hnotOwn : row'.leaseToken ≠ some other := by
    rw [hlease']
    intro hsame
    exact hother (Option.some.inj hsame).symm
  cases k with
  | none => exact hnotOwn
  | some h =>
    have hheld : HeldSound splitMarkdown deliveryId owner row accepted other h := hk
    exact hheld.frame hnotOwn hcompleted hdigest hinflight (Nat.le_refl _) fun hr =>
      absurd hr (hheld.not_right_of_other hother hlease hstatus)

theorem Agrees.marked {projected : Nat} {idempotent : Bool}
    (hother : other ≠ token) (hk : Agrees splitMarkdown deliveryId owner row accepted other k)
    (hlease : row.leaseToken = some token) (hstatus : row.status = .sending)
    (hcompleted : row.completedChunkCount = index)
    (hdigest : ∀ q, row.projectionDigest = some q → q = p) :
    Agrees splitMarkdown deliveryId owner (row.marked index p projected idempotent expires)
      accepted other k := by
  apply hk.of_other hother hlease hstatus
  · exact hlease
  · exact Nat.le_refl _
  · intro q hq
    exact congrArg some (hdigest q hq).symm
  · intro i _ hi _
    exact congrArg some (hcompleted.symm.trans hi)

end

def Row.saved (row : Row) (index : Nat) (p : Projection) (projected : Nat) (receipt : Receipt)
    (expires : Nat) : Row :=
  { row with
    completedChunkCount := index + 1
    projectedChunkCount := some projected
    projectionDigest := some p
    inflightChunkIndex := none
    inflightIdempotent := none
    leaseExpiresAt := some expires
    deliveryReceipts := row.deliveryReceipts ++ [receipt] }

def Held.saved (index : Nat) (p : Projection) (projected : Nat) : Held where
  completed := index + 1
  projected := some projected
  digest := some p
  inflight := none
  idempotent := none

/-- A worker that may record the receipt of a chunk. -/
structure Held.Acked (h : Held) (index : Nat) (p : Projection) (projected : Nat) : Prop where
  inflight : h.inflight = some index
  digest : h.digest = some p
  projected : h.projected = some projected
  acked : h.acked = true

section

variable {index projected expires : Nat} {receipt : Receipt}

theorem HeldSound.acked_count (hh : HeldSound splitMarkdown deliveryId owner row accepted token h)
    (hrow : RowSound splitMarkdown deliveryId row accepted) (hlease : row.leaseToken = some token)
    (hacked : h.Acked index p projected) :
    Tracks splitMarkdown deliveryId row accepted p ∧ row.completedChunkCount = index ∧
      row.projectedChunkCount = some projected ∧ accepted.length = index + 1 := by
  obtain ⟨hcompleted, hprojected, hdigest, -, -⟩ := hh.row_eq hlease
  have htracks := hrow.tracks p (hdigest.trans hacked.digest)
  have hindex := (hh.inflight index hacked.inflight).1
  have hlt := hh.acked hacked.acked index hacked.inflight
  refine ⟨htracks, hcompleted.trans hindex.symm, hprojected.trans hacked.projected, ?_⟩
  rcases htracks.count with hcount | ⟨hcount, -⟩ <;> omega

theorem rowSound_saved
    (hstatus : row.status = .sending) (htracks : Tracks splitMarkdown deliveryId row accepted p)
    (hprojected : row.projectedChunkCount = some projected)
    (hcount : accepted.length = index + 1) :
    RowSound splitMarkdown deliveryId (row.saved index p projected receipt expires) accepted where
  blank := nofun
  tracks q hq := by
    cases hq
    have hlength : (acceptedOf splitMarkdown deliveryId p).length =
        (p.chunks splitMarkdown).length := by simp [acceptedOf]
    have hle : accepted.length ≤ (p.chunks splitMarkdown).length := by
      have htake := congrArg length htracks.accepted_eq
      rw [length_take] at htake
      omega
    refine ⟨?_, ?_, nofun, htracks.accepted_eq, .inl hcount, ?_⟩
    · exact hprojected.symm.trans htracks.projected
    · rw [hcount] at hle
      exact hle
    · intro _ _
      simp [Row.saved, hstatus]
  leased _ _ := hstatus
  sent hsent := by
    rw [Row.saved, hstatus] at hsent
    cases hsent

theorem HeldSound.saved (hcount : accepted.length = index + 1) :
    HeldSound splitMarkdown deliveryId owner (row.saved index p projected receipt expires)
      accepted token (Held.saved index p projected) where
  held_eq _ := by
    refine ⟨rfl, ?_⟩
    intro _ _ _ hlength
    simp [Row.saved, hcount] at hlength
  completed_le := Nat.le_refl _
  digest _ hq := hq
  inflight := nofun
  right := by
    rintro ⟨i, q, hi, -, -⟩
    cases hi
  unsent := nofun
  acked := nofun

theorem Agrees.saved (hother : other ≠ token)
    (hk : Agrees splitMarkdown deliveryId owner row accepted other k)
    (hlease : row.leaseToken = some token) (hstatus : row.status = .sending)
    (hcompleted : row.completedChunkCount = index)
    (hdigest : row.projectionDigest = some p) :
    Agrees splitMarkdown deliveryId owner (row.saved index p projected receipt expires)
      accepted other k := by
  apply hk.of_other hother hlease hstatus
  · exact hlease
  · simp [Row.saved, hcompleted]
  · intro q hq
    rw [hdigest] at hq
    exact hq
  · intro i _ hi hnext
    have hsucc : index + 1 = i := hnext
    omega

end

section

variable {index : Nat} {chunk : String}

/-- The message is the chunk that is marked as in flight. -/
structure Held.Sendable (h : Held) (splitMarkdown : String → Nat → List String)
    (deliveryId : String) (index : Nat) (message : OutboundMessage) (p : Projection) : Prop where
  inflight : h.inflight = some index
  digest : h.digest = some p
  chunk : (p.chunks splitMarkdown)[index]? = some message.content
  key : message.idempotencyKey = idempotencyKey deliveryId p index
  exposed : h.exposed = false

variable {message : OutboundMessage}

theorem getElem?_acceptedOf (hchunk : (p.chunks splitMarkdown)[index]? = some message.content)
    (hkey : message.idempotencyKey = idempotencyKey deliveryId p index) :
    (acceptedOf splitMarkdown deliveryId p)[index]? =
      some ⟨index, message.content, message.idempotencyKey⟩ := by
  simp [acceptedOf, hchunk, hkey]

theorem any_key_take (n : Nat) (hchunk : (p.chunks splitMarkdown)[index]? = some message.content)
    (hkey : message.idempotencyKey = idempotencyKey deliveryId p index)
    (hflag : chunkIdempotent deliveryId p) :
    ((acceptedOf splitMarkdown deliveryId p).take n).any
      (fun a => a.idempotencyKey == message.idempotencyKey) = decide (index < n) := by
  rw [Bool.eq_iff_iff, any_eq_true, decide_eq_true_iff]
  constructor
  · rintro ⟨a, ha, hsame⟩
    obtain ⟨j, hj⟩ := mem_iff_getElem?.mp ha
    rw [getElem?_take] at hj
    split at hj
    · simp only [acceptedOf, getElem?_mapIdx, Option.map_eq_some_iff] at hj
      obtain ⟨c, -, rfl⟩ := hj
      simp [hkey, idempotencyKey, hflag] at hsame
      omega
    · cases hj
  · intro hlt
    refine ⟨⟨index, message.content, message.idempotencyKey⟩, ?_, by simp⟩
    apply mem_of_getElem? (i := index)
    rw [getElem?_take_of_lt hlt]
    exact getElem?_acceptedOf hchunk hkey

theorem HeldSound.accept_eq (hh : HeldSound splitMarkdown deliveryId owner row accepted token h)
    (hrow : RowSound splitMarkdown deliveryId row accepted)
    (hsend : h.Sendable splitMarkdown deliveryId index message p) :
    Tracks splitMarkdown deliveryId row accepted p ∧
      ((Channels.accept accepted index message = accepted ∧ index < accepted.length ∧
          chunkIdempotent deliveryId p) ∨
        (Channels.accept accepted index message =
            accepted ++ [⟨index, message.content, message.idempotencyKey⟩] ∧
          accepted.length = index ∧ row.completedChunkCount = index ∧
          row.inflightChunkIndex = some index)) := by
  have hrowDigest := hh.digest p hsend.digest
  have htracks := hrow.tracks p hrowDigest
  obtain ⟨hindex, hinflight, -⟩ := hh.inflight index hsend.inflight
  have hle := hh.completed_le
  refine ⟨htracks, ?_⟩
  cases hflag : chunkIdempotent deliveryId p with
  | true =>
    have hany := any_key_take accepted.length hsend.chunk hsend.key hflag
    rw [← htracks.accepted_eq] at hany
    have hsome : message.idempotencyKey.isSome := by
      simp [hsend.key, idempotencyKey, hflag]
    unfold Channels.accept
    rw [hsome, hany, Bool.true_and]
    by_cases hlt : index < accepted.length
    · left
      simp [hlt]
    · right
      have hcompleted : row.completedChunkCount = index := by
        rcases htracks.count with hcount | ⟨hcount, -⟩ <;> omega
      have hlength : accepted.length = index := by
        rcases htracks.count with hcount | ⟨hcount, -⟩ <;> omega
      simp [hlength, hcompleted, hinflight]
  | false =>
    right
    have hright : h.Right deliveryId := ⟨index, p, hsend.inflight, hsend.digest, hflag⟩
    have hlength := hh.unsent index hsend.inflight hright hsend.exposed
    have hcompleted : row.completedChunkCount = index := by
      rcases htracks.count with hcount | ⟨hcount, -⟩ <;> omega
    have hnone : message.idempotencyKey = none := by
      simp [hsend.key, idempotencyKey, hflag]
    refine ⟨?_, hlength, hcompleted, hinflight hcompleted⟩
    simp [Channels.accept, hnone]

theorem length_accept_le : accepted.length ≤ (accept accepted index message).length := by
  unfold accept
  split <;> simp

theorem RowSound.accept (hrow : RowSound splitMarkdown deliveryId row accepted)
    (hh : HeldSound splitMarkdown deliveryId owner row accepted token h)
    (hsend : h.Sendable splitMarkdown deliveryId index message p) :
    RowSound splitMarkdown deliveryId row (Channels.accept accepted index message) := by
  obtain ⟨htracks, hcase⟩ := hh.accept_eq hrow hsend
  have hrowDigest := hh.digest p hsend.digest
  rcases hcase with ⟨heq, -, -⟩ | ⟨heq, hlength, hcompleted, hinflight⟩
  · rw [heq]
    exact hrow
  · rw [heq]
    refine ⟨?_, ?_, hrow.leased, hrow.sent⟩
    · intro hnone
      rw [hrowDigest] at hnone
      cases hnone
    · intro q hq
      rw [hrowDigest] at hq
      cases hq
      refine ⟨htracks.projected, htracks.completed_le, htracks.inflight, ?_, ?_, ?_⟩
      · have hget : (acceptedOf splitMarkdown deliveryId p)[index]? =
            some ⟨index, message.content, message.idempotencyKey⟩ :=
          getElem?_acceptedOf hsend.chunk hsend.key
        rw [length_append, length_singleton, take_add_one, ← htracks.accepted_eq, hlength, hget]
        rfl
      · right
        simp [hlength, hcompleted, hinflight]
      · intro _ hflag
        have hright : h.Right deliveryId := ⟨index, p, hsend.inflight, hsend.digest, hflag⟩
        rcases (hh.right hright).2 with hlease | hterminal
        · rw [hrow.leased token hlease]
          exact ⟨nofun, nofun⟩
        · rcases hterminal with h | h | h <;> rw [h] <;> exact ⟨nofun, nofun⟩

def Held.sent (h : Held) (message : OutboundMessage) (acked : Bool) : Held :=
  { h with exposed := message.idempotencyKey.isNone, acked := acked }

theorem HeldSound.sent (hh : HeldSound splitMarkdown deliveryId owner row accepted token h)
    (hrow : RowSound splitMarkdown deliveryId row accepted)
    (hsend : h.Sendable splitMarkdown deliveryId index message p) {taken acked : Bool}
    (hacked : acked → taken) :
    HeldSound splitMarkdown deliveryId owner row
      (if taken then Channels.accept accepted index message else accepted) token
      (h.sent message acked) := by
  obtain ⟨_, hcase⟩ := hh.accept_eq hrow hsend
  have hnone : chunkIdempotent deliveryId p = false → message.idempotencyKey.isNone := by
    intro hflag
    simp [hsend.key, idempotencyKey, hflag]
  have hright : (h.sent message acked).Right deliveryId → chunkIdempotent deliveryId p = false := by
    rintro ⟨i, q, -, hq, hflag⟩
    have hsame : h.digest = some q := hq
    rw [hsend.digest] at hsame
    exact (Option.some.inj hsame).symm ▸ hflag
  refine ⟨?_, hh.completed_le, hh.digest, hh.inflight, hh.right, ?_, ?_⟩
  · intro hlease
    refine ⟨(hh.held_eq hlease).1, ?_⟩
    intro q hq hflag _
    rw [hh.digest p hsend.digest] at hq
    cases hq
    exact hnone hflag
  · intro i _ hr hexposed
    have hsome : message.idempotencyKey.isNone = false := hexposed
    rw [hnone (hright hr)] at hsome
    cases hsome
  · intro htrue i hi
    rw [if_pos (hacked htrue)]
    have hsame : h.inflight = some i := hi
    rw [hsend.inflight] at hsame
    cases hsame
    rcases hcase with ⟨heq, hlt, -⟩ | ⟨heq, hlength, -⟩
    · rw [heq]
      exact hlt
    · rw [heq]
      simp [hlength]

theorem Agrees.accept (hother : other ≠ token)
    (hk : Agrees splitMarkdown deliveryId owner row accepted other k)
    (hrow : RowSound splitMarkdown deliveryId row accepted)
    (hh : HeldSound splitMarkdown deliveryId owner row accepted token h)
    (hsend : h.Sendable splitMarkdown deliveryId index message p) :
    Agrees splitMarkdown deliveryId owner row (Channels.accept accepted index message) other k := by
  cases k with
  | none => exact hk
  | some g =>
    have hheld : HeldSound splitMarkdown deliveryId owner row accepted other g := hk
    have hrowDigest := hh.digest p hsend.digest
    have hrightOf : chunkIdempotent deliveryId p = false → h.Right deliveryId := by
      intro hflag
      exact ⟨index, p, hsend.inflight, hsend.digest, hflag⟩
    apply HeldSound.accept hheld length_accept_le
    · intro hr
      obtain ⟨i, q, -, hq, hflag⟩ := id hr
      have hsame := hheld.digest q hq
      rw [hrowDigest] at hsame
      cases hsame
      have howner := (hh.right (hrightOf hflag)).1
      rw [(hheld.right hr).1] at howner
      exact hother (Option.some.inj howner)
    · intro hlease q hq
      rw [hrowDigest] at hq
      cases hq
      by_contra hflag
      have hright := hrightOf (Bool.eq_false_of_not_eq_true hflag)
      rcases (hh.right hright).2 with hown | hterminal
      · rw [hlease] at hown
        exact hother (Option.some.inj hown)
      · exact not_terminal_of_sending (hrow.leased other hlease) hterminal

end

end Cognis.Channels
