import Cognis.Channels.Progress

/-! Each transaction on the row and each send, by what it leaves to its worker and to the
others. -/

namespace Cognis.Channels

open Bool

variable {splitMarkdown : String → Nat → List String} {deliveryId : String}
  {owner owner' : Option Nat} {row row' : Row} {accepted accepted' : List Accepted} {token : Nat}

/-- A worker has sent nothing without a key that is not recorded. -/
def Unexposed (k : Option Held) : Prop := ∃ h, k = some h ∧ h.exposed = false

/-- What a worker may ask of the row and of the channel, by what it holds. -/
def Demand (splitMarkdown : String → Nat → List String) (deliveryId : String) (token : Nat)
    (k : Option Held) : Op → Prop
  | .update (.claim t _) => t = token
  | .update (.markSent _ requireCompleteChunks) => requireCompleteChunks = true
  | .update (.markChunkInflight t index projected p idempotent) =>
    t = token ∧ projected = (p.chunks splitMarkdown).length ∧
      index < (p.chunks splitMarkdown).length ∧ idempotent = chunkIdempotent deliveryId p ∧
      Unexposed k
  | .update (.markChunkSent t completed projected p _) =>
    t = token ∧ ∃ h index, k = some h ∧ completed = index + 1 ∧ h.Acked index p projected
  | .update (.markFailed t _) => t = token ∧ Unexposed k
  | .send index message =>
    ∃ h p, k = some h ∧ h.Sendable splitMarkdown deliveryId index message p
  | _ => True

def LearnsUpdate (deliveryId : String) (u : Update) (reply : Option (Bool × Row))
    (k k' : Option Held) : Prop :=
  match u with
  | .claim _ _ => ∀ row, reply = some (true, row) →
      row.deliveryId = deliveryId ∧ row.fallbackText ≠ "" ∧ k' = some row.held
  | .markChunkInflight _ index projected p idempotent =>
    (∃ h, k = some h ∧ h.Guard index p ∧ k' = some (h.marked index p projected idempotent)) ∨
      (k' = k ∧ ∀ row, reply ≠ some (true, row))
  | .markChunkSent _ completed projected p _ =>
    k' = some (Held.saved (completed - 1) p projected) ∨ (k' = k ∧ ∀ row, reply ≠ some (true, row))
  | .markFailed _ _ => k' = none ∨ k' = k
  | _ => k' = k

def SendReply.acked : SendReply → Bool
  | .messageId _ => true
  | _ => false

def Learns (deliveryId : String) (k : Option Held) (o : Op) (reply : o.Reply)
    (k' : Option Held) : Prop :=
  match o, reply with
  | .update u, reply => LearnsUpdate deliveryId u reply k k'
  | .send _ message, reply => ∃ h, k = some h ∧ k' = some (h.sent message reply.acked)
  | _, _ => k' = k

/-- What a commit of one sender keeps for itself and for all others. -/
structure Moves (splitMarkdown : String → Nat → List String) (deliveryId : String)
    (owner owner' : Option Nat) (row row' : Row) (accepted accepted' : List Accepted)
    (token : Nat) : Prop where
  sound : RowSound splitMarkdown deliveryId row' accepted'
  others : ∀ other k, other ≠ token → Agrees splitMarkdown deliveryId owner row accepted other k →
    Agrees splitMarkdown deliveryId owner' row' accepted' other k
  owned : ∀ t, row'.leaseToken = some t → owner' = some t
  deliveryId_eq : row'.deliveryId = row.deliveryId
  fallbackText_eq : row'.fallbackText = row.fallbackText
  lease : ∀ t, row'.leaseToken = some t → t = token ∨ row.leaseToken = some t

/-- The row is sound, and its lease is the owner's. -/
structure Kept (splitMarkdown : String → Nat → List String) (deliveryId : String)
    (owner : Option Nat) (row : Row) (accepted : List Accepted) : Prop where
  sound : RowSound splitMarkdown deliveryId row accepted
  owned : ∀ t, row.leaseToken = some t → owner = some t

theorem Kept.stays (h : Kept splitMarkdown deliveryId owner row accepted) :
    Moves splitMarkdown deliveryId owner owner row row accepted accepted token where
  sound := h.sound
  others _ _ _ hk := hk
  owned := h.owned
  deliveryId_eq := rfl
  fallbackText_eq := rfl
  lease _ ht := .inr ht

theorem Kept.releases (h : Kept splitMarkdown deliveryId owner row accepted)
    (hreleased : Released row row')
    (hretry : ∀ p, row.projectionDigest = some p → chunkIdempotent deliveryId p = false →
      accepted.length = row.completedChunkCount + 1 →
      row'.status ≠ .pending ∧ row'.status ≠ .failed)
    (hright : ∀ other g, other ≠ token →
      HeldSound splitMarkdown deliveryId owner row accepted other g → g.Right deliveryId →
      row'.status.terminal) :
    Moves splitMarkdown deliveryId owner owner row row' accepted accepted token where
  sound := h.sound.release hreleased hretry
  others other k hother hk := by
    apply Agrees.release hk h.sound hreleased
    intro g hg
    subst hg
    exact hright other g hother hk
  owned t ht := by
    rw [hreleased.lease] at ht
    cases ht
  deliveryId_eq := hreleased.deliveryId
  fallbackText_eq := hreleased.fallbackText
  lease t ht := by
    rw [hreleased.lease] at ht
    cases ht

variable {status : RowStatus} {now : Nat}

theorem RowStatus.terminal.not_retried (h : status.terminal) :
    status ≠ .pending ∧ status ≠ .failed := by
  rcases h with h | h | h <;> rw [h] <;> exact ⟨nofun, nofun⟩

theorem Kept.settles (h : Kept splitMarkdown deliveryId owner row accepted)
    (hreleased : Released row row') (hterminal : row'.status.terminal)
    {k : Option Held} (hk : Agrees splitMarkdown deliveryId owner row accepted token k) :
    Moves splitMarkdown deliveryId owner owner row row' accepted accepted token ∧
      Agrees splitMarkdown deliveryId owner row' accepted token k := by
  refine ⟨?_, ?_⟩
  · apply h.releases hreleased
    · exact fun _ _ _ _ => hterminal.not_retried
    · exact fun _ _ _ _ _ => hterminal
  · exact Agrees.release hk h.sound hreleased fun _ _ _ => hterminal

theorem leased_iff {t : Nat} :
    row.leased t ↔ row.status = .sending ∧ row.leaseToken = some t := by
  simp [Row.leased]

section

theorem claim_cases (row : Row) (token now : Nat) (ignoreNextAttempt : Bool) :
    row.claim token now ignoreNextAttempt = (false, row) ∨
      ((row.status = .pending ∨ row.status = .failed) ∧ row.claim token now ignoreNextAttempt =
          (true, row.claimed token (now + deliveryLeaseDuration))) := by
  unfold Row.claim Row.updateWhere
  split
  · rename_i hfound
    simp only [and_eq_true, or_eq_true, beq_iff_eq] at hfound
    exact .inr ⟨hfound.1, rfl⟩
  · exact .inl rfl

theorem markChunkInflight_cases (row : Row) (token index projected : Nat) (p : Projection)
    (idempotent : Bool) (now : Nat) :
    row.markChunkInflight token index projected p idempotent now = (false, row) ∨
      (row.leased token ∧ row.completedChunkCount = index ∧
        (∀ q, row.projectionDigest = some q → q = p) ∧
        row.markChunkInflight token index projected p idempotent now =
          (true, row.marked index p projected idempotent (now + deliveryLeaseDuration))) := by
  unfold Row.markChunkInflight Row.updateWhere
  split
  · rename_i hfound
    simp only [and_eq_true, beq_iff_eq] at hfound
    obtain ⟨⟨⟨⟨hleased, hcompleted⟩, -⟩, hdigest⟩, -⟩ := hfound
    refine .inr ⟨hleased, hcompleted, ?_, rfl⟩
    intro q hq
    simpa [hq] using hdigest
  · exact .inl rfl

theorem markChunkSent_cases (row : Row) (token index projected : Nat) (p : Projection)
    (now : Nat) (receipt : Receipt) :
    row.markChunkSent token (index + 1) projected p now receipt = (false, row) ∨
      (row.leased token ∧ row.markChunkSent token (index + 1) projected p now receipt =
          (true, row.saved index p projected receipt (now + deliveryLeaseDuration))) := by
  unfold Row.markChunkSent Row.updateWhere
  split
  · rename_i hfound
    simp only [and_eq_true] at hfound
    exact .inr ⟨hfound.1.1.1, rfl⟩
  · exact .inl rfl

def ReleasesTo (status : RowStatus) (row : Row) (r : Bool × Row) : Prop :=
  r = (false, row) ∨ ∃ row', r = (true, row') ∧ Released row row' ∧ row'.status = status

theorem markFailed_cases (row : Row) (token now : Nat) (lastError : String) :
    row.markFailed token lastError now = (false, row) ∨ (row.leased token ∧
        ∃ row', row.markFailed token lastError now = (true, row') ∧ Released row row' ∧
          row'.status = .failed) := by
  unfold Row.markFailed Row.updateWhere
  split
  · rename_i hfound
    exact .inr ⟨hfound, _, rfl, ⟨rfl, rfl, rfl, rfl, .inl ⟨rfl, rfl⟩, nofun, rfl, rfl⟩, rfl⟩
  · exact .inl rfl

theorem recoverStale_cases (row observed : Row) (now : Nat) :
    row.recoverStale observed now = (false, row) ∨ (row.status = .sending ∧
        ∃ row', row.recoverStale observed now = (true, row') ∧ Released row row' ∧
          (row'.status = .uncertain ∨ (row'.status = .failed ∧
              (row.inflightChunkIndex = none ∨ row.inflightIdempotent = some true)))) := by
  unfold Row.recoverStale Row.updateWhere
  split
  · rename_i hfound
    simp only [and_eq_true, beq_iff_eq] at hfound
    obtain ⟨⟨⟨⟨⟨hstatus, -⟩, -⟩, -⟩, hindex⟩, hidempotent⟩ := hfound
    refine .inr ⟨hstatus, _, rfl, ⟨rfl, rfl, rfl, rfl, .inl ⟨rfl, rfl⟩, ?_, rfl, rfl⟩, ?_⟩
    · split <;> nofun
    · rw [← hindex, ← hidempotent]
      cases row.inflightChunkIndex with
      | none => exact .inr ⟨rfl, .inl rfl⟩
      | some i =>
        by_cases hkey : row.inflightIdempotent = some true
        · exact .inr ⟨by simp [Row.release, hkey], .inr hkey⟩
        · exact .inl (by simp [Row.release, hkey])
  · exact .inl rfl

theorem releasesTo_updateWhere {found : Bool} {values : Row → Row}
    (hreleased : found → Released row (values row))
    (hstatus : (values row).status = status) :
    ReleasesTo status row (row.updateWhere found values) := by
  cases found with
  | false => exact .inl rfl
  | true => exact .inr ⟨_, rfl, hreleased rfl, hstatus⟩

theorem releasesTo_sent {guard : Bool} : ReleasesTo .sent row
      (row.updateWhere (guard && row.projectedChunkCount == some row.completedChunkCount) fun row =>
          { row.release .sent with
            inflightChunkIndex := none
            inflightIdempotent := none
            lastError := none }) := by
  apply releasesTo_updateWhere
  · intro hfound
    rw [and_eq_true, beq_iff_eq] at hfound
    exact ⟨rfl, rfl, rfl, rfl, .inr ⟨rfl, hfound.2⟩, fun _ => hfound.2, rfl, rfl⟩
  · rfl

theorem markSent_cases (row : Row) (token : Nat) :
    ReleasesTo .sent row (row.markSent token true) := releasesTo_sent

theorem completePendingDelivery_cases (row : Row) (token : Nat) (bindingOk : Bool) :
    ReleasesTo .sent row (row.completePendingDelivery token bindingOk) := releasesTo_sent

theorem reconcilePendingDelivery_cases (row : Row) (bindingOk : Bool) :
    ReleasesTo .sent row (row.reconcilePendingDelivery bindingOk) := releasesTo_sent

theorem markUncertain_cases (row : Row) (token : Nat) (lastError : String) :
    ReleasesTo .uncertain row (row.markUncertain token lastError) :=
  releasesTo_updateWhere (fun _ => ⟨rfl, rfl, rfl, rfl, .inl ⟨rfl, rfl⟩, nofun, rfl, rfl⟩) rfl

theorem markPermanentFailure_cases (row : Row) (token : Nat) (lastError : String) :
    ReleasesTo .suppressed row (row.markPermanentFailure token lastError) :=
  releasesTo_updateWhere (fun _ => ⟨rfl, rfl, rfl, rfl, .inl ⟨rfl, rfl⟩, nofun, rfl, rfl⟩) rfl

theorem suppress_cases (row : Row) : ReleasesTo .suppressed row row.suppress :=
  releasesTo_updateWhere (fun _ => ⟨rfl, rfl, rfl, rfl, .inl ⟨rfl, rfl⟩, nofun, rfl, rfl⟩) rfl

theorem abandonPendingDelivery_cases (row : Row) (token : Option Nat)
    (bindingOk uncertain : Bool) (lastError : String) :
    ReleasesTo (if uncertain then .uncertain else .suppressed) row
      (row.abandonPendingDelivery token bindingOk uncertain lastError) := by
  apply releasesTo_updateWhere
  · intro _
    refine ⟨rfl, rfl, rfl, rfl, .inl ⟨rfl, rfl⟩, ?_, rfl, rfl⟩
    intro hsent
    cases uncertain <;> cases hsent
  · rfl

end

/-- A transaction with this result keeps everyone in agreement. -/
def Outcomes (splitMarkdown : String → Nat → List String) (deliveryId : String)
    (owner : Option Nat) (row : Row) (accepted : List Accepted) (token : Nat)
    (k : Option Held) (u : Update) (r : Bool × Row) : Prop :=
  ∃ owner' k', Moves splitMarkdown deliveryId owner owner' row r.2 accepted accepted token ∧
      Agrees splitMarkdown deliveryId owner' r.2 accepted token k' ∧
      LearnsUpdate deliveryId u (some r) k k'

section

variable {k : Option Held} {u : Update}

theorem ne_found {r : Row} : (some (false, row) : Option (Bool × Row)) ≠ some (true, r) := by
  intro h
  have hfound := congrArg (fun o => o.map Prod.fst) h
  simp at hfound

theorem none_ne_found {r : Row} : (none : Option (Bool × Row)) ≠ some (true, r) := by
  intro h
  have hfound := congrArg (fun o => o.map Prod.fst) h
  simp at hfound

section

variable (h : Kept splitMarkdown deliveryId owner row accepted)
  (hk : Agrees splitMarkdown deliveryId owner row accepted token k)

include h hk

theorem outcomes_same (hlearns : LearnsUpdate deliveryId u (some (false, row)) k k) :
    Outcomes splitMarkdown deliveryId owner row accepted token k u (false, row) :=
  ⟨owner, k, h.stays, hk, hlearns⟩

theorem outcomes_terminal {r : Bool × Row} (hr : ReleasesTo status row r)
    (hterminal : status.terminal) (hlearns : LearnsUpdate deliveryId u (some r) k k) :
    Outcomes splitMarkdown deliveryId owner row accepted token k u r := by
  rcases hr with rfl | ⟨row', rfl, hreleased, hstatus⟩
  · exact outcomes_same h hk hlearns
  · obtain ⟨hmoves, hagrees⟩ := h.settles hreleased (hstatus ▸ hterminal) hk
    exact ⟨owner, k, hmoves, hagrees, hlearns⟩

theorem outcomes_claim {env : Env} {ignoreNextAttempt : Bool}
    (hdelivery : row.deliveryId = deliveryId) (hfallback : row.fallbackText ≠ "") :
    Outcomes splitMarkdown deliveryId owner row accepted token k (.claim token ignoreNextAttempt)
      ((Update.claim token ignoreNextAttempt).apply env row) := by
  rcases claim_cases row token env.now ignoreNextAttempt with hnone | ⟨hstatus, hsome⟩
  · simp only [Update.apply, hnone, Bool.false_and, false_eq_true, if_false]
    exact outcomes_same h hk fun _ hr => absurd hr ne_found
  · by_cases hstale : (originScoped row.sourceType && !env.originActive)
    · simp only [Update.apply, hsome, Bool.true_and, hstale, if_true]
      have hreleased : Released row
          (row.claimed token (env.now + deliveryLeaseDuration)).suppress.2 :=
        ⟨rfl, rfl, rfl, rfl, .inl ⟨rfl, rfl⟩, nofun, rfl, rfl⟩
      obtain ⟨hmoves, hagrees⟩ := h.settles hreleased (.inr (.inl rfl)) hk
      exact ⟨owner, k, hmoves, hagrees, fun _ hr => absurd hr ne_found⟩
    · simp only [Update.apply, hsome, Bool.true_and, hstale, false_eq_true, if_false]
      refine ⟨some token, some (row.claimed token (env.now + deliveryLeaseDuration)).held,
        ⟨h.sound.claimed, ?_, ?_, rfl, rfl, ?_⟩, ?_, ?_⟩
      · intro other g hother hg
        exact Agrees.claimed hother hg h.sound hstatus
      · intro t ht
        exact ht
      · intro t ht
        exact .inl (Option.some.inj ht).symm
      · exact HeldSound.claimed h.sound hstatus
      · intro r hr
        cases hr
        exact ⟨hdelivery, hfallback, rfl⟩

theorem outcomes_markChunkInflight {index : Nat} {p : Projection}
    (hindex : index < (p.chunks splitMarkdown).length) (hexposed : Unexposed k) :
    Outcomes splitMarkdown deliveryId owner row accepted token k
      (.markChunkInflight token index (p.chunks splitMarkdown).length p
        (chunkIdempotent deliveryId p))
      (row.markChunkInflight token index (p.chunks splitMarkdown).length p
        (chunkIdempotent deliveryId p) now) := by
  rcases markChunkInflight_cases row token index (p.chunks splitMarkdown).length p
    (chunkIdempotent deliveryId p) now with hnone | ⟨hleased, hcompleted, hdigest, hsome⟩
  · rw [hnone]
    exact outcomes_same h hk (.inr ⟨rfl, fun _ => ne_found⟩)
  · rw [hsome]
    obtain ⟨hstatus, hlease⟩ := leased_iff.mp hleased
    obtain ⟨held, rfl, hunexposed⟩ := hexposed
    have hheld : HeldSound splitMarkdown deliveryId owner row accepted token held := hk
    obtain ⟨hrowCompleted, -, hrowHeld, -, -⟩ := hheld.row_eq hlease
    have hguard : held.Guard index p := by
      refine ⟨hrowCompleted.symm.trans hcompleted, ?_⟩
      intro q hq
      exact hdigest q (hrowHeld.trans hq)
    refine ⟨owner, _, ⟨?_, ?_, ?_, rfl, rfl, ?_⟩, ?_, .inl ⟨held, rfl, hguard, rfl⟩⟩
    · exact h.sound.marked hstatus hcompleted hdigest hindex
    · intro other g hother hg
      exact Agrees.marked hother hg hlease hstatus hcompleted hdigest
    · exact h.owned
    · exact fun t ht => .inr ht
    · exact hheld.marked h.sound hlease (h.owned token hlease) hunexposed hguard hindex

end

section

variable (h : Kept splitMarkdown deliveryId owner row accepted)

include h

theorem outcomes_markChunkSent {index projected : Nat} {p : Projection} {receipt : Receipt}
    {held : Held} (hheld : HeldSound splitMarkdown deliveryId owner row accepted token held)
    (hacked : held.Acked index p projected) :
    Outcomes splitMarkdown deliveryId owner row accepted token (some held)
      (.markChunkSent token (index + 1) projected p receipt)
      (row.markChunkSent token (index + 1) projected p now receipt) := by
  rcases markChunkSent_cases row token index projected p now receipt with
    hnone | ⟨hleased, hsome⟩
  · rw [hnone]
    exact outcomes_same h hheld (.inr ⟨rfl, fun _ => ne_found⟩)
  · rw [hsome]
    obtain ⟨hstatus, hlease⟩ := leased_iff.mp hleased
    obtain ⟨htracks, hcompleted, hprojected, hcount⟩ := hheld.acked_count h.sound hlease hacked
    refine ⟨owner, _, ⟨?_, ?_, ?_, rfl, rfl, ?_⟩, ?_, .inl rfl⟩
    · exact rowSound_saved hstatus htracks hprojected hcount
    · intro other g hother hg
      exact Agrees.saved hother hg hlease hstatus hcompleted (hheld.digest p hacked.digest)
    · exact h.owned
    · exact fun t ht => .inr ht
    · exact HeldSound.saved hcount

theorem outcomes_markFailed {lastError : String}
    (hk : Agrees splitMarkdown deliveryId owner row accepted token k) (hexposed : Unexposed k) :
    Outcomes splitMarkdown deliveryId owner row accepted token k
      (.markFailed token lastError) (row.markFailed token lastError now) := by
  rcases markFailed_cases row token now lastError with
    hnone | ⟨hleased, row', hsome, hreleased, -⟩
  · rw [hnone]
    exact outcomes_same h hk (.inr rfl)
  · rw [hsome]
    obtain ⟨hstatus, hlease⟩ := leased_iff.mp hleased
    obtain ⟨held, rfl, hunexposed⟩ := hexposed
    have hheld : HeldSound splitMarkdown deliveryId owner row accepted token held := hk
    refine ⟨owner, none, ?_, ?_, .inl rfl⟩
    · apply h.releases hreleased
      · intro p hp hflag hlength
        have htrue := (hheld.held_eq hlease).2 p hp hflag hlength
        rw [hunexposed] at htrue
        cases htrue
      · intro other g hother hg hright
        exact absurd hright (hg.not_right_of_other hother hlease hstatus)
    · intro hsame
      rw [hreleased.lease] at hsame
      cases hsame

theorem outcomes_recoverStale {observed : Row}
    (hk : Agrees splitMarkdown deliveryId owner row accepted token k) :
    Outcomes splitMarkdown deliveryId owner row accepted token k
      (.recoverStale observed now) (row.recoverStale observed now) := by
  rcases recoverStale_cases row observed now with
    hnone | ⟨hstatus, row', hsome, hreleased, huncertain | ⟨-, hkeyed⟩⟩
  · rw [hnone]
    exact outcomes_same h hk rfl
  · rw [hsome]
    obtain ⟨hmoves, hagrees⟩ := h.settles hreleased (.inl huncertain) hk
    exact ⟨owner, k, hmoves, hagrees, rfl⟩
  · rw [hsome]
    have hidle : ∀ p, row.projectionDigest = some p → chunkIdempotent deliveryId p = false →
        row.inflightChunkIndex = none := by
      intro p hp hflag
      rcases hkeyed with hidle | htrue
      · exact hidle
      · cases hinflight : row.inflightChunkIndex with
        | none => rfl
        | some i =>
          have hflagged := ((h.sound.tracks p hp).inflight i hinflight).2.2
          rw [htrue, hflag] at hflagged
          cases hflagged
    have hnoRight : ∀ other g, HeldSound splitMarkdown deliveryId owner row accepted other g →
        ¬ g.Right deliveryId := by
      intro other g hg hright
      obtain ⟨i, p, hi, hp, hflag⟩ := id hright
      rcases (hg.right hright).2 with hlease | hterminal
      · have hrowIndex := (hg.row_eq hlease).2.2.2.1
        rw [hidle p (hg.digest p hp) hflag, hi] at hrowIndex
        cases hrowIndex
      · exact not_terminal_of_sending hstatus hterminal
    refine ⟨owner, k, ?_, ?_, rfl⟩
    · apply h.releases hreleased
      · intro p hp hflag hlength
        have hcount := (h.sound.tracks p hp).count
        rw [hidle p hp hflag] at hcount
        rcases hcount with hcount | ⟨-, hsome⟩
        · omega
        · cases hsome
      · intro other g _ hg hright
        exact absurd hright (hnoRight other g hg)
    · apply Agrees.release hk h.sound hreleased
      intro g hg hright
      subst hg
      exact absurd hright (hnoRight token g hk)

end

theorem outcomes_apply (env : Env) (h : Kept splitMarkdown deliveryId owner row accepted)
    (hk : Agrees splitMarkdown deliveryId owner row accepted token k)
    (hdelivery : row.deliveryId = deliveryId) (hfallback : row.fallbackText ≠ "")
    (hdemand : Demand splitMarkdown deliveryId token k (.update u)) :
    Outcomes splitMarkdown deliveryId owner row accepted token k u (u.apply env row) := by
  cases u with
  | claim t =>
    obtain rfl : t = token := hdemand
    exact outcomes_claim h hk hdelivery hfallback
  | markSent t requireCompleteChunks =>
    obtain rfl : requireCompleteChunks := hdemand
    exact outcomes_terminal h hk (markSent_cases row t) (.inr (.inr rfl)) rfl
  | markChunkSent =>
    obtain ⟨rfl, held, index, rfl, rfl, hacked⟩ := hdemand
    exact outcomes_markChunkSent h hk hacked
  | markChunkInflight =>
    obtain ⟨rfl, rfl, hindex, rfl, hexposed⟩ := hdemand
    exact outcomes_markChunkInflight h hk hindex hexposed
  | recoverStale => exact outcomes_recoverStale h hk
  | markFailed =>
    obtain ⟨rfl, hexposed⟩ := hdemand
    exact outcomes_markFailed h hk hexposed
  | markPermanentFailure t lastError =>
    exact outcomes_terminal h hk (markPermanentFailure_cases row t lastError) (.inr (.inl rfl)) rfl
  | markUncertain t lastError =>
    exact outcomes_terminal h hk (markUncertain_cases row t lastError) (.inl rfl) rfl
  | suppress => exact outcomes_terminal h hk (suppress_cases row) (.inr (.inl rfl)) rfl
  | completePendingDelivery t =>
    exact outcomes_terminal h hk (completePendingDelivery_cases row t env.bindingOk)
      (.inr (.inr rfl)) rfl
  | abandonPendingDelivery t uncertain lastError =>
    apply outcomes_terminal h hk
      (abandonPendingDelivery_cases row t env.bindingOk uncertain lastError)
    · cases uncertain
      · exact .inr (.inl rfl)
      · exact .inl rfl
    · rfl
  | reconcilePendingDelivery =>
    exact outcomes_terminal h hk (reconcilePendingDelivery_cases row env.bindingOk)
      (.inr (.inr rfl)) rfl

theorem learnsUpdate_none {r : Bool × Row} {k' : Option Held}
    (h : LearnsUpdate deliveryId u (some r) k k') : LearnsUpdate deliveryId u none k k' := by
  cases u with
  | claim t ignoreNextAttempt => exact fun _ hr => absurd hr none_ne_found
  | markChunkInflight =>
    rcases h with hmarked | ⟨hsame, -⟩
    · exact .inl hmarked
    · exact .inr ⟨hsame, fun _ => none_ne_found⟩
  | markChunkSent =>
    rcases h with hsaved | ⟨hsame, -⟩
    · exact .inl hsaved
    · exact .inr ⟨hsame, fun _ => none_ne_found⟩
  | _ => exact h

theorem learnsUpdate_none_same : LearnsUpdate deliveryId u none k k := by
  cases u with
  | claim t ignoreNextAttempt => exact fun _ hr => absurd hr none_ne_found
  | markChunkInflight t index projected p idempotent
  | markChunkSent =>
    exact .inr ⟨rfl, fun _ => none_ne_found⟩
  | markFailed => exact .inr rfl
  | _ => rfl

end

end Cognis.Channels
