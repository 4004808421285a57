import Cognis.Channels.Moves

namespace Cognis.Channels

open List Program

variable {u : Update} {delivered : Bool}

variable {splitMarkdown : String → Nat → List String} {deliveryId : String} {token : Nat}

/-- What holds of a program of the worker `token` that holds `k`. -/
abbrev Spec (splitMarkdown : String → Nat → List String) (deliveryId : String) (token : Nat)
    {α : Type} (x : Delivery α) (Q : α → Option Held → Prop) (k : Option Held) : Prop :=
  x.Safe (Learns deliveryId) (Demand splitMarkdown deliveryId token) Q k

variable {k : Option Held}

theorem Spec.bind {α β : Type} {x : Delivery α} {f : α → Delivery β} {R : α → Option Held → Prop}
    {Q : β → Option Held → Prop} (hx : Spec splitMarkdown deliveryId token x R k)
    (hf : ∀ a k', R a k' → Spec splitMarkdown deliveryId token (f a) Q k') :
    Spec splitMarkdown deliveryId token (x >>= f) Q k :=
  (safe_bind _ _ _ _).mpr (Safe.mono hx hf)

/-- An attempt that ends so may be repeated. -/
def DeliveryStatus.Retried (status : DeliveryStatus) : Prop :=
  status ≠ .sent ∧ status ≠ .uncertain ∧ status ≠ .permanent

section

variable {k : Option Held}

theorem await_spec {o : Op} (h : Demand splitMarkdown deliveryId token k o) :
    Spec splitMarkdown deliveryId token (perform o)
      (fun reply k' => Learns deliveryId k o reply k') k := by
  apply (safe_perform _ _ _).mpr
  exact ⟨h, fun _ _ hlearned => hlearned⟩

theorem update_spec (h : Demand splitMarkdown deliveryId token k (.update u)) :
    Spec splitMarkdown deliveryId token (update u)
      (fun reply k' => LearnsUpdate deliveryId u reply k k') k := await_spec h

theorem ask_spec : Spec splitMarkdown deliveryId token ask (fun _ k' => k' = k) k :=
  await_spec trivial

theorem finish_spec (h : Demand splitMarkdown deliveryId token k (.update u)) :
    Spec splitMarkdown deliveryId token (finish u) (fun _ _ => True) k := by
  apply Spec.bind (update_spec h)
  intro _ _ _
  trivial

theorem suppress_spec :
    Spec splitMarkdown deliveryId token (finish .suppress) (fun _ k' => k' = k) k := by
  refine Spec.bind (update_spec ?_) ?_
  · exact trivial
  intro _ _ hlearned
  exact hlearned

theorem checkFence_spec (applies : Bool) :
    Spec splitMarkdown deliveryId token (checkFence applies) (fun _ k' => k' = k) k := by
  unfold checkFence
  split
  · exact rfl
  · apply Spec.bind ask_spec
    intro answer k' hk
    subst hk
    cases answer with
    | yes | raised => exact rfl
    | no =>
      apply Spec.bind suppress_spec
      intro _ _ hk
      exact hk

end

section

variable {row : Row} {k : Option Held} {p : Projection} {index : Nat}

structure InFlight (h : Held) (splitMarkdown : String → Nat → List String) (index : Nat)
    (p : Projection) : Prop where
  inflight : h.inflight = some index
  digest : h.digest = some p
  projected : h.projected = some (p.chunks splitMarkdown).length
  exposed : h.exposed = false

theorem saveChunkStart_spec (hdelivery : row.deliveryId = deliveryId)
    (hindex : index < (p.chunks splitMarkdown).length) (hk : Unexposed k) :
    Spec splitMarkdown deliveryId token
      (saveChunkStart token row index (p.chunks splitMarkdown).length p
        (chunkIdempotent row.deliveryId p))
      (fun saved k' => Unexposed k' ∧
        (saved → ∃ h, k' = some h ∧ InFlight h splitMarkdown index p)) k := by
  have hrefused : ∀ k' : Option Held, k' = k →
      Unexposed k' ∧ (false → ∃ h, k' = some h ∧ InFlight h splitMarkdown index p) := by
    intro k' hsame
    subst hsame
    exact ⟨hk, nofun⟩
  apply Spec.bind ask_spec
  intro answer k₁ hk₁
  split
  · exact hrefused k₁ hk₁
  · subst hk₁
    apply Spec.bind (checkFence_spec _)
    intro _ k₂ hk₂
    split
    · exact hrefused k₂ hk₂
    · subst hk₂
      apply Spec.bind (checkFence_spec _)
      intro _ k₃ hk₃
      split
      · exact hrefused k₃ hk₃
      · subst hk₃
        apply Spec.bind (checkFence_spec _)
        intro _ k₄ hk₄
        split
        · exact hrefused k₄ hk₄
        · subst hk₄
          have hdemand : Demand splitMarkdown deliveryId token k₄
              (.update (.markChunkInflight token index (p.chunks splitMarkdown).length p
                (chunkIdempotent row.deliveryId p))) :=
            ⟨rfl, rfl, hindex, by rw [hdelivery], hk⟩
          apply Spec.bind (update_spec hdemand)
          intro reply k' hlearned
          rcases hlearned with ⟨h, -, -, rfl⟩ | ⟨rfl, hrefusal⟩
          · have hmarked : Unexposed (some (h.marked index p (p.chunks splitMarkdown).length
                (chunkIdempotent row.deliveryId p))) := ⟨_, rfl, rfl⟩
            cases reply with
            | none => exact ⟨hmarked, nofun⟩
            | some r => exact ⟨hmarked, fun _ => ⟨_, rfl, rfl, rfl, rfl, rfl⟩⟩
          · cases reply with
            | none => exact ⟨hk, nofun⟩
            | some r =>
              obtain ⟨saved, row'⟩ := r
              cases saved with
              | true => exact absurd rfl (hrefusal row')
              | false => exact ⟨hk, nofun⟩

def Ended (result : Option Outcome) (k : Option Held) : Prop :=
  match result with
  | none => Unexposed k
  | some outcome => outcome.status.Retried → Unexposed k

theorem ended_of_unexposed {result : Option Outcome} (hk : Unexposed k) : Ended result k := by
  cases result with
  | none => exact hk
  | some outcome => exact fun _ => hk

variable {metadata : Option String}

theorem ended_uncertain : Ended (some ⟨.uncertain, metadata⟩) k := by
  intro hretried
  exact absurd rfl hretried.2.1

theorem ended_permanent : Ended (some ⟨.permanent, metadata⟩) k := by
  intro hretried
  exact absurd rfl hretried.2.2

theorem ended_sendFailed {idempotent : Bool} (hk : idempotent → Unexposed k) :
    Ended (some (sendFailed idempotent delivered)) k := by
  cases idempotent with
  | false => exact ended_uncertain
  | true => exact ended_of_unexposed (hk rfl)

theorem sendMessage_spec {h : Held} {chunk : String} (hdelivery : row.deliveryId = deliveryId)
    (hflight : InFlight h splitMarkdown index p)
    (hchunk : (p.chunks splitMarkdown)[index]? = some chunk) :
    Spec splitMarkdown deliveryId token
      (sendMessage token row p (p.chunks splitMarkdown).length index chunk delivered) Ended
      (some h) := by
  have hsendable : h.Sendable splitMarkdown deliveryId index
      ⟨chunk, idempotencyKey row.deliveryId p index⟩ p :=
    ⟨hflight.inflight, hflight.digest, hchunk, by rw [hdelivery], hflight.exposed⟩
  have hdemand : Demand splitMarkdown deliveryId token (some h)
      (.send index ⟨chunk, idempotencyKey row.deliveryId p index⟩) := ⟨h, p, rfl, hsendable⟩
  apply Spec.bind (await_spec hdemand)
  rintro reply k' ⟨g, hg, rfl⟩
  cases hg
  have hkeyed : chunkIdempotent row.deliveryId p →
      Unexposed (some (h.sent ⟨chunk, idempotencyKey row.deliveryId p index⟩ reply.acked)) := by
    intro hflag
    refine ⟨_, rfl, ?_⟩
    simp [Held.sent, idempotencyKey, hflag]
  cases reply with
  | messageId id =>
    dsimp only
    split
    · exact ended_sendFailed hkeyed
    · have hsave : Demand splitMarkdown deliveryId token
          (some (h.sent ⟨chunk, idempotencyKey row.deliveryId p index⟩ true))
          (.update (.markChunkSent token (index + 1) (p.chunks splitMarkdown).length p
            ⟨index, chunk, id⟩)) :=
        ⟨rfl, _, index, rfl, rfl, hflight.inflight, hflight.digest, hflight.projected, rfl⟩
      apply Spec.bind (update_spec hsave)
      intro saved k'' hlearned
      have hunsaved : k'' = some (h.sent ⟨chunk, idempotencyKey row.deliveryId p index⟩ true) →
          Ended (some ⟨if chunkIdempotent row.deliveryId p then .part else .uncertain, none⟩)
            k'' := by
        intro hsame
        subst hsame
        cases hflag : chunkIdempotent row.deliveryId p with
        | true => exact ended_of_unexposed (hkeyed hflag)
        | false => exact ended_uncertain
      rcases hlearned with hk'' | ⟨hsame, hrefusal⟩
      · have hrecorded : Unexposed k'' := ⟨_, hk'', rfl⟩
        split
        · exact hrecorded
        · exact ended_of_unexposed hrecorded
      · split
        · rename_i row'
          exact absurd rfl (hrefusal row')
        · exact hunsaved hsame
  | signalFailure => exact ended_uncertain
  | policyBlocked | nonRetryable => exact ended_permanent
  | error => exact ended_sendFailed hkeyed

theorem sendChunk_spec {chunk : String} (hdelivery : row.deliveryId = deliveryId)
    (hchunk : (p.chunks splitMarkdown)[index]? = some chunk) (hk : Unexposed k) :
    Spec splitMarkdown deliveryId token
      (sendChunk token row p (p.chunks splitMarkdown).length index chunk delivered) Ended k := by
  have hindex : index < (p.chunks splitMarkdown).length :=
    (List.getElem?_eq_some_iff.mp hchunk).1
  apply Spec.bind (saveChunkStart_spec hdelivery hindex hk)
  rintro saved k' ⟨hunexposed, hsaved⟩
  cases saved with
  | false => exact ended_of_unexposed hunexposed
  | true =>
    obtain ⟨h, rfl, hflight⟩ := hsaved rfl
    split
    · rename_i hfalse
      cases hfalse
    · split
      · apply Spec.bind ask_spec
        intro answer k'' hk''
        subst hk''
        cases answer with
        | yes => exact sendMessage_spec hdelivery hflight hchunk
        | no => exact ended_permanent
        | raised => exact ended_sendFailed fun _ => ⟨h, rfl, hflight.exposed⟩
      · exact sendMessage_spec hdelivery hflight hchunk

/-- The outcome of an attempt: it is repeated only where no chunk went out unrecorded. -/
def Concluded (outcome : Outcome) (k : Option Held) : Prop :=
  outcome.status.Retried → Unexposed k

theorem sendChunks_spec (hdelivery : row.deliveryId = deliveryId) {chunks : List String}
    (hchunks : (p.chunks splitMarkdown).drop index = chunks) (hk : Unexposed k) :
    Spec splitMarkdown deliveryId token
      (sendChunks token row p (p.chunks splitMarkdown).length index delivered chunks) Concluded
      k := by
  induction chunks generalizing index delivered k with
  | nil => exact fun _ => hk
  | cons chunk chunks ih =>
    have hchunk : (p.chunks splitMarkdown)[index]? = some chunk := by
      rw [← head?_drop, hchunks, head?_cons]
    have hrest : (p.chunks splitMarkdown).drop (index + 1) = chunks := by
      rw [← tail_drop, hchunks, tail_cons]
    apply Spec.bind (sendChunk_spec hdelivery hchunk hk)
    intro result k' hended
    cases result with
    | none => exact ih hrest hended
    | some => exact hended

end

section

variable {row : Row} {k : Option Held}

theorem sendToRoute_spec (hdelivery : row.deliveryId = deliveryId) (content : String)
    (hk : Unexposed k) :
    Spec splitMarkdown deliveryId token (sendToRoute splitMarkdown token row content) Concluded
      k := by
  refine Spec.bind (await_spec ?_) ?_
  · exact trivial
  rintro capabilities k' rfl
  cases capabilities with
  | none => exact fun _ => hk
  | some =>
    dsimp only
    split
    · exact fun _ => hk
    · split
      · exact fun _ => hk
      · split
        · exact fun _ => hk
        · split
          · exact fun _ => hk
          · exact sendChunks_spec hdelivery rfl hk

theorem demand_settlement {outcome : Outcome} {managed : Bool} (hconcluded : Concluded outcome k) :
    Demand splitMarkdown deliveryId token k (.update (settlement token row managed outcome)) := by
  unfold settlement
  split
  · trivial
  · split
    · trivial
    · split
      · trivial
      · split
        · rfl
        · trivial
        · trivial
        · rename_i hsent huncertain hpermanent
          exact ⟨rfl, hconcluded ⟨hsent, huncertain, hpermanent⟩⟩

theorem deliverClaimed_spec (hdelivery : row.deliveryId = deliveryId) (content : String)
    (managedService : Bool) (hk : Unexposed k) :
    Spec splitMarkdown deliveryId token
      (deliverClaimed splitMarkdown token row content managedService) (fun _ _ => True) k := by
  apply Spec.bind (R := fun _ k' => k' = k)
  · split
    · exact ask_spec
    · rfl
  · intro answer k' hk'
    subst hk'
    cases answer with
    | no => trivial
    | raised => exact finish_spec (demand_settlement fun _ => hk)
    | yes =>
      apply Spec.bind (sendToRoute_spec hdelivery content hk)
      intro outcome k'' hconcluded
      exact finish_spec (demand_settlement hconcluded)

theorem orText_ne {a b : String} (hb : b ≠ "") : orText a b ≠ "" := by
  unfold orText
  split
  · exact hb
  · rename_i ha
    exact ha

theorem deliverOutbox_spec (c : DeliverCall) :
    Spec splitMarkdown deliveryId token (deliverOutbox splitMarkdown token c) (fun _ _ => True)
      k := by
  refine Spec.bind (await_spec ?_) ?_
  · exact trivial
  rintro pending k₁ -
  apply Spec.bind ask_spec
  intro _ k₂ _
  split
  · trivial
  · apply Spec.bind ask_spec
    intro _ k₃ _
    split
    · trivial
    · apply Spec.bind (checkFence_spec _)
      intro _ k₄ _
      split
      · trivial
      · refine Spec.bind (update_spec ?_) ?_
        · exact rfl
        intro reply k₅ hlearned
        split
        · rename_i row
          obtain ⟨hdelivery, hfallback, rfl⟩ := hlearned row rfl
          apply Spec.bind (checkFence_spec _)
          intro _ k₆ hk₆
          subst hk₆
          split
          · trivial
          · have hcontent := orText_ne (a := c.finalContent)
              (orText_ne (a := c.fallbackText) hfallback)
            rw [if_neg hcontent]
            exact deliverClaimed_spec hdelivery _ _ ⟨_, rfl, rfl⟩
        · trivial

theorem commit_spec (h : Demand splitMarkdown deliveryId token k (.update u)) :
    Spec splitMarkdown deliveryId token (commit u) (fun _ _ => True) k := by
  apply Spec.bind (update_spec h)
  intro _ _ _
  trivial

theorem reconcilePendingDeliveries_spec (managedService : Bool) :
    Spec splitMarkdown deliveryId token (reconcilePendingDeliveries managedService)
      (fun _ _ => True) k := by
  unfold reconcilePendingDeliveries
  split
  · exact commit_spec trivial
  · trivial

theorem recoverStaleRow_spec (observed : Option Row) (now : Nat) :
    Spec splitMarkdown deliveryId token (recoverStaleRow observed now) (fun _ _ => True) k := by
  unfold recoverStaleRow
  split
  · trivial
  · split
    · exact commit_spec trivial
    · trivial

theorem abandonOverdue_spec (row : Row) (managedService : Bool) :
    Spec splitMarkdown deliveryId token (abandonOverdue row managedService) (fun _ _ => True)
      k := by
  unfold abandonOverdue
  split
  · trivial
  · apply Spec.bind ask_spec
    intro _ _ _
    split
    · trivial
    · refine Spec.bind (update_spec ?_) ?_
      · exact trivial
      intro reply _ _
      split <;> trivial

theorem recoverPendingDeliveries_spec (managedService : Bool) (now : Nat) :
    Spec splitMarkdown deliveryId token
      (recoverPendingDeliveries splitMarkdown token managedService now) (fun _ _ => True) k := by
  apply Spec.bind (reconcilePendingDeliveries_spec _)
  intro _ _ _
  split
  · trivial
  · refine Spec.bind (await_spec ?_) ?_
    · exact trivial
    intro observed _ _
    apply Spec.bind (recoverStaleRow_spec _ _)
    intro _ _ _
    split
    · trivial
    · apply Spec.bind (reconcilePendingDeliveries_spec _)
      intro _ _ _
      split
      · trivial
      · refine Spec.bind (await_spec ?_) ?_
        · exact trivial
        intro listed _ _
        split
        · trivial
        · apply Spec.bind (abandonOverdue_spec _ _)
          intro abandoned _ _
          split
          · trivial
          · split
            · refine Spec.bind (await_spec ?_) ?_
              · exact trivial
              intro _ _ _
              exact deliverOutbox_spec _
            · exact deliverOutbox_spec _

end

section

variable {s : System} {owner : Option Nat}

def Process.Sound (splitMarkdown : String → Nat → List String) (deliveryId : String)
    (owner : Option Nat) (row : Row) (accepted : List Accepted) (p : Process) : Prop :=
  ∃ k, Spec splitMarkdown deliveryId p.token p.rest (fun _ _ => True) k ∧
    Agrees splitMarkdown deliveryId owner row accepted p.token k

/-- The invariant of a run; `owner` is the token of the last claim. -/
structure System.Sound (s : System) (splitMarkdown : String → Nat → List String)
    (deliveryId : String) (owner : Option Nat) : Prop where
  kept : Kept splitMarkdown deliveryId owner s.row s.accepted
  deliveryId_eq : s.row.deliveryId = deliveryId
  fallbackText_ne : s.row.fallbackText ≠ ""
  lease_lt : ∀ t, s.row.leaseToken = some t → t < s.nextToken
  token_lt : ∀ p ∈ s.processes, p.token < s.nextToken
  distinct : s.processes.Pairwise fun p q => p.token ≠ q.token
  process : ∀ p ∈ s.processes, p.Sound splitMarkdown deliveryId owner s.row s.accepted

theorem System.Sound.perform (h : s.Sound splitMarkdown deliveryId owner) (oracle : Oracle) {o : Op}
    (hdemand : Demand splitMarkdown deliveryId token k o)
    (hk : Agrees splitMarkdown deliveryId owner s.row s.accepted token k) :
    ∃ owner' k',
      Moves splitMarkdown deliveryId owner owner' s.row (s.perform oracle o).2.row s.accepted
          (s.perform oracle o).2.accepted token ∧
        Agrees splitMarkdown deliveryId owner' (s.perform oracle o).2.row
          (s.perform oracle o).2.accepted token k' ∧
        Learns deliveryId k o (s.perform oracle o).1 k' := by
  cases o with
  | update u =>
    obtain ⟨owner', k', hmoves, hagrees, hlearned⟩ :=
      outcomes_apply oracle.env h.kept hk h.deliveryId_eq h.fallbackText_ne hdemand
    simp only [System.perform]
    by_cases hraised : oracle.raised
    · rw [if_pos hraised]
      by_cases hcommitted : oracle.committed
      · rw [if_pos hcommitted]
        exact ⟨owner', k', hmoves, hagrees, learnsUpdate_none hlearned⟩
      · rw [if_neg hcommitted]
        exact ⟨owner, k, h.kept.stays, hk, learnsUpdate_none_same⟩
    · rw [if_neg hraised]
      exact ⟨owner', k', hmoves, hagrees, hlearned⟩
  | send index message =>
    obtain ⟨held, p, rfl, hsendable⟩ := hdemand
    have hheld : HeldSound splitMarkdown deliveryId owner s.row s.accepted token held := hk
    have hacked : oracle.reply.acked → oracle.reply.taken oracle.accepts := by
      cases oracle.reply <;> simp [SendReply.acked, SendReply.taken]
    have hsent := hheld.sent h.kept.sound hsendable hacked
    refine ⟨owner, some (held.sent message oracle.reply.acked), ?_, ?_, held, rfl, rfl⟩
    · simp only [System.perform]
      by_cases htaken : oracle.reply.taken oracle.accepts
      · rw [if_pos htaken]
        refine ⟨h.kept.sound.accept hheld hsendable, ?_, h.kept.owned, rfl, rfl, ?_⟩
        · intro other g hother hg
          exact Agrees.accept hother hg h.kept.sound hheld hsendable
        · exact fun t ht => .inr ht
      · rw [if_neg htaken]
        exact h.kept.stays
    · simp only [System.perform]
      by_cases htaken : oracle.reply.taken oracle.accepts
      · rw [if_pos htaken] at hsent ⊢
        exact hsent
      · rw [if_neg htaken] at hsent ⊢
        exact hsent
  | _ => exact ⟨owner, k, h.kept.stays, hk, rfl⟩

theorem perform_processes (s : System) (oracle : Oracle) (o : Op) :
    (s.perform oracle o).2.processes = s.processes ∧
      (s.perform oracle o).2.nextToken = s.nextToken := by
  cases o with
  | update u =>
    simp only [System.perform]
    split
    · split <;> exact ⟨rfl, rfl⟩
    · exact ⟨rfl, rfl⟩
  | send =>
    simp only [System.perform]
    split <;> exact ⟨rfl, rfl⟩
  | _ => exact ⟨rfl, rfl⟩

section

variable (h : s.Sound splitMarkdown deliveryId owner)
include h

theorem System.Sound.erase (i : Nat) :
    (s.become i none).Sound splitMarkdown deliveryId owner where
  kept := h.kept
  deliveryId_eq := h.deliveryId_eq
  fallbackText_ne := h.fallbackText_ne
  lease_lt := h.lease_lt
  token_lt p hp := h.token_lt p (Pool.mem_of_mem_eraseIdx hp)
  distinct := h.distinct.sublist (eraseIdx_sublist _ _)
  process p hp := h.process p (Pool.mem_of_mem_eraseIdx hp)

theorem System.Sound.advance {i : Nat}
    (oracle : Oracle) {p : Process} (hp : s.processes[i]? = some p) :
    ∃ owner', (s.advance i oracle p).Sound splitMarkdown deliveryId owner' := by
  have hmem := mem_of_getElem? hp
  obtain ⟨k, hsafe, hagrees⟩ := h.process p hmem
  unfold System.advance
  split
  · exact ⟨owner, h.erase i⟩
  · rename_i o follow hrest
    rw [hrest] at hsafe
    obtain ⟨owner', k', hmoves, hagrees', hlearned⟩ := h.perform oracle hsafe.1 hagrees
    obtain ⟨hprocesses, hnext⟩ := perform_processes s oracle o
    refine ⟨owner', ⟨hmoves.sound, hmoves.owned⟩, ?_, ?_, ?_, ?_, ?_, ?_⟩
    · exact hmoves.deliveryId_eq.trans h.deliveryId_eq
    · change (s.perform oracle o).2.row.fallbackText ≠ ""
      rw [hmoves.fallbackText_eq]
      exact h.fallbackText_ne
    · intro t ht
      change t < (s.perform oracle o).2.nextToken
      rw [hnext]
      rcases hmoves.lease t ht with rfl | hold
      · exact h.token_lt p hmem
      · exact h.lease_lt t hold
    · intro q hq
      change q.token < (s.perform oracle o).2.nextToken
      rw [hnext]
      simp only [System.become, hprocesses] at hq
      rcases Pool.mem_update hq with hmoved | ⟨j, -, hj⟩
      · cases hmoved
        exact h.token_lt p hmem
      · exact h.token_lt q (mem_of_getElem? hj)
    · simp only [System.become, hprocesses]
      apply Pool.pairwise_update (fun _ _ hne => Ne.symm hne) h.distinct
      intro q hq j r hj hr
      have hne := Pool.rel_of_ne (fun _ _ hne => Ne.symm hne) h.distinct (Ne.symm hj) hp hr
      cases hq
      exact hne
    · intro q hq
      simp only [System.become, hprocesses] at hq
      rcases Pool.mem_update hq with hmoved | ⟨j, hj, hr⟩
      · cases hmoved
        exact ⟨k', hsafe.2 _ _ hlearned, hagrees'⟩
      · obtain ⟨g, hgsafe, hg⟩ := h.process q (mem_of_getElem? hr)
        have hother : q.token ≠ p.token :=
          Pool.rel_of_ne (fun _ _ hne => Ne.symm hne) h.distinct hj hr hp
        exact ⟨g, hgsafe, hmoves.others q.token g hother hg⟩

theorem System.Sound.start {work : Nat → Delivery Unit}
    (hwork : Spec splitMarkdown deliveryId s.nextToken (work s.nextToken) (fun _ _ => True)
      none) :
    (s.start work).Sound splitMarkdown deliveryId owner where
  kept := h.kept
  deliveryId_eq := h.deliveryId_eq
  fallbackText_ne := h.fallbackText_ne
  lease_lt t ht := Nat.lt_succ_of_lt (h.lease_lt t ht)
  token_lt p hp := by
    rcases mem_append.mp hp with hold | hnew
    · exact Nat.lt_succ_of_lt (h.token_lt p hold)
    · rw [mem_singleton] at hnew
      subst hnew
      exact Nat.lt_succ_self _
  distinct := by
    refine pairwise_append.mpr ⟨h.distinct, pairwise_singleton _ _, ?_⟩
    intro p hp q hq
    rw [mem_singleton] at hq
    subst hq
    exact Nat.ne_of_lt (h.token_lt p hp)
  process p hp := by
    rcases mem_append.mp hp with hold | hnew
    · exact h.process p hold
    · rw [mem_singleton] at hnew
      subst hnew
      refine ⟨none, hwork, ?_⟩
      intro hlease
      exact absurd (h.lease_lt _ hlease) (Nat.lt_irrefl _)

end

variable {accepted : List Accepted} {row : Row}

theorem Agrees.renew (hk : Agrees splitMarkdown deliveryId owner row accepted token k)
    (t : Option Nat) :
    Agrees splitMarkdown deliveryId owner { row with leaseExpiresAt := t } accepted token k := by
  cases k with
  | none => exact hk
  | some h => exact HeldSound.renew hk t

theorem RowSound.renew (h : RowSound splitMarkdown deliveryId row accepted) (t : Option Nat) :
    RowSound splitMarkdown deliveryId { row with leaseExpiresAt := t } accepted where
  blank := h.blank
  tracks p hp := by
    have htracks := h.tracks p hp
    exact ⟨htracks.projected, htracks.completed_le, htracks.inflight, htracks.accepted_eq,
      htracks.count, htracks.retry⟩
  leased := h.leased
  sent := h.sent

theorem System.Sound.heartbeat (h : s.Sound splitMarkdown deliveryId owner) (token now : Nat) :
    ({ s with row := (s.row.renewLease token now).2 } : System).Sound splitMarkdown deliveryId
      owner := by
  unfold Row.renewLease Row.updateWhere
  split
  · refine ⟨⟨h.kept.sound.renew _, h.kept.owned⟩, h.deliveryId_eq, h.fallbackText_ne, h.lease_lt,
      h.token_lt, h.distinct, ?_⟩
    intro p hp
    obtain ⟨k, hsafe, hk⟩ := h.process p hp
    exact ⟨k, hsafe, hk.renew _⟩
  · exact h

theorem System.Sound.step (h : s.Sound splitMarkdown deliveryId owner) (event : Event) :
    ∃ owner', (Channels.step splitMarkdown s event).Sound splitMarkdown deliveryId owner' := by
  cases event with
  | deliver c =>
    refine ⟨owner, ?_⟩
    simp only [Channels.step]
    apply h.start
    exact deliverOutbox_spec c
  | recover managedService now =>
    refine ⟨owner, ?_⟩
    simp only [Channels.step]
    apply h.start
    exact recoverPendingDeliveries_spec managedService now
  | advance i oracle =>
    cases hp : s.processes[i]? with
    | none =>
      simp only [Channels.step, hp]
      exact ⟨owner, h⟩
    | some p =>
      simp only [Channels.step, hp]
      exact h.advance oracle hp
  | heartbeat i now =>
    cases hp : s.processes[i]? with
    | none =>
      simp only [Channels.step, hp]
      exact ⟨owner, h⟩
    | some p =>
      simp only [Channels.step, hp]
      exact ⟨owner, h.heartbeat p.token now⟩
  | kill i => exact ⟨owner, h.erase i⟩

theorem System.sound_created {sourceType channelType fallbackText : String}
    {nextAttemptAt : Option Nat} (htext : fallbackText ≠ "") :
    (System.created (.created deliveryId sourceType channelType fallbackText
      nextAttemptAt)).Sound splitMarkdown deliveryId none where
  kept := by
    refine ⟨⟨?_, nofun, nofun, nofun⟩, nofun⟩
    intro _
    exact ⟨rfl, rfl, rfl, rfl⟩
  deliveryId_eq := rfl
  fallbackText_ne := htext
  lease_lt := nofun
  token_lt := nofun
  distinct := List.Pairwise.nil
  process := nofun

end

theorem sound_run (splitMarkdown : String → Nat → List String)
    (deliveryId sourceType channelType fallbackText : String) (nextAttemptAt : Option Nat)
    (htext : fallbackText ≠ "") (events : List Event) :
    ∃ owner, (Runs.run (step splitMarkdown)
      (System.created (.created deliveryId sourceType channelType fallbackText nextAttemptAt))
      events).Sound splitMarkdown deliveryId owner := by
  apply Runs.run_invariant (fun t : System => ∃ owner, t.Sound splitMarkdown deliveryId owner)
  · rintro t event ⟨owner, ht⟩
    exact ht.step event
  · exact ⟨none, System.sound_created htext⟩

theorem map_acceptedOf (splitMarkdown : String → Nat → List String) (deliveryId : String)
    (p : Projection) :
    (acceptedOf splitMarkdown deliveryId p).map (fun a => (a.content, a.index)) =
      (p.chunks splitMarkdown).zipIdx := by
  rw [acceptedOf, mapIdx_eq_zipIdx_map, map_map]
  apply map_id

variable {splitMarkdown : String → Nat → List String} {deliveryId : String}

theorem Tracks.taken {p : Projection} (h : Tracks splitMarkdown deliveryId row accepted p) :
    accepted.map (fun a => (a.content, a.index)) =
      (p.chunks splitMarkdown).zipIdx.take accepted.length := by
  rw [← map_acceptedOf splitMarkdown deliveryId, ← map_take, ← h.accepted_eq]

theorem Tracks.indexes {p : Projection} (h : Tracks splitMarkdown deliveryId row accepted p) :
    accepted.map (·.index) = range accepted.length := by
  have hle : accepted.length ≤ (p.chunks splitMarkdown).length := by
    have hlength := congrArg length h.taken
    rw [length_map, length_take, length_zipIdx] at hlength
    omega
  have hsnd := congrArg (List.map Prod.snd) h.taken
  rw [map_map, map_take, zipIdx_map_snd, ← range_eq_range', take_range, Nat.min_eq_left hle] at hsnd
  exact hsnd

/-- The chunks the channel has taken are the first ones of one text, each of them taken
once, and all of them when the row is sent. -/
theorem delivered_at_most_once (splitMarkdown : String → Nat → List String)
    (deliveryId sourceType channelType fallbackText : String) (nextAttemptAt : Option Nat)
    (htext : fallbackText ≠ "") (events : List Event) :
    let s := Runs.run (step splitMarkdown)
      (System.created (.created deliveryId sourceType channelType fallbackText nextAttemptAt))
      events
    (s.accepted.map (·.index)).Nodup ∧ ∃ p : Projection,
        s.accepted.map (fun a => (a.content, a.index)) <+: (p.chunks splitMarkdown).zipIdx ∧
          (s.row.status = .sent →
            s.accepted.map (fun a => (a.content, a.index)) = (p.chunks splitMarkdown).zipIdx) := by
  intro s
  have hsound : ∃ owner, s.Sound splitMarkdown deliveryId owner :=
    sound_run splitMarkdown deliveryId sourceType channelType fallbackText nextAttemptAt htext
      events
  obtain ⟨owner, h⟩ := hsound
  cases hdigest : s.row.projectionDigest with
  | none =>
    obtain ⟨hprojected, -, -, haccepted⟩ := h.kept.sound.blank hdigest
    rw [haccepted]
    refine ⟨nodup_nil, ⟨channelType, ⟨none, false, ""⟩, ""⟩, nil_prefix, ?_⟩
    intro hsent
    rw [h.kept.sound.sent hsent] at hprojected
    cases hprojected
  | some p =>
    have htracks := h.kept.sound.tracks p hdigest
    refine ⟨?_, p, ?_, ?_⟩
    · rw [htracks.indexes]
      exact nodup_range
    · rw [htracks.taken]
      exact take_prefix _ _
    · intro hsent
      have hcomplete := h.kept.sound.sent hsent
      rw [htracks.projected, Option.some.injEq] at hcomplete
      rw [htracks.taken, take_of_length_le]
      rw [length_zipIdx]
      rcases htracks.count with hcount | ⟨hcount, -⟩ <;> omega

/-! A text of two chunks, whose first send is answered too late: the row is recovered, and
the second attempt sends with the same keys. -/

section

/-- Halves of at most `n` characters, of a text of at most twice as many. -/
def halves (text : String) (n : Nat) : List String :=
  [String.ofList (text.toList.take n), String.ofList (text.toList.drop n)]

def keyedChannel : Oracle where
  capabilities := some ⟨some 2, true, ""⟩
  reply := .messageId (some "m")

def recoveredRun : List Event :=
  [.deliver { ignoreNextAttempt := true }] ++ replicate 8 (.advance 0 keyedChannel) ++
    [.recover false 500] ++
    replicate 20 (.advance 1 { keyedChannel with env := { now := 500 } }) ++
    replicate 4 (.advance 0 keyedChannel)

theorem delivered_at_most_once_recovered :
    let s := Runs.run (step halves)
      (System.created (.created "d" "follow_up" "matrix" "abcd" none)) recoveredRun
    s.row.status = .sent ∧ (s.accepted.map (·.index)).Nodup ∧ ∃ p : Projection,
        s.accepted.map (fun a => (a.content, a.index)) <+: (p.chunks halves).zipIdx ∧
          (s.row.status = .sent →
            s.accepted.map (fun a => (a.content, a.index)) = (p.chunks halves).zipIdx) := by
  have hresult :=
    delivered_at_most_once halves "d" "follow_up" "matrix" "abcd" none (by decide) recoveredRun
  exact ⟨by decide +kernel, hresult⟩

end

/-- Whatever fails and is retried, the chunks the channel has taken are those that are recorded, in
their order, and at most the one in flight; and only a row that is being sent has a lease. -/
theorem recorded_progress (splitMarkdown : String → Nat → List String)
    (deliveryId sourceType channelType fallbackText : String) (nextAttemptAt : Option Nat)
    (htext : fallbackText ≠ "") (events : List Event) :
    let s := Runs.run (step splitMarkdown)
      (System.created (.created deliveryId sourceType channelType fallbackText nextAttemptAt))
      events
    (s.accepted.map (·.index) = range s.row.completedChunkCount ∨
        s.accepted.map (·.index) = range (s.row.completedChunkCount + 1) ∧
          s.row.inflightChunkIndex = some s.row.completedChunkCount) ∧
      ∀ token, s.row.leaseToken = some token → s.row.status = .sending := by
  intro s
  obtain ⟨owner, h⟩ := sound_run splitMarkdown deliveryId sourceType channelType fallbackText
    nextAttemptAt htext events
  refine ⟨?_, h.kept.sound.leased⟩
  cases hdigest : s.row.projectionDigest with
  | none =>
    obtain ⟨-, hcompleted, -, haccepted⟩ := h.kept.sound.blank hdigest
    rw [haccepted, hcompleted]
    exact .inl rfl
  | some p =>
    have htracks := h.kept.sound.tracks p hdigest
    rw [htracks.indexes]
    rcases htracks.count with hcount | ⟨hcount, hinflight⟩
    · exact .inl (congrArg range hcount)
    · exact .inr ⟨congrArg range hcount, hinflight⟩

/-- The channel has the first chunk, which the record does not show yet. -/
theorem recorded_progress_recovered :
    let s := Runs.run (step halves)
      (System.created (.created "d" "follow_up" "matrix" "abcd" none)) (recoveredRun.take 10)
    s.row.completedChunkCount = 0 ∧ s.row.inflightChunkIndex = some 0 ∧
      s.accepted.map (·.index) = range 1 := by
  intro s
  have hrow : s.row.completedChunkCount = 0 ∧ s.row.inflightChunkIndex = some 0 := by
    decide +kernel
  have hone : s.accepted.length = 1 := by decide +kernel
  rcases (recorded_progress halves "d" "follow_up" "matrix" "abcd" none (by decide)
    (recoveredRun.take 10)).1 with hnone | ⟨htaken, -⟩
  · have hlength := congrArg length hnone
    cases hlength
  · exact ⟨hrow.1, hrow.2, htaken⟩

end Cognis.Channels
