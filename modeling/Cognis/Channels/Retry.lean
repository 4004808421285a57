import Cognis.Channels.AtMostOnce

namespace Cognis.Channels

open Bool Option Program

/-- Every check passes, every transaction commits and every send is answered. -/
def goodChannel (capabilities : Capabilities) (id : String) (now : Nat) : Oracle where
  capabilities := some capabilities
  reply := .messageId (some id)
  env := { now := now }

/-- A program alone, to its end. -/
def work {α : Type} (oracle : Oracle) (x : Delivery α) (s : System) : α × System :=
  x.handle (fun t o => t.perform oracle o) s

/-- `_deliver_outbox` by a new worker, that nobody disturbs. -/
def System.attempt (s : System) (splitMarkdown : String → Nat → List String) (oracle : Oracle)
    (c : DeliverCall) : System :=
  (work oracle (deliverOutbox splitMarkdown s.nextToken c) s).2

def DeliverCall.content (c : DeliverCall) (row : Row) : String :=
  orText c.finalContent (orText c.fallbackText row.fallbackText)

section

variable {oracle : Oracle}

theorem work_bind {α β : Type} (x : Delivery α) (f : α → Delivery β) (s : System) :
    work oracle (x >>= f) s = work oracle (f (work oracle x s).1) (work oracle x s).2 :=
  handle_bind _ _ _ _

@[simp] theorem work_pure {α : Type} (a : α) (s : System) :
    work oracle (pure a : Delivery α) s = (a, s) := rfl

variable {capabilities : Capabilities} {id : String} {now : Nat}

theorem work_ask (s : System) : work (goodChannel capabilities id now) ask s = (.yes, s) := rfl

theorem work_update (u : Update) (s : System) :
    work (goodChannel capabilities id now) (update u) s = (some (u.apply { now := now } s.row),
        { s with row := (u.apply { now := now } s.row).2 }) := rfl

theorem work_checkFence (applies : Bool) (s : System) :
    work (goodChannel capabilities id now) (checkFence applies) s = (true, s) := by
  cases applies with
  | false | true => rfl

theorem work_saveChunkStart (token : Nat) (row : Row) (index projected : Nat) (p : Projection)
    (idempotent : Bool) (s : System) :
    work (goodChannel capabilities id now)
        (saveChunkStart token row index projected p idempotent) s =
      ((s.row.markChunkInflight token index projected p idempotent now).1, { s with
          row := (s.row.markChunkInflight token index projected p idempotent now).2 }) := by
  unfold saveChunkStart
  simp only [work_bind, work_ask, bne_self_eq_false, false_eq_true, if_false,
    work_checkFence, Bool.not_true, work_update]
  rfl

theorem work_sendChunk (token : Nat) (row : Row) (index projected : Nat) (p : Projection)
    (chunk : String) (delivered : Bool) (s : System)
    (hfound : (s.row.markChunkInflight token index projected p
      (chunkIdempotent row.deliveryId p) now).1) :
    work (goodChannel capabilities id now)
        (sendChunk token row p projected index chunk delivered) s =
      work (goodChannel capabilities id now)
        (sendMessage token row p projected index chunk delivered)
        { s with
          row := (s.row.markChunkInflight token index projected p
            (chunkIdempotent row.deliveryId p) now).2 } := by
  unfold sendChunk
  rw [work_bind, work_saveChunkStart]
  simp only [hfound, Bool.not_true, false_eq_true, if_false]
  split
  · rw [work_bind, work_ask]
  · rfl

end

section

variable {splitMarkdown : String → Nat → List String} {capabilities : Capabilities}
  {id deliveryId : String} {now token index : Nat} {p : Projection} {row : Row} {s : System}

/-- The row is ready for its next chunk, and the channel has the ones before it, or has that
one too, by its key. -/
structure Ready (splitMarkdown : String → Nat → List String) (deliveryId : String) (token : Nat)
    (p : Projection) (index : Nat) (s : System) : Prop where
  leased : s.row.leased token = true
  completed : s.row.completedChunkCount = index
  projected : ∀ n, s.row.projectedChunkCount = some n → n = (p.chunks splitMarkdown).length
  digest : ∀ q, s.row.projectionDigest = some q → q = p
  inflight : ∀ i, s.row.inflightChunkIndex = some i → i = index
  accepted : s.accepted = (acceptedOf splitMarkdown deliveryId p).take index ∨
    (s.accepted = (acceptedOf splitMarkdown deliveryId p).take (index + 1) ∧
      chunkIdempotent deliveryId p = true)

theorem Ready.marks (h : Ready splitMarkdown deliveryId token p index s) (now : Nat)
    (idempotent : Bool) :
    s.row.markChunkInflight token index (p.chunks splitMarkdown).length p idempotent now =
      (true, s.row.marked index p (p.chunks splitMarkdown).length idempotent
        (now + deliveryLeaseDuration)) := by
  have hprojected : (s.row.projectedChunkCount.all fun n =>
      n == (p.chunks splitMarkdown).length) := by
    rw [all_eq_true]
    intro n hn
    exact beq_iff_eq.mpr (h.projected n hn)
  have hdigest : (s.row.projectionDigest.all fun q => q == p) := by
    rw [all_eq_true]
    intro q hq
    exact beq_iff_eq.mpr (h.digest q hq)
  have hinflight : (s.row.inflightChunkIndex.all fun i => i == index) := by
    rw [all_eq_true]
    intro i hi
    exact beq_iff_eq.mpr (h.inflight i hi)
  unfold Row.markChunkInflight Row.updateWhere
  rw [h.leased, h.completed, hprojected, hdigest, hinflight]
  simp only [beq_self_eq_true, Bool.and_self, if_true]
  rfl

theorem Ready.accepts (h : Ready splitMarkdown deliveryId token p index s)
    {message : OutboundMessage}
    (hchunk : (p.chunks splitMarkdown)[index]? = some message.content)
    (hmessage : message.idempotencyKey = idempotencyKey deliveryId p index) :
    accept s.accepted index message = (acceptedOf splitMarkdown deliveryId p).take (index + 1) := by
  have hget : (acceptedOf splitMarkdown deliveryId p)[index]? =
      some ⟨index, message.content, message.idempotencyKey⟩ :=
    getElem?_acceptedOf hchunk hmessage
  have hnext : (acceptedOf splitMarkdown deliveryId p).take (index + 1) =
      (acceptedOf splitMarkdown deliveryId p).take index ++
        [⟨index, message.content, message.idempotencyKey⟩] := by
    rw [List.take_add_one, hget]
    rfl
  unfold accept
  cases hflag : chunkIdempotent deliveryId p with
  | false =>
    have hkey : message.idempotencyKey = none := by simp [hmessage, idempotencyKey, hflag]
    rcases h.accepted with hshown | ⟨-, htrue⟩
    · rw [hshown, hnext, hkey]
      rfl
    · rw [hflag] at htrue
      cases htrue
  | true =>
    have hsome : message.idempotencyKey.isSome := by
      simp [hmessage, idempotencyKey, hflag]
    have hany : ∀ n, ((acceptedOf splitMarkdown deliveryId p).take n).any
        (fun a => a.idempotencyKey == message.idempotencyKey) = decide (index < n) :=
      fun n => any_key_take n hchunk hmessage hflag
    rcases h.accepted with hshown | ⟨hshown, -⟩
    · have hnot := hany index
      rw [decide_eq_false (Nat.lt_irrefl index)] at hnot
      rw [hshown, hnext, hsome, hnot]
      rfl
    · have hhas := hany (index + 1)
      rw [decide_eq_true (Nat.lt_succ_self index)] at hhas
      rw [hshown, hsome, hhas]
      rfl

theorem Ready.chunk (h : Ready splitMarkdown row.deliveryId token p index s)
    (capabilities : Capabilities) (now : Nat) {chunk : String}
    (hid : validMessageId (some id))
    (hchunk : (p.chunks splitMarkdown)[index]? = some chunk) (delivered : Bool) :
    ∃ s', work (goodChannel capabilities id now)
        (sendChunk token row p (p.chunks splitMarkdown).length index chunk delivered) s =
          (none, s') ∧
      Ready splitMarkdown row.deliveryId token p (index + 1) s' ∧
      s'.row.projectedChunkCount = some (p.chunks splitMarkdown).length := by
  have hmarks := h.marks now (chunkIdempotent row.deliveryId p)
  rw [work_sendChunk _ _ _ _ _ _ _ _ (by rw [hmarks]), hmarks]
  obtain ⟨hstatus, hlease⟩ := leased_iff.mp h.leased
  have hsaved : (s.row.marked index p (p.chunks splitMarkdown).length
      (chunkIdempotent row.deliveryId p) (now + deliveryLeaseDuration)).markChunkSent token
        (index + 1) (p.chunks splitMarkdown).length p now ⟨index, chunk, some id⟩ =
      (true, (s.row.marked index p (p.chunks splitMarkdown).length
        (chunkIdempotent row.deliveryId p) (now + deliveryLeaseDuration)).saved index p
          (p.chunks splitMarkdown).length ⟨index, chunk, some id⟩
          (now + deliveryLeaseDuration)) := by
    unfold Row.markChunkSent Row.updateWhere
    simp [Row.marked, Row.saved, Row.leased, hstatus, hlease, h.completed]
  refine ⟨{ s with
      row := (s.row.marked index p (p.chunks splitMarkdown).length
        (chunkIdempotent row.deliveryId p) (now + deliveryLeaseDuration)).saved index p
          (p.chunks splitMarkdown).length ⟨index, chunk, some id⟩ (now + deliveryLeaseDuration)
      accepted := (acceptedOf splitMarkdown row.deliveryId p).take (index + 1) }, ?_, ?_, rfl⟩
  · unfold sendMessage
    have hmessage : (p.chunks splitMarkdown)[index]? =
        some (OutboundMessage.mk chunk (idempotencyKey row.deliveryId p index)).content := hchunk
    have hsend : work (goodChannel capabilities id now)
        (perform (Op.send index ⟨chunk, idempotencyKey row.deliveryId p index⟩))
        { s with
          row := s.row.marked index p (p.chunks splitMarkdown).length
            (chunkIdempotent row.deliveryId p) (now + deliveryLeaseDuration) } =
        (.messageId (some id), { s with
            row := s.row.marked index p (p.chunks splitMarkdown).length
              (chunkIdempotent row.deliveryId p) (now + deliveryLeaseDuration)
            accepted := (acceptedOf splitMarkdown row.deliveryId p).take (index + 1) }) := by
      rw [← h.accepts hmessage rfl]
      rfl
    simp only [hsend, hid, Bool.not_true, Bool.and_false, false_eq_true, if_false,
      work_bind, work_update, Update.apply, hsaved]
    rfl
  · refine ⟨?_, rfl, ?_, ?_, ?_, .inl rfl⟩
    · simpa [Row.leased, Row.saved, Row.marked] using h.leased
    · intro n hn
      exact (some.inj hn).symm
    · intro q hq
      exact (some.inj hq).symm
    · intro n hn
      cases hn

theorem Ready.rest {chunks : List String}
    (h : Ready splitMarkdown row.deliveryId token p index s)
    (capabilities : Capabilities) (now : Nat) (hid : validMessageId (some id))
    (hprojected : s.row.projectedChunkCount = some (p.chunks splitMarkdown).length)
    (hle : index ≤ (p.chunks splitMarkdown).length)
    (hchunks : (p.chunks splitMarkdown).drop index = chunks) :
    ∃ s', work (goodChannel capabilities id now)
        (sendChunks token row p (p.chunks splitMarkdown).length index true chunks) s =
          (⟨.sent, none⟩, s') ∧
      Ready splitMarkdown row.deliveryId token p (p.chunks splitMarkdown).length s' ∧
      s'.row.projectedChunkCount = some (p.chunks splitMarkdown).length := by
  induction chunks generalizing index s with
  | nil =>
    have hlength : index = (p.chunks splitMarkdown).length := by
      have hdrop := List.drop_eq_nil_iff.mp hchunks
      omega
    subst hlength
    exact ⟨s, rfl, h, hprojected⟩
  | cons chunk chunks ih =>
    have hchunk : (p.chunks splitMarkdown)[index]? = some chunk := by
      rw [← List.head?_drop, hchunks, List.head?_cons]
    have hlt := (List.getElem?_eq_some_iff.mp hchunk).1
    have hrest : (p.chunks splitMarkdown).drop (index + 1) = chunks := by
      rw [← List.tail_drop, hchunks, List.tail_cons]
    obtain ⟨s₁, hwork, hready, hcount⟩ :=
      h.chunk capabilities now hid hchunk true
    obtain ⟨s', hloop, hfinal⟩ := ih hready hcount hlt hrest
    refine ⟨s', ?_, hfinal⟩
    unfold sendChunks
    rw [work_bind, hwork]
    exact hloop

end

section

variable {splitMarkdown : String → Nat → List String} {capabilities : Capabilities}
  {id deliveryId content : String} {now token : Nat} {row : Row} {s : System}

theorem work_sendToRoute (hcompleted : row.completedChunkCount = 0) (hcontent : content ≠ "") :
    work (goodChannel capabilities id now) (sendToRoute splitMarkdown token row content) s =
      work (goodChannel capabilities id now)
        (sendChunks token row ⟨row.channelType, capabilities, content⟩
          (Projection.chunks splitMarkdown ⟨row.channelType, capabilities, content⟩).length 0
          false (Projection.chunks splitMarkdown ⟨row.channelType, capabilities, content⟩)) s := by
  unfold sendToRoute
  change work _ (if content = "" then _ else _) s = _
  rw [if_neg hcontent, hcompleted]
  simp only [Nat.lt_irrefl, decide_false, Bool.and_false, false_eq_true, if_false,
    List.drop_zero]
  simp

def System.claimed (s : System) (now : Nat) : System :=
  { s with row := s.row.claimed s.nextToken (now + deliveryLeaseDuration) }

theorem attempt_eq (c : DeliverCall) {p : Projection} {o : Outcome} {s' : System}
    (hp : p = ⟨s.row.channelType, capabilities, c.content s.row⟩)
    (hstatus : s.row.status = .pending ∨ s.row.status = .failed)
    (hcompleted : s.row.completedChunkCount = 0) (hfallback : s.row.fallbackText ≠ "")
    (hdue : c.ignoreNextAttempt ∨ (s.row.nextAttemptAt.all fun t => t ≤ now))
    (hwork : work (goodChannel capabilities id now)
      (sendChunks s.nextToken (s.claimed now).row p (p.chunks splitMarkdown).length 0 false
        (p.chunks splitMarkdown)) (s.claimed now) = (o, s')) :
    s.attempt splitMarkdown (goodChannel capabilities id now) c = { s' with
        row := ((settlement s.nextToken (s.claimed now).row
          (isManaged s.row && c.managedService) o).apply { now := now } s'.row).2 } := by
  have hclaim : s.row.claim s.nextToken now c.ignoreNextAttempt = (true, (s.claimed now).row) := by
    unfold Row.claim Row.updateWhere
    rw [if_pos]
    · rfl
    · rw [and_eq_true, or_eq_true, or_eq_true, beq_iff_eq, beq_iff_eq]
      exact ⟨hstatus, hdue⟩
  have happly : (Update.claim s.nextToken c.ignoreNextAttempt).apply { now := now } s.row =
      (true, (s.claimed now).row) := by
    simp [Update.apply, hclaim]
  have hcontent : c.content s.row ≠ "" := orText_ne (orText_ne hfallback)
  have hroute : work (goodChannel capabilities id now)
      (sendToRoute splitMarkdown s.nextToken (s.claimed now).row (c.content s.row))
      (s.claimed now) = (o, s') := by
    have hstart : (s.claimed now).row.completedChunkCount = 0 := hcompleted
    rw [work_sendToRoute hstart hcontent, ← hwork, hp]
    rfl
  have hclaimed : work (goodChannel capabilities id now)
      (deliverClaimed splitMarkdown s.nextToken (s.claimed now).row (c.content s.row)
        c.managedService) (s.claimed now) =
      ((), { s' with
        row := ((settlement s.nextToken (s.claimed now).row
          (isManaged s.row && c.managedService) o).apply { now := now } s'.row).2 }) := by
    unfold deliverClaimed
    have hlease : work (goodChannel capabilities id now)
        (if isManaged (s.claimed now).row = true then ask else pure Answer.yes)
        (s.claimed now) = (.yes, s.claimed now) := by
      split <;> rfl
    rw [work_bind, hlease]
    change work _ (sendToRoute splitMarkdown s.nextToken (s.claimed now).row
      (c.content s.row) >>= _) _ = _
    rw [work_bind, hroute]
    rfl
  unfold System.attempt deliverOutbox
  change (work _ (ask >>= _) s).2 = _
  simp only [work_bind, work_ask, bne_self_eq_false, false_eq_true, if_false,
    work_checkFence, Bool.not_true, work_update, happly]
  change (work _ (if c.content s.row = "" then _ else _) (s.claimed now)).2 = _
  rw [if_neg hcontent]
  exact congrArg Prod.snd hclaimed

theorem status_settlement_failed {managed : Bool} {env : Env} {row' : Row}
    (hstatus : row'.status = .sending) :
    ((settlement token row managed ⟨.failed, none⟩).apply env row').2.status ≠ .sent := by
  have habandon : ∀ text, ((row'.abandonPendingDelivery (some token) env.bindingOk false
      text)).2.status ≠ .sent := by
    intro text
    rcases abandonPendingDelivery_cases row' (some token) env.bindingOk false text with
      hnone | ⟨row'', hsome, -, hreleased⟩
    · rw [hnone]
      rw [hstatus]
      nofun
    · rw [hsome]
      rw [hreleased]
      nofun
  have hfailed : ∀ text, (row'.markFailed token text env.now).2.status ≠ .sent := by
    intro text
    rcases markFailed_cases row' token env.now text with
      hnone | ⟨-, row'', hsome, -, hreleased⟩
    · rw [hnone]
      rw [hstatus]
      nofun
    · rw [hsome]
      rw [hreleased]
      nofun
  unfold settlement
  cases managed with
  | false => exact hfailed _
  | true =>
    by_cases hlast : managedDeliveryMaxAttempts ≤ row.attemptCount + 1
    · simp only [Bool.true_and, hlast]
      exact habandon _
    · simp only [Bool.true_and, hlast]
      exact hfailed _

theorem status_settlement_sent {managed : Bool} {row' : Row}
    (hleased : row'.leased token)
    (hcomplete : row'.projectedChunkCount = some row'.completedChunkCount) :
    ((settlement token row managed ⟨.sent, none⟩).apply { now := now } row').2.status =
      .sent := by
  cases managed with
  | false =>
    simp [settlement, Update.apply, Row.markSent, Row.updateWhere, hleased, hcomplete, Row.release]
  | true =>
    simp [settlement, Update.apply, Row.completePendingDelivery, Row.updateWhere, hleased,
      hcomplete, Row.release]

theorem System.Sound.ready {owner : Option Nat} {p : Projection}
    (h : s.Sound splitMarkdown deliveryId owner) (now : Nat)
    (hstatus : s.row.status = .pending ∨ s.row.status = .failed)
    (hcompleted : s.row.completedChunkCount = 0)
    (hdigest : ∀ q, s.row.projectionDigest = some q → q = p) :
    Ready splitMarkdown deliveryId s.nextToken p 0 (s.claimed now) := by
  cases hsome : s.row.projectionDigest with
  | none =>
    obtain ⟨hprojected, -, hinflight, haccepted⟩ := h.kept.sound.blank hsome
    refine ⟨by simp [System.claimed, Row.leased, Row.claimed], hcompleted, ?_, hdigest, ?_, .inl ?_⟩
    · intro n hn
      rw [System.claimed, Row.claimed, hprojected] at hn
      cases hn
    · intro i hi
      rw [System.claimed, Row.claimed, hinflight] at hi
      cases hi
    · exact haccepted
  | some q =>
    obtain rfl := hdigest q hsome
    have htracks := h.kept.sound.tracks q hsome
    refine ⟨by simp [System.claimed, Row.leased, Row.claimed], hcompleted, ?_, hdigest, ?_, ?_⟩
    · intro n hn
      rw [System.claimed, Row.claimed, htracks.projected] at hn
      exact (some.inj hn).symm
    · intro i hi
      exact (htracks.inflight i hi).1.trans hcompleted
    · have htaken := htracks.accepted_eq
      rcases htracks.count with hcount | ⟨hcount, -⟩
      · rw [hcount, hcompleted] at htaken
        exact .inl htaken
      · refine .inr ⟨?_, ?_⟩
        · rw [hcount, hcompleted] at htaken
          exact htaken
        · by_contra hflag
          obtain ⟨hpending, hfailed⟩ :=
            htracks.retry hcount (eq_false_of_not_eq_true hflag)
          rcases hstatus with h | h
          · exact hpending h
          · exact hfailed h

theorem work_sendChunks_refused {p q : Projection} {chunk : String} {chunks : List String}
    (hrow : s.row.projectionDigest = some q) (hne : q ≠ p) (projected : Nat) :
    work (goodChannel capabilities id now)
        (sendChunks token row p projected 0 false (chunk :: chunks)) s = (⟨.failed, none⟩, s) := by
  have hrefused : s.row.markChunkInflight token 0 projected p
      (chunkIdempotent row.deliveryId p) now = (false, s.row) := by
    rcases markChunkInflight_cases s.row token 0 projected p (chunkIdempotent row.deliveryId p)
      now with hnone | ⟨-, -, hdigest, -⟩
    · exact hnone
    · exact absurd (hdigest q hrow) hne
  unfold sendChunks sendChunk
  simp only [work_bind, work_saveChunkStart, hrefused, Bool.not_false, if_true, work_pure]

/-- A further attempt ends with every chunk accepted exactly when its text has a chunk and
the row has no projection of another text yet. -/
theorem further_attempt_sends_iff (splitMarkdown : String → Nat → List String)
    (deliveryId sourceType channelType fallbackText : String) (nextAttemptAt : Option Nat)
    (htext : fallbackText ≠ "") (events : List Event) (c : DeliverCall)
    (capabilities : Capabilities) (id : String) (hid : validMessageId (some id))
    (now : Nat) :
    let s := Runs.run (step splitMarkdown)
      (System.created (.created deliveryId sourceType channelType fallbackText nextAttemptAt))
      events
    let p : Projection := ⟨s.row.channelType, capabilities, c.content s.row⟩
    let after := s.attempt splitMarkdown (goodChannel capabilities id now) c
    s.row.completedChunkCount = 0 → s.row.status = .pending ∨ s.row.status = .failed →
    c.ignoreNextAttempt ∨ (s.row.nextAttemptAt.all fun t => t ≤ now) →
    ((after.row.status = .sent ∧
        after.accepted.map (fun a => (a.content, a.index)) = (p.chunks splitMarkdown).zipIdx) ↔
      p.chunks splitMarkdown ≠ [] ∧ ∀ q, s.row.projectionDigest = some q → q = p) := by
  intro s p after hcompleted hstatus hdue
  have hrun : ∃ owner, s.Sound splitMarkdown deliveryId owner :=
    sound_run splitMarkdown deliveryId sourceType channelType fallbackText nextAttemptAt htext
      events
  obtain ⟨owner, hsound⟩ := hrun
  have hfailed : work (goodChannel capabilities id now)
      (sendChunks s.nextToken (s.claimed now).row p (p.chunks splitMarkdown).length 0 false
        (p.chunks splitMarkdown)) (s.claimed now) = (⟨.failed, none⟩, s.claimed now) →
      after.row.status ≠ .sent := by
    intro hwork
    have hafter := attempt_eq c rfl hstatus hcompleted hsound.fallbackText_ne hdue hwork
    have hrow := congrArg (fun t : System => t.row.status) hafter
    rw [hrow]
    exact status_settlement_failed rfl
  constructor
  · rintro ⟨hsent, -⟩
    by_contra hcondition
    apply hfailed ?_ hsent
    cases hchunks : p.chunks splitMarkdown with
    | nil => rfl
    | cons =>
      have hother : ∃ q, s.row.projectionDigest = some q ∧ q ≠ p := by
        by_contra hnone
        apply hcondition
        refine ⟨by rw [hchunks]; nofun, ?_⟩
        intro q hq
        by_contra hne
        exact hnone ⟨q, hq, hne⟩
      obtain ⟨q, hq, hne⟩ := hother
      have hrow : (s.claimed now).row.projectionDigest = some q := hq
      exact work_sendChunks_refused hrow hne _
  · rintro ⟨hsome, hdigest⟩
    have hready : Ready splitMarkdown deliveryId s.nextToken p 0 (s.claimed now) :=
      hsound.ready now hstatus hcompleted hdigest
    obtain ⟨chunk, chunks, hchunks⟩ := List.exists_cons_of_ne_nil hsome
    have hfirst : (p.chunks splitMarkdown)[0]? = some chunk := by rw [hchunks]; rfl
    have hdelivery : (s.claimed now).row.deliveryId = deliveryId := hsound.deliveryId_eq
    rw [← hdelivery] at hready
    obtain ⟨s₁, hchunk, hready₁, hprojected₁⟩ :=
      hready.chunk capabilities now hid hfirst false
    have hlength : 0 < (p.chunks splitMarkdown).length := List.length_pos_of_ne_nil hsome
    have hrest : (p.chunks splitMarkdown).drop 1 = chunks := by rw [hchunks]; rfl
    obtain ⟨s₂, hloop, hready₂, hprojected₂⟩ :=
      hready₁.rest capabilities now hid hprojected₁ hlength hrest
    have hwork : work (goodChannel capabilities id now)
        (sendChunks s.nextToken (s.claimed now).row p (p.chunks splitMarkdown).length 0 false
          (p.chunks splitMarkdown)) (s.claimed now) = (⟨.sent, none⟩, s₂) := by
      have hall : sendChunks s.nextToken (s.claimed now).row p (p.chunks splitMarkdown).length 0
          false (p.chunks splitMarkdown) =
          sendChunks s.nextToken (s.claimed now).row p (p.chunks splitMarkdown).length 0
            false (chunk :: chunks) := congrArg _ hchunks
      rw [hall]
      unfold sendChunks
      rw [work_bind, hchunk]
      exact hloop
    have hafter := attempt_eq c rfl hstatus hcompleted hsound.fallbackText_ne hdue hwork
    refine ⟨?_, ?_⟩
    · have hrow := congrArg (fun t : System => t.row.status) hafter
      rw [hrow]
      apply status_settlement_sent hready₂.leased
      rw [hprojected₂, hready₂.completed]
    · have haccepted := congrArg System.accepted hafter
      have hlen : (acceptedOf splitMarkdown (s.claimed now).row.deliveryId p).length =
          (p.chunks splitMarkdown).length := by simp [acceptedOf]
      have hall : s₂.accepted = acceptedOf splitMarkdown (s.claimed now).row.deliveryId p := by
        rcases hready₂.accepted with hshown | ⟨hshown, -⟩
        · rw [hshown, List.take_of_length_le (Nat.le_of_eq hlen)]
        · rw [hshown, List.take_of_length_le (by omega)]
      rw [haccepted, hall]
      exact map_acceptedOf _ _ _

end

section

def rejectedRun : List Event :=
  [.deliver { finalContent := "reply", ignoreNextAttempt := true }] ++
    List.replicate 15 (.advance 0 { keyedChannel with reply := .error, accepts := false })

def rejectedState : System :=
  Runs.run (step halves) (System.created (.created "d" "delegation" "matrix" "done" none))
    rejectedRun

theorem stored_text_never_sent :
    let after := rejectedState.attempt halves (goodChannel ⟨some 2, true, ""⟩ "m" 600)
      { fallbackText := "done" }
    rejectedState.row.completedChunkCount = 0 ∧ rejectedState.row.status = .failed ∧
      rejectedState.accepted = [] ∧
      Projection.chunks halves ⟨"matrix", ⟨some 2, true, ""⟩, "done"⟩ = ["do", "ne"] ∧
      after.row.status = .failed ∧ after.accepted = [] := by
  decide +kernel

/-- The same text is sent at the next attempt. -/
theorem further_attempt_sends_iff_reply :
    let after := rejectedState.attempt halves (goodChannel ⟨some 2, true, ""⟩ "m" 600)
      { finalContent := "reply" }
    after.row.status = .sent ∧
      after.accepted.map (fun a => (a.content, a.index)) = [("re", 0), ("ply", 1)] := by
  have hiff := further_attempt_sends_iff halves "d" "delegation" "matrix" "done" none (by decide)
    rejectedRun { finalContent := "reply" } ⟨some 2, true, ""⟩ "m" (by decide) 600
    (by decide +kernel) (by decide +kernel) (by decide +kernel)
  exact hiff.mpr ⟨by decide +kernel, by decide +kernel⟩

end

end Cognis.Channels
