import Cognis.Library.Runs
import Cognis.UnaryDedup.Cache

namespace Cognis.UnaryDedup

open List Option Runs

variable {record : Inflight}

variable {R : Type}

inductive Op (R : Type) where
  | get (callId digest : String)
  | joinOrClaim (callId digest : String)
  | put (callId digest : String) (result : Frame R)
  | completeError (callId digest : String) (code : Int) (message : String)
  | evict (callId digest : String)
  | cancel (callId : String)
  | fail (callId : String) (error : Option String)
  | cancelInflight

structure Event (R : Type) where
  now : Int
  op : Op R

/-- A future that `join_or_claim` has returned. -/
structure Handed where
  callId : String
  digest : String
  future : Nat
  owner : Bool
  deriving DecidableEq

/-- `running` holds the ids of the calls whose owner's call has not ended. -/
structure System (R : Type) where
  cache : Cache R := {}
  handed : List Handed := []
  running : List String := []

variable (settings : Settings) (s : System R) (e : Event R)

/-- The oldest ids in flight, as many as one more call pushes over the limit. -/
def overflow (c : Cache R) : List String :=
  c.inflight.keys.take (c.inflight.size + 1 - settings.limit)

/-- A caller of `join_or_claim`. -/
def System.join (now : Int) (callId digest : String) : System R :=
  match s.cache.joinOrClaim settings now callId digest with
  | (.error _, c) => { s with cache := c }
  | (.ok (future, owner), c) =>
    { cache := c
      handed := ⟨callId, digest, future, owner⟩ :: s.handed
      running :=
        if owner then callId :: s.running.filter (· ∉ overflow settings s.cache)
        else s.running }

def System.step : System R :=
  let ended (callId : String) := s.running.filter (· ≠ callId)
  match e.op with
  | .get callId digest => { s with cache := (s.cache.get e.now callId digest).2 }
  | .joinOrClaim callId digest => s.join settings e.now callId digest
  | .put callId digest result =>
    { s with cache := (s.cache.put settings e.now callId digest result).2
             running := ended callId }
  | .completeError callId digest code message =>
    { s with cache := (s.cache.completeError settings e.now callId digest code message).2
             running := ended callId }
  | .evict callId digest =>
    { s with cache := (s.cache.evict settings e.now callId digest).2
             running := ended callId }
  | .cancel callId => { s with cache := s.cache.cancel callId, running := ended callId }
  | .fail callId error => { s with cache := s.cache.fail callId error, running := ended callId }
  | .cancelInflight => { s with cache := s.cache.cancelInflight, running := [] }

/-- `put` and `complete_error` come from a caller that was made owner with this digest. -/
def Owned : Prop :=
  match e.op with
  | .put callId digest _ | .completeError callId digest _ _ =>
    ∃ h ∈ s.handed, h.callId = callId ∧ h.digest = digest ∧ h.owner = true
  | _ => True

def Matching : Prop :=
  match e.op with
  | .put callId digest _ | .completeError callId digest _ _ | .evict callId digest =>
    ∀ record, s.cache.inflight.get? callId = some record → record.digest ≠ digest →
      ∀ h ∈ s.handed, h.future = record.future → h.owner = true
  | _ => True

def Honest : Prop :=
  ∀ h ∈ s.handed, h.owner = false → ∀ frame digest,
    s.cache.futures[h.future]? = some (.done frame (some digest)) → digest = h.digest

structure OneOwner (settings : Settings) (s : System R) : Prop where
  disjoint : ∀ callId, callId ∈ s.cache.entries.keys → callId ∉ s.cache.inflight.keys
  entriesBound : s.cache.entries.size ≤ settings.limit
  inflightBound : s.cache.inflight.size ≤ settings.limit
  waiting : ∀ h ∈ s.handed, s.cache.futures[h.future]? = some .pending →
    ∃ record, s.cache.inflight.get? h.callId = some record ∧ record.future = h.future
  honest : Honest s
  oneOwner : s.running.Nodup

structure Cache.Shrunk (c c' : Cache R) : Prop where
  entries : ∀ callId entry, c'.entries.get? callId = some entry → c.entries.get? callId = some entry
  size : c'.entries.size ≤ c.entries.size
  inflight : c'.inflight = c.inflight
  futures : c'.futures = c.futures

def Cache.recorded (c : Cache R) (callId : String) (entry : Entry R) : Cache R :=
  let c := { c with entries := (c.entries.set callId entry).newest settings.limit }
  c.popInflight callId (.done entry.result (some entry.digest))

def Cache.Records (callId digest : String) (c c' : Cache R) : Prop :=
  ∃ kept, c.Shrunk kept ∧ ((∃ entry, kept.entries.get? callId = some entry) ∧ c' = kept ∨
      kept.entries.get? callId = none ∧
        ∃ entry : Entry R, entry.digest = digest ∧ c' = kept.recorded settings callId entry)

section

variable {settings : Settings} {c c' c'' : Cache R} {now : Int} {callId digest : String}
  {result : Frame R} {code : Int} {message : String}

theorem Cache.Shrunk.trans (h : c.Shrunk c') (h' : c'.Shrunk c'') : c.Shrunk c'' where
  entries := fun callId entry hentry => h.entries callId entry (h'.entries callId entry hentry)
  size := Nat.le_trans h'.size h.size
  inflight := h'.inflight.trans h.inflight
  futures := h'.futures.trans h.futures

theorem Cache.shrunk_purge : c.Shrunk (c.purge now) where
  entries := fun _ _ => get?_purge
  size := OrderedMap.size_filter_le _ _
  inflight := rfl
  futures := rfl

theorem Cache.shrunk_moveToEnd : c.Shrunk { c with entries := c.entries.moveToEnd callId } where
  entries := by
    intro other entry h
    rw [OrderedMap.get?_moveToEnd] at h
    exact h
  size := OrderedMap.size_moveToEnd_le _ _
  inflight := rfl
  futures := rfl

/-- `get` keeps the calls, and returns the entry of the id if its digest is the one asked for. -/
theorem Cache.get_cases (c : Cache R) (now : Int) (callId digest : String) :
    ∃ reply kept, c.get now callId digest = (reply, kept) ∧ c.Shrunk kept ∧
    (reply = .error ⟨callId⟩ ∧ (∃ entry, kept.entries.get? callId = some entry) ∨
      reply = .ok none ∧ kept.entries.get? callId = none ∨
      ∃ entry, reply = .ok (some entry.result) ∧ entry.digest = digest ∧
        kept.entries.get? callId = some entry) := by
  unfold get
  dsimp only
  cases hentry : (c.purge now).entries.get? callId with
  | none => exact ⟨_, _, rfl, shrunk_purge, .inr (.inl ⟨rfl, hentry⟩)⟩
  | some entry =>
    dsimp only
    split_ifs with hdigest
    · exact ⟨_, _, rfl, shrunk_purge, .inl ⟨rfl, entry, hentry⟩⟩
    · refine ⟨_, _, rfl, shrunk_purge.trans shrunk_moveToEnd, .inr (.inr ⟨entry, rfl, ?_, ?_⟩)⟩
      · exact not_not.mp hdigest
      · rw [OrderedMap.get?_moveToEnd, hentry]

theorem Cache.put_records :
    c.Records settings callId digest (c.put settings now callId digest result).2 := by
  refine ⟨c.purge now, shrunk_purge, ?_⟩
  unfold put
  dsimp only
  cases hentry : (c.purge now).entries.get? callId with
  | none => exact .inr ⟨rfl, ⟨digest, _, result⟩, rfl, rfl⟩
  | some entry =>
    left
    dsimp only
    split_ifs
    · exact ⟨⟨entry, rfl⟩, rfl⟩
    · exact ⟨⟨entry, rfl⟩, rfl⟩

theorem Cache.Records.of_shrunk (h : c.Shrunk c') (h' : c'.Records settings callId digest c'') :
    c.Records settings callId digest c'' := by
  obtain ⟨kept, hkept, hcases⟩ := h'
  exact ⟨kept, h.trans hkept, hcases⟩

theorem Cache.completeError_records : c.Records settings callId digest
    (c.completeError settings now callId digest code message).2 := by
  obtain ⟨reply, kept, hget, hshrunk, hcases⟩ := c.get_cases now callId digest
  unfold completeError
  rw [hget]
  rcases hcases with ⟨rfl, hentry⟩ | ⟨rfl, -⟩ | ⟨entry, rfl, -, hentry⟩
  · exact ⟨kept, hshrunk, .inl ⟨hentry, rfl⟩⟩
  · exact .of_shrunk hshrunk put_records
  · exact ⟨kept, hshrunk, .inl ⟨⟨entry, hentry⟩, rfl⟩⟩

theorem Cache.Shrunk.absent (h : c.Shrunk c') (hentry : c.entries.get? callId = none) :
    c'.entries.get? callId = none := by
  cases h' : c'.entries.get? callId with
  | none => rfl
  | some entry =>
    rw [h.entries callId entry h'] at hentry
    cases hentry

theorem Cache.evict_of_absent (settings : Settings) (now : Int) (digest : String)
    (h : c.entries.get? callId = none) : ∃ frame kept entry,
    c.evict settings now callId digest = (.ok frame, kept.recorded settings callId entry) ∧
      c.Shrunk kept ∧ kept.entries.get? callId = none ∧ entry.digest = digest := by
  obtain ⟨reply, kept, hget, hshrunk, hcases⟩ := c.get_cases now callId digest
  have hkept := hshrunk.absent h
  rcases hcases with ⟨rfl, entry, hentry⟩ | ⟨rfl, -⟩ | ⟨entry, -, -, hentry⟩
  · rw [hkept] at hentry
    cases hentry
  · have hpurged : (kept.purge now).entries.get? callId = none := shrunk_purge.absent hkept
    let frame : Frame R := .error (-32099) "Replay-safe unary call was evicted before completion"
    refine ⟨frame, kept.purge now, ⟨digest, now + settings.lifetime, frame⟩, ?_,
      hshrunk.trans shrunk_purge, hpurged, rfl⟩
    unfold evict completeError
    rw [hget]
    unfold put
    dsimp only
    rw [hpurged]
    rfl
  · rw [hkept] at hentry
    cases hentry

theorem Cache.recorded_eq {entry : Entry R} : c.recorded settings callId entry =
    { c.popInflight callId (.done entry.result (some entry.digest)) with
      entries := (c.entries.set callId entry).newest settings.limit } := by
  unfold recorded popInflight
  dsimp only
  cases c.inflight.get? callId with
  | none => rfl
  | some =>
    dsimp only [settleFuture]
    split_ifs <;> rfl

theorem Cache.getElem?_popInflight (future : Future R) (i : Nat)
    (h : c.inflight.get? callId = some record)
    (hpending : c.futures[record.future]? = some .pending) :
    (c.popInflight callId future).futures[i]? =
      if i = record.future then some future else c.futures[i]? := by
  have hlt : record.future < c.futures.length := (List.getElem?_eq_some_iff.mp hpending).1
  unfold popInflight
  rw [h]
  dsimp only [settleFuture]
  rw [hpending, if_pos (by rfl), getElem?_set]
  split_ifs with heq hother
  · rfl
  · exact absurd heq.symm hother
  · rename_i hne
    exact absurd hne.symm heq
  · rfl

end

structure Coherent (settings : Settings) (s : System R) : Prop where
  disjoint : ∀ callId entry, s.cache.entries.get? callId = some entry →
    s.cache.inflight.get? callId = none
  entriesBound : s.cache.entries.size ≤ settings.limit
  pending : ∀ callId record, s.cache.inflight.get? callId = some record →
    s.cache.futures[record.future]? = some .pending
  apart : ∀ callId callId' record record', s.cache.inflight.get? callId = some record →
    s.cache.inflight.get? callId' = some record' → record.future = record'.future → callId = callId'
  waiting : ∀ h ∈ s.handed, s.cache.futures[h.future]? = some .pending →
    ∃ record, s.cache.inflight.get? h.callId = some record ∧ record.future = h.future ∧
      record.digest = h.digest
  known : ∀ h ∈ s.handed, h.future < s.cache.futures.length
  running : ∀ callId ∈ s.running, s.cache.inflight.get? callId ≠ none
  nodup : s.running.Nodup

section

variable {settings : Settings} {s : System R} {c : Cache R} {callId digest : String}
  {future : Future R} {entry : Entry R}

section

variable (h : Coherent settings s)

include h

theorem Coherent.shrink (hshrunk : s.cache.Shrunk c) : Coherent settings { s with cache := c } where
  disjoint := by
    intro callId entry hentry
    show c.inflight.get? callId = none
    rw [hshrunk.inflight]
    exact h.disjoint callId entry (hshrunk.entries callId entry hentry)
  entriesBound := Nat.le_trans hshrunk.size h.entriesBound
  pending := by
    show ∀ callId record, c.inflight.get? callId = some record → _
    rw [hshrunk.inflight, hshrunk.futures]
    exact h.pending
  apart := by
    show ∀ callId callId' record record', c.inflight.get? callId = some record → _
    rw [hshrunk.inflight]
    exact h.apart
  waiting := by
    show ∀ h ∈ s.handed, c.futures[h.future]? = some .pending → _
    rw [hshrunk.futures, hshrunk.inflight]
    exact h.waiting
  known := by
    show ∀ h ∈ s.handed, h.future < c.futures.length
    rw [hshrunk.futures]
    exact h.known
  running := by
    show ∀ callId ∈ s.running, c.inflight.get? callId ≠ none
    rw [hshrunk.inflight]
    exact h.running
  nodup := h.nodup

theorem Coherent.forget : Coherent settings { s with running := s.running.filter (· ≠ callId) } :=
  { h with
    running := fun callId hrunning => h.running callId (mem_of_mem_filter hrunning)
    nodup := h.nodup.filter _ }

theorem Coherent.pop (callId : String) (hdone : future ≠ .pending) :
    Coherent settings { s with cache := s.cache.popInflight callId future,
                               running := s.running.filter (· ≠ callId) } := by
  cases hrecord : s.cache.inflight.get? callId with
  | none =>
    have hsame : s.cache.popInflight callId future = s.cache := by
      unfold Cache.popInflight
      rw [hrecord]
    rw [hsame]
    exact h.forget
  | some record =>
    have hfutures := fun i => Cache.getElem?_popInflight future i hrecord
      (h.pending callId record hrecord)
    refine ⟨?_, ?_, ?_, ?_, ?_, ?_, ?_, h.nodup.filter _⟩
    · intro other entry hentry
      rw [Cache.popInflight_entries] at hentry
      rw [Cache.get?_popInflight]
      split_ifs
      · rfl
      · exact h.disjoint other entry hentry
    · rw [Cache.popInflight_entries]
      exact h.entriesBound
    · intro other record' hget
      rw [Cache.get?_popInflight] at hget
      split_ifs at hget with hother
      rw [hfutures, if_neg]
      · exact h.pending other record' hget
      · intro hsame
        exact hother (h.apart other callId record' record hget hrecord hsame)
    · intro id id' record record' hget hget' hsame
      rw [Cache.get?_popInflight] at hget hget'
      split_ifs at hget hget'
      exact h.apart id id' record record' hget hget' hsame
    · intro held hheld hpending
      rw [hfutures] at hpending
      split_ifs at hpending with hsame
      · exact absurd (some.inj hpending) hdone
      · obtain ⟨record', hget, hfuture, hdigest⟩ := h.waiting held hheld hpending
        refine ⟨record', ?_, hfuture, hdigest⟩
        rw [Cache.get?_popInflight, if_neg]
        · exact hget
        · rintro heq
          rw [heq, hrecord] at hget
          cases hget
          exact hsame hfuture.symm
    · intro held hheld
      rw [Cache.popInflight_length]
      exact h.known held hheld
    · intro other hrunning
      rw [mem_filter, decide_eq_true_iff] at hrunning
      rw [Cache.get?_popInflight, if_neg hrunning.2]
      exact h.running other hrunning.1

theorem Coherent.write (habsent : s.cache.inflight.get? callId = none)
    (c₀ : OrderedMap String (Entry R))
    (hentries : ∀ other entry, c₀.get? other = some entry → s.cache.entries.get? other = some entry)
      :
    Coherent settings { s with
      cache := { s.cache with entries := (c₀.set callId entry).newest settings.limit } } :=
  { h with
    disjoint := by
      intro other entry' hentry
      have hset := OrderedMap.get?_of_subset (drop_subset _ _) hentry
      rw [OrderedMap.get?_set] at hset
      split_ifs at hset with heq
      · rw [heq]
        exact habsent
      · exact h.disjoint other entry' (hentries other entry' hset)
    entriesBound := OrderedMap.size_newest_le _ _ }

theorem Coherent.recorded : Coherent settings
    { s with cache := s.cache.recorded settings callId entry,
             running := s.running.filter (· ≠ callId) } := by
  have hdone : Future.done entry.result (some entry.digest) ≠ .pending := by simp
  have hpop := h.pop callId hdone
  rw [Cache.recorded_eq]
  apply hpop.write
  · rw [Cache.get?_popInflight, if_pos rfl]
  · intro other entry' hentry
    rw [Cache.popInflight_entries]
    exact hentry

theorem Coherent.records (hrecords : s.cache.Records settings callId digest c) : Coherent settings
      { s with cache := c, running := s.running.filter (· ≠ callId) } := by
  obtain ⟨kept, hshrunk, ⟨-, rfl⟩ | ⟨-, entry, -, rfl⟩⟩ := hrecords
  · exact (h.shrink hshrunk).forget
  · exact (h.shrink hshrunk).recorded

/-- A frame recorded for the digest of the call in flight is put on no other joiner, and one
recorded for another digest is: the call is in flight, so it has no entry. -/
theorem Coherent.records_honest_iff (hhonest : Honest s)
    (hrecords : s.cache.Records settings callId digest c) (running : List String) :
    Honest { s with cache := c, running } ↔
      ∀ record, s.cache.inflight.get? callId = some record → record.digest ≠ digest →
        ∀ held ∈ s.handed, held.future = record.future → held.owner = true := by
  obtain ⟨kept, hshrunk, hcases⟩ := hrecords
  have hkept := h.shrink hshrunk
  cases hrecord : s.cache.inflight.get? callId with
  | none =>
    have hsame : c.futures = s.cache.futures := by
      rcases hcases with ⟨-, rfl⟩ | ⟨-, entry, -, rfl⟩
      · exact hshrunk.futures
      · rw [Cache.recorded_eq, Cache.popInflight, hshrunk.inflight, hrecord]
        exact hshrunk.futures
    constructor
    · rintro - record hget
      cases hget
    · rintro - held hheld howner frame other hdone
      rw [hsame] at hdone
      exact hhonest held hheld howner frame other hdone
  | some record =>
    have hget : kept.inflight.get? callId = some record := by
      rw [hshrunk.inflight]
      exact hrecord
    rcases hcases with ⟨⟨entry, hentry⟩, -⟩ | ⟨-, entry, rfl, rfl⟩
    · have hnone := hkept.disjoint callId entry hentry
      rw [hget] at hnone
      cases hnone
    · have hfutures (i : Nat) : (kept.recorded settings callId entry).futures[i]? =
          if i = record.future then some (.done entry.result (some entry.digest))
          else s.cache.futures[i]? := by
        rw [Cache.recorded_eq, ← hshrunk.futures]
        exact Cache.getElem?_popInflight _ _ hget (hkept.pending callId record hget)
      have hjoined : ∀ held ∈ s.handed, held.future = record.future →
          held.digest = record.digest := by
        intro held hheld hsame
        have hpending := h.pending callId record hrecord
        rw [← hsame] at hpending
        obtain ⟨record', hget', hfuture, hdigest⟩ := h.waiting held hheld hpending
        have hid := h.apart held.callId callId record' record hget' hrecord (hfuture.trans hsame)
        rw [hid, hrecord] at hget'
        rw [← hdigest, some.inj hget']
      constructor
      · intro hafter record' hget' hne held hheld hsame
        cases hget'
        by_contra howner
        have hdone := hafter held hheld (Bool.not_eq_true _ ▸ howner) entry.result entry.digest
          (by dsimp only; rw [hfutures, if_pos hsame])
        exact hne ((hjoined held hheld hsame).symm.trans hdone.symm)
      · intro hmatching held hheld howner frame other hdone
        rw [hfutures] at hdone
        split_ifs at hdone with hsame
        · have hother : other = entry.digest := by
            injection hdone with hdone
            injection hdone with _ hother
            exact (some.inj hother).symm
          by_contra hne
          have hmismatch : record.digest ≠ entry.digest := by
            intro heq
            exact hne (hother.trans (heq.symm.trans (hjoined held hheld hsame).symm))
          rw [hmatching record rfl hmismatch held hheld hsame] at howner
          cases howner
        · exact hhonest held hheld howner frame other hdone

theorem Coherent.claim (digest : String) (hentry : s.cache.entries.get? callId = none)
    (hinflight : s.cache.inflight.get? callId = none) : Coherent settings
      { cache := s.cache.inserted callId digest
        handed := ⟨callId, digest, s.cache.futures.length, true⟩ :: s.handed
        running := callId :: s.running } := by
  have hold : ∀ i, i < s.cache.futures.length →
      (s.cache.futures ++ [Future.pending])[i]? = s.cache.futures[i]? :=
    fun i hi => getElem?_append_left hi
  have hbelow : ∀ other record, s.cache.inflight.get? other = some record →
      record.future < s.cache.futures.length :=
    fun other record hget => (List.getElem?_eq_some_iff.mp (h.pending other record hget)).1
  refine ⟨?_, h.entriesBound, ?_, ?_, ?_, ?_, ?_, ?_⟩
  · intro other entry hget
    dsimp only [Cache.inserted] at hget ⊢
    rw [OrderedMap.get?_set, if_neg]
    · exact h.disjoint other entry hget
    · rintro rfl
      rw [hentry] at hget
      cases hget
  · intro other record hget
    dsimp only [Cache.inserted] at hget ⊢
    rw [OrderedMap.get?_set] at hget
    split_ifs at hget
    · cases hget
      simp
    · rw [hold _ (hbelow other record hget)]
      exact h.pending other record hget
  · intro id id' record record' hget hget' hsame
    dsimp only [Cache.inserted] at hget hget'
    rw [OrderedMap.get?_set] at hget hget'
    split_ifs at hget hget' with heq heq' heq'
    · rw [heq, heq']
    · cases hget
      have hlt := hbelow id' record' hget'
      rw [← hsame] at hlt
      exact absurd hlt (Nat.lt_irrefl _)
    · cases hget'
      have hlt := hbelow id record hget
      rw [hsame] at hlt
      exact absurd hlt (Nat.lt_irrefl _)
    · exact h.apart id id' record record' hget hget' hsame
  · intro held hheld hpending
    dsimp only [Cache.inserted] at hpending ⊢
    rcases mem_cons.mp hheld with rfl | hheld
    · exact ⟨_, OrderedMap.get?_set_self _ _ _, rfl, rfl⟩
    · rw [hold _ (h.known held hheld)] at hpending
      obtain ⟨record, hget, hfuture, hdigest⟩ := h.waiting held hheld hpending
      refine ⟨record, ?_, hfuture, hdigest⟩
      rw [OrderedMap.get?_set, if_neg]
      · exact hget
      · intro heq
        rw [heq, hinflight] at hget
        cases hget
  · intro held hheld
    dsimp only [Cache.inserted]
    rw [length_append]
    rcases mem_cons.mp hheld with rfl | hheld
    · exact Nat.lt_succ_self _
    · exact Nat.lt_succ_of_lt (h.known held hheld)
  · intro other hrunning
    dsimp only [Cache.inserted]
    rw [OrderedMap.get?_set]
    split_ifs with heq
    · simp
    · exact h.running other ((mem_cons.mp hrunning).resolve_left heq)
  · refine nodup_cons.mpr ⟨?_, h.nodup⟩
    intro hrunning
    exact h.running callId hrunning hinflight

end

theorem Honest.pop (h : Honest s) (hfuture : ∀ frame digest, future ≠ .done frame (some digest))
    (running : List String) :
    Honest { s with cache := s.cache.popInflight callId future, running } := by
  intro held hheld howner frame other hdone
  dsimp only [Cache.popInflight] at hdone
  split at hdone
  · exact h held hheld howner frame other hdone
  · dsimp only [Cache.settleFuture] at hdone
    split_ifs at hdone
    · rw [getElem?_set] at hdone
      split_ifs at hdone
      · exact absurd (some.inj hdone) (hfuture frame other)
      · exact h held hheld howner frame other hdone
    · exact h held hheld howner frame other hdone

theorem Coherent.replay (h : Coherent settings s) (frame : Frame R) : Coherent settings { s with
      cache := { s.cache with futures := s.cache.futures ++ [.done frame (some digest)] }
      handed := ⟨callId, digest, s.cache.futures.length, false⟩ :: s.handed } := by
  have hold : ∀ i, i < s.cache.futures.length →
      (s.cache.futures ++ [Future.done frame (some digest)])[i]? = s.cache.futures[i]? :=
    fun i hi => getElem?_append_left hi
  refine ⟨h.disjoint, h.entriesBound, ?_, h.apart, ?_, ?_, h.running, h.nodup⟩
  · intro other record hget
    have hpending := h.pending other record hget
    rw [hold _ (List.getElem?_eq_some_iff.mp hpending).1]
    exact hpending
  · intro held hheld hpending
    rcases mem_cons.mp hheld with rfl | hheld
    · simp at hpending
    · rw [hold _ (h.known held hheld)] at hpending
      exact h.waiting held hheld hpending
  · intro held hheld
    rw [length_append]
    rcases mem_cons.mp hheld with rfl | hheld
    · exact Nat.lt_succ_self _
    · exact Nat.lt_succ_of_lt (h.known held hheld)

theorem Coherent.join (h : Coherent settings s)
    (hget : s.cache.inflight.get? callId = some record) (hdigest : record.digest = digest) :
    Coherent settings { s with handed := ⟨callId, digest, record.future, false⟩ :: s.handed } :=
  { h with
    waiting := by
      intro held hheld hpending
      rcases mem_cons.mp hheld with rfl | hheld
      · exact ⟨record, hget, rfl, hdigest⟩
      · exact h.waiting held hheld hpending
    known := by
      intro held hheld
      rcases mem_cons.mp hheld with rfl | hheld
      · exact (List.getElem?_eq_some_iff.mp (h.pending callId record hget)).1
      · exact h.known held hheld }

theorem size_recorded_lt {kept : Cache R} (h : callId ∈ kept.inflight.keys) :
    (kept.recorded settings callId entry).inflight.size < kept.inflight.size := by
  have hget : kept.inflight.get? callId ≠ none := by
    intro hnone
    exact (kept.inflight.get?_eq_none_iff.mp hnone) h
  obtain ⟨record, hrecord⟩ := ne_none_iff_exists'.mp hget
  rw [Cache.recorded_eq]
  dsimp only [Cache.popInflight]
  rw [hrecord]
  rw [Cache.settleFuture_inflight]
  exact OrderedMap.size_erase_lt h

theorem evictOldest_eq (now : Int) (rounds : Nat)
    (hsize : c.inflight.size = settings.limit + 1)
    (hhead : c.inflight.entries.head? = some (callId, record))
    (habsent : c.entries.get? callId = none) : ∃ kept entry,
      Cache.evictOldest settings now (rounds + 1) c =
        (.ok (), kept.recorded settings callId entry) ∧
        c.Shrunk kept ∧ kept.entries.get? callId = none ∧ entry.digest = record.digest := by
  obtain ⟨frame, kept, entry, hevict, hshrunk, hkept, hdigest⟩ :=
    Cache.evict_of_absent settings now record.digest habsent
  refine ⟨kept, entry, ?_, hshrunk, hkept, hdigest⟩
  have hmem : callId ∈ kept.inflight.keys := by
    rw [hshrunk.inflight]
    exact mem_map.mpr ⟨_, mem_of_mem_head? hhead, rfl⟩
  have hlt : (kept.recorded settings callId entry).inflight.size < settings.limit + 1 := by
    rw [← hsize, ← hshrunk.inflight]
    exact size_recorded_lt hmem
  rw [Cache.evictOldest, if_neg (by omega), hhead]
  dsimp only
  rw [hevict]
  dsimp only
  cases rounds with
  | zero => rfl
  | succ => rw [Cache.evictOldest, if_pos (Nat.le_of_lt_succ hlt)]

theorem limit_pos (settings : Settings) : 0 < settings.limit := by
  unfold Settings.limit
  omega

theorem entries_inserted (h : c.inflight.get? callId = none) :
    (c.inserted callId digest).inflight.entries =
      c.inflight.entries ++ [(callId, ⟨digest, c.futures.length⟩)] :=
  OrderedMap.entries_set_of_not_mem _ (c.inflight.get?_eq_none_iff.mp h)

theorem size_inserted (digest : String) (h : c.inflight.get? callId = none) :
    (c.inserted callId digest).inflight.size = c.inflight.size + 1 := by
  unfold OrderedMap.size
  rw [entries_inserted h, length_append]
  rfl

theorem claim_of_room {now : Int} (h : c.inflight.get? callId = none)
    (hroom : c.inflight.size + 1 ≤ settings.limit) :
    c.claim settings now callId digest =
      (.ok (c.futures.length, true), c.inserted callId digest) := by
  have hsize := size_inserted digest h
  unfold Cache.claim
  dsimp only
  rw [hsize, Cache.evictOldest, if_pos (hsize ▸ hroom)]
  rfl

theorem claim_of_full (now : Int) (digest : String) {oldestId : String}
    {rest : List (String × Inflight)} (h : c.inflight.get? callId = none)
    (hfull : c.inflight.size = settings.limit)
    (hold : c.inflight.entries = (oldestId, record) :: rest)
    (habsent : c.entries.get? oldestId = none) : ∃ kept entry, c.claim settings now callId digest =
        (.ok (c.futures.length, true), kept.recorded settings oldestId entry) ∧
      (c.inserted callId digest).Shrunk kept ∧ kept.entries.get? oldestId = none ∧
      entry.digest = record.digest := by
  have hsize := size_inserted digest h
  have hhead : (c.inserted callId digest).inflight.entries.head? = some (oldestId, record) := by
    rw [entries_inserted h, hold]
    rfl
  obtain ⟨kept, entry, hevict, hshrunk, hkept, hdigest⟩ := evictOldest_eq now c.inflight.size
    (hsize.trans (by rw [hfull])) hhead habsent
  refine ⟨kept, entry, ?_, hshrunk, hkept, hdigest⟩
  unfold Cache.claim
  dsimp only
  rw [hsize, hevict]
  rfl

/-- The two maps and what callers hold are in order, and no joiner was misled. -/
structure Keeps (settings : Settings) (s : System R) : Prop where
  coherent : Coherent settings s
  inflightBound : s.cache.inflight.size ≤ settings.limit
  honest : Honest s

section

variable (h : Keeps settings s)

include h

theorem Keeps.shrink (hshrunk : s.cache.Shrunk c) : Keeps settings { s with cache := c } where
  coherent := h.coherent.shrink hshrunk
  inflightBound := by
    show c.inflight.size ≤ settings.limit
    rw [hshrunk.inflight]
    exact h.inflightBound
  honest := by
    show ∀ held ∈ s.handed, held.owner = false → ∀ frame digest,
      c.futures[held.future]? = some (.done frame (some digest)) → digest = held.digest
    rw [hshrunk.futures]
    exact h.honest

theorem Keeps.claim (now : Int) (digest : String) (hentry : s.cache.entries.get? callId = none)
    (hinflight : s.cache.inflight.get? callId = none) : ∃ c,
      s.cache.claim settings now callId digest = (.ok (s.cache.futures.length, true), c) ∧
      Keeps settings
        { cache := c
          handed := ⟨callId, digest, s.cache.futures.length, true⟩ :: s.handed
          running := callId :: s.running.filter (· ∉ overflow settings s.cache) } := by
  have hclaim := h.coherent.claim digest hentry hinflight
  have hhonest : Honest
      { cache := s.cache.inserted callId digest
        handed := ⟨callId, digest, s.cache.futures.length, true⟩ :: s.handed
        running := callId :: s.running } := by
    intro held hheld howner frame other hdone
    rcases mem_cons.mp hheld with rfl | hheld
    · cases howner
    · dsimp only [Cache.inserted] at hdone
      rw [getElem?_append_left (h.coherent.known held hheld)] at hdone
      exact h.honest held hheld howner frame other hdone
  have hsize := size_inserted digest hinflight
  by_cases hroom : s.cache.inflight.size + 1 ≤ settings.limit
  · have hoverflow : overflow settings s.cache = [] := by
      unfold overflow
      rw [Nat.sub_eq_zero_of_le hroom]
      rfl
    refine ⟨_, claim_of_room hinflight hroom, ?_⟩
    rw [hoverflow]
    simp only [not_mem_nil, not_false_eq_true, decide_true, filter_true]
    exact ⟨hclaim, hsize ▸ hroom, hhonest⟩
  · have hbound := h.inflightBound
    have hfull : s.cache.inflight.size = settings.limit := by omega
    cases hold : s.cache.inflight.entries with
    | nil =>
      have hpos := limit_pos settings
      unfold OrderedMap.size at hfull
      rw [hold] at hfull
      exact absurd hfull (Nat.ne_of_lt hpos)
    | cons oldest =>
      obtain ⟨oldestId, record⟩ := oldest
      have hoverflow : overflow settings s.cache = [oldestId] := by
        unfold overflow OrderedMap.keys
        rw [hfull, hold, Nat.add_sub_cancel_left]
        rfl
      have hget : s.cache.inflight.get? oldestId = some record := by
        rw [s.cache.inflight.get?_eq_some_iff, hold]
        exact mem_cons_self
      have hne : oldestId ≠ callId := by
        rintro rfl
        rw [hinflight] at hget
        cases hget
      have hinserted : (s.cache.inserted callId digest).inflight.get? oldestId = some record := by
        rw [Cache.inserted, OrderedMap.get?_set, if_neg hne]
        exact hget
      have habsent : s.cache.entries.get? oldestId = none := by
        cases hentry' : s.cache.entries.get? oldestId with
        | none => rfl
        | some entry =>
          rw [h.coherent.disjoint oldestId entry hentry'] at hget
          cases hget
      obtain ⟨kept, entry, heq, hshrunk, hkept, hdigest⟩ := claim_of_full now digest
        hinflight hfull hold habsent
      have hrunning : callId :: s.running.filter (· ∉ overflow settings s.cache) =
          (callId :: s.running).filter (· ≠ oldestId) := by
        rw [hoverflow, filter_cons_of_pos (by simpa using hne.symm)]
        simp
      refine ⟨_, heq, ?_⟩
      rw [hrunning]
      refine ⟨(hclaim.shrink hshrunk).recorded, ?_, ?_⟩
      · have hmem : oldestId ∈ kept.inflight.keys := by
          by_contra hnot
          rw [← hshrunk.inflight, OrderedMap.get?_eq_none_iff _ |>.mpr hnot] at hinserted
          cases hinserted
        have hlt : (kept.recorded settings oldestId entry).inflight.size < kept.inflight.size :=
          size_recorded_lt hmem
        rw [hshrunk.inflight, hsize, hfull] at hlt
        exact Nat.le_of_lt_succ hlt
      · apply (hclaim.records_honest_iff hhonest
          ⟨kept, hshrunk, .inr ⟨hkept, entry, hdigest, rfl⟩⟩ _).mpr
        intro record' hrecord' hmismatch
        rw [hinserted] at hrecord'
        exact absurd (congrArg Inflight.digest (some.inj hrecord')).symm hmismatch

theorem Keeps.join (now : Int) : Keeps settings (s.join settings now callId digest) := by
  obtain ⟨reply, kept, hget, hshrunk, hcases⟩ := s.cache.get_cases now callId digest
  have hkept := h.shrink hshrunk
  unfold System.join Cache.joinOrClaim
  rw [hget]
  rcases hcases with ⟨rfl, -⟩ | ⟨rfl, hentry⟩ | ⟨entry, rfl, -, -⟩
  · exact hkept
  · dsimp only
    cases hinflight : kept.inflight.get? callId with
    | some record =>
      dsimp only
      split_ifs with hdigest
      · exact hkept
      · refine ⟨hkept.coherent.join hinflight (not_not.mp hdigest), hkept.inflightBound, ?_⟩
        intro held hheld howner frame other hdone
        rcases mem_cons.mp hheld with rfl | hheld
        · rw [hkept.coherent.pending callId record hinflight] at hdone
          cases hdone
        · exact hkept.honest held hheld howner frame other hdone
    | none =>
      obtain ⟨c, heq, hclaimed⟩ := hkept.claim now digest hentry hinflight
      have hoverflow : overflow settings s.cache = overflow settings kept := by
        unfold overflow
        rw [hshrunk.inflight]
      rw [show kept.claim settings now callId digest = _ from heq, hoverflow]
      exact hclaimed
  · refine ⟨hkept.coherent.replay entry.result, hkept.inflightBound, ?_⟩
    intro held hheld howner frame other hdone
    dsimp only [Cache.create] at hdone
    rcases mem_cons.mp hheld with rfl | hheld
    · dsimp only [Cache.create] at hdone
      rw [getElem?_concat_length] at hdone
      injection hdone with hdone
      injection hdone with _ hother
      exact (some.inj hother).symm
    · rw [getElem?_append_left (hkept.coherent.known held hheld)] at hdone
      exact hkept.honest held hheld howner frame other hdone

theorem Keeps.pop (callId : String) (hdone : future ≠ .pending)
    (hfuture : ∀ frame digest, future ≠ .done frame (some digest)) : Keeps settings
      { s with cache := s.cache.popInflight callId future,
               running := s.running.filter (· ≠ callId) } where
  coherent := h.coherent.pop callId hdone
  inflightBound := Nat.le_trans Cache.size_popInflight_le h.inflightBound
  honest := h.honest.pop hfuture _

theorem Keeps.idle : Keeps settings { s with running := [] } :=
  { h with
    coherent := { h.coherent with
      running := by
        intro callId hrunning
        cases hrunning
      nodup := nodup_nil } }

theorem Keeps.cancelAll (callIds : List String) :
    Keeps settings { s with cache := callIds.foldl Cache.cancel s.cache, running := [] } := by
  induction callIds generalizing s with
  | nil => exact h.idle
  | cons callId _ ih =>
    exact ih (h.pop callId (show Future.cancelled ≠ .pending by simp) (by simp))

/-- What a frame recorded for a call leaves: a joiner is misled exactly if the call in flight
is one of another digest that joiners wait for. -/
theorem Keeps.records (hrecords : s.cache.Records settings callId digest c) :
    let s' : System R := { s with cache := c, running := s.running.filter (· ≠ callId) }
    Coherent settings s' ∧ s'.cache.inflight.size ≤ settings.limit ∧
      (Honest s' ↔ ∀ record, s.cache.inflight.get? callId = some record →
        record.digest ≠ digest → ∀ held ∈ s.handed, held.future = record.future →
          held.owner = true) := by
  refine ⟨h.coherent.records hrecords, ?_, h.coherent.records_honest_iff h.honest hrecords _⟩
  obtain ⟨kept, hshrunk, ⟨-, rfl⟩ | ⟨-, entry, -, rfl⟩⟩ := hrecords
  · exact (h.shrink hshrunk).inflightBound
  · exact Nat.le_trans Cache.size_popInflight_le (h.shrink hshrunk).inflightBound

theorem Keeps.step (e : Event R) : Coherent settings (s.step settings e) ∧
      (s.step settings e).cache.inflight.size ≤ settings.limit ∧
      (Honest (s.step settings e) ↔ Matching s e) := by
  have always {s' : System R} (h' : Keeps settings s') (hmatching : Matching s e) :
      Coherent settings s' ∧ s'.cache.inflight.size ≤ settings.limit ∧ (Honest s' ↔ Matching s e) :=
    ⟨h'.coherent, h'.inflightBound, iff_of_true h'.honest hmatching⟩
  obtain ⟨now, op⟩ := e
  cases op with
  | get callId digest =>
    obtain ⟨reply, kept, hget, hshrunk, -⟩ := s.cache.get_cases now callId digest
    apply always _ trivial
    unfold System.step
    dsimp only
    rw [hget]
    exact h.shrink hshrunk
  | joinOrClaim => exact always (h.join now) trivial
  | put => exact h.records Cache.put_records
  | completeError | evict =>
    exact h.records Cache.completeError_records
  | cancel callId | fail callId => exact always (h.pop callId (by simp) (by simp)) trivial
  | cancelInflight => exact always (h.cancelAll s.cache.inflight.keys) trivial

end

theorem Coherent.oneOwner (h : Coherent settings s)
    (hbound : s.cache.inflight.size ≤ settings.limit) : OneOwner settings s ↔ Honest s := by
  constructor
  · exact OneOwner.honest
  · intro hhonest
    refine ⟨?_, h.entriesBound, hbound, ?_, hhonest, h.nodup⟩
    · intro callId hentry hinflight
      have hget : s.cache.entries.get? callId ≠ none :=
        fun hnone => s.cache.entries.get?_eq_none_iff.mp hnone hentry
      obtain ⟨entry, hsome⟩ := ne_none_iff_exists'.mp hget
      exact s.cache.inflight.get?_eq_none_iff.mp (h.disjoint callId entry hsome) hinflight
    · intro held hheld hpending
      obtain ⟨record, hget, hfuture, -⟩ := h.waiting held hheld hpending
      exact ⟨record, hget, hfuture⟩

theorem coherent_empty : Coherent settings ({} : System R) where
  disjoint := by
    intro callId entry hentry
    cases hentry
  entriesBound := Nat.zero_le _
  pending := by
    intro callId record hget
    cases hget
  apart := by
    intro callId callId' record record' hget
    cases hget
  waiting := by
    intro held hheld
    cases hheld
  known := by
    intro held hheld
    cases hheld
  running := by
    intro callId hrunning
    cases hrunning
  nodup := nodup_nil

end

/-- The cache keeps all its promises over a run exactly if nothing recorded for a call in the
run is put on a future that joiners of another digest hold. -/
theorem oneOwner_iff_matching (settings : Settings) (es : List (Event R)) :
    (∀ pre, pre <+: es → OneOwner settings (run (System.step settings) {} pre)) ↔
      Meets (System.step settings) Matching {} es := by
  apply forall_prefix_iff_meets_of_invariant
    (fun s => Coherent settings s ∧ s.cache.inflight.size ≤ settings.limit) (OneOwner settings)
  · rintro s e - ⟨hcoherent, hbound⟩ hone
    obtain ⟨hcoherent', hbound', hiff⟩ :=
      Keeps.step ⟨hcoherent, hbound, hone.honest⟩ e
    exact ⟨⟨hcoherent', hbound'⟩, (hcoherent'.oneOwner hbound').trans hiff⟩
  · exact ⟨coherent_empty, Nat.zero_le _⟩
  · refine (coherent_empty.oneOwner (Nat.zero_le _)).mpr ?_
    intro held hheld
    cases hheld

/-- The first owner of an id fails, a second one claims the id for another payload and is
joined, and then the first one's answer arrives. -/
def lateAnswer : List (Event String) :=
  [⟨0, .joinOrClaim "call" "first"⟩, ⟨1, .fail "call" none⟩,
   ⟨2, .joinOrClaim "call" "second"⟩, ⟨3, .joinOrClaim "call" "second"⟩,
   ⟨4, .put "call" "first" (.answer "of the first")⟩]

theorem late_answer_misleads : ¬ ∀ (settings : Settings) (es : List (Event String)),
    Meets (System.step settings) Owned {} es →
      ∀ pre, pre <+: es → OneOwner settings (run (System.step settings) {} pre) := by
  intro hall
  have howned : Meets (System.step {}) Owned {} lateAnswer := by
    refine ⟨trivial, trivial, trivial, trivial, ⟨⟨"call", "first", 0, true⟩, ?_, rfl, rfl, rfl⟩,
      trivial⟩
    decide +kernel
  have hhonest := (hall {} lateAnswer howned lateAnswer (prefix_refl _)).honest
  have hdigest := hhonest ⟨"call", "second", 1, false⟩ (by decide +kernel) rfl
    (.answer "of the first") "first" (by decide +kernel)
  exact absurd hdigest (by decide)

end Cognis.UnaryDedup
