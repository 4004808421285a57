import Cognis.Library.OrderedMap

namespace Cognis.UnaryDedup

inductive Frame (R : Type) where
  | answer (result : R)
  | error (code : Int) (message : String)
  deriving DecidableEq

/-- The future of a call; `recordedFor` is the digest its frame was recorded for, if any. -/
inductive Future (R : Type) where
  | pending
  | done (frame : Frame R) (recordedFor : Option String)
  | cancelled
  deriving DecidableEq

def Future.isDone {R : Type} : Future R → Bool
  | .pending => false
  | _ => true

structure UnaryCallConflict where
  callId : String
  deriving DecidableEq

structure Entry (R : Type) where
  digest : String
  expiresAt : Int
  result : Frame R
  deriving DecidableEq

/-- The record of a call in flight, with the index of its future. -/
structure Inflight where
  digest : String
  future : Nat
  deriving DecidableEq

structure Settings where
  maxEntries : Int := 1024
  ttl : Int := 300000000

def Settings.limit (settings : Settings) : Nat := (max 1 settings.maxEntries).toNat

def Settings.lifetime (settings : Settings) : Int := max 100000 settings.ttl

structure Cache (R : Type) where
  entries : OrderedMap String (Entry R) := .empty
  inflight : OrderedMap String Inflight := .empty
  futures : List (Future R) := []

variable {R : Type}

namespace Cache

variable (settings : Settings) (c : Cache R) (now : Int)

def purge : Cache R :=
  { c with entries := c.entries.filter fun entry => decide (now < entry.2.expiresAt) }

def create (future : Future R) : Nat × Cache R :=
  (c.futures.length, { c with futures := c.futures ++ [future] })

def settleFuture (i : Nat) (future : Future R) : Cache R :=
  if c.futures[i]?.any (!·.isDone) then { c with futures := c.futures.set i future } else c

variable (callId : String)

def popInflight (future : Future R) : Cache R :=
  match c.inflight.get? callId with
  | none => c
  | some record =>
    let c := { c with inflight := c.inflight.erase callId }
    c.settleFuture record.future future

variable (callId payloadDigest : String)

def get : Except UnaryCallConflict (Option (Frame R)) × Cache R :=
  let c := c.purge now
  match c.entries.get? callId with
  | none => (.ok none, c)
  | some entry =>
    if entry.digest ≠ payloadDigest then (.error ⟨callId⟩, c)
    else (.ok (some entry.result), { c with entries := c.entries.moveToEnd callId })

def put (result : Frame R) :
    Except UnaryCallConflict Unit × Cache R :=
  let c := c.purge now
  match c.entries.get? callId with
  | some entry => if entry.digest ≠ payloadDigest then (.error ⟨callId⟩, c) else (.ok (), c)
  | none =>
    let entry : Entry R := ⟨payloadDigest, now + settings.lifetime, result⟩
    let c := { c with entries := (c.entries.set callId entry).newest settings.limit }
    (.ok (), c.popInflight callId (.done result (some payloadDigest)))

def completeError (code : Int) (message : String) :
    Except UnaryCallConflict (Frame R) × Cache R :=
  match c.get now callId payloadDigest with
  | (.error conflict, c) => (.error conflict, c)
  | (.ok (some existing), c) => (.ok existing, c)
  | (.ok none, c) =>
    let (result, c) := c.put settings now callId payloadDigest (.error code message)
    (result.map fun _ => .error code message, c)

def evict : Except UnaryCallConflict (Frame R) × Cache R :=
  c.completeError settings now callId payloadDigest (-32099)
    "Replay-safe unary call was evicted before completion"

def evictOldest : Nat → Cache R → Except UnaryCallConflict Unit × Cache R
  | 0, c => (.ok (), c)
  | rounds + 1, c =>
    if c.inflight.size ≤ settings.limit then (.ok (), c)
    else
      match c.inflight.entries.head? with
      | none => (.ok (), c)
      | some (evictedId, evicted) =>
        match c.evict settings now evictedId evicted.digest with
        | (.error conflict, c) => (.error conflict, c)
        | (.ok _, c) => evictOldest rounds c

def inserted : Cache R :=
  { c with
    futures := c.futures ++ [.pending]
    inflight := c.inflight.set callId ⟨payloadDigest, c.futures.length⟩ }

def claim : Except UnaryCallConflict (Nat × Bool) × Cache R :=
  let inserted := c.inserted callId payloadDigest
  let (result, kept) := evictOldest settings now inserted.inflight.size inserted
  (result.map fun _ => (c.futures.length, true), kept)

def joinOrClaim : Except UnaryCallConflict (Nat × Bool) × Cache R :=
  match c.get now callId payloadDigest with
  | (.error conflict, c) => (.error conflict, c)
  | (.ok (some cached), c) =>
    let (future, c) := c.create (.done cached (some payloadDigest))
    (.ok (future, false), c)
  | (.ok none, c) =>
    match c.inflight.get? callId with
    | some record =>
      if record.digest ≠ payloadDigest then (.error ⟨callId⟩, c)
      else (.ok (record.future, false), c)
    | none => c.claim settings now callId payloadDigest

def cancel : Cache R := c.popInflight callId .cancelled

def fail (error : Option String) : Cache R :=
  c.popInflight callId (.done (.error (-32098) (error.getD "Unary call failed")) none)

def cancelInflight : Cache R := c.inflight.keys.foldl cancel c

end Cache

namespace Cache

variable {c : Cache R} {now : Int} {callId other : String}
  {future : Future R} {i : Nat}

theorem get?_purge {entry : Entry R} (h : (c.purge now).entries.get? callId = some entry) :
    c.entries.get? callId = some entry := by
  apply OrderedMap.get?_of_subset _ h
  intro p hp
  exact List.mem_of_mem_filter hp

@[simp] theorem settleFuture_entries : (c.settleFuture i future).entries = c.entries := by
  unfold settleFuture
  split_ifs <;> rfl

@[simp] theorem settleFuture_inflight : (c.settleFuture i future).inflight = c.inflight := by
  unfold settleFuture
  split_ifs <;> rfl

@[simp] theorem settleFuture_length :
    (c.settleFuture i future).futures.length = c.futures.length := by
  unfold settleFuture
  split_ifs
  · exact List.length_set
  · rfl

@[simp] theorem popInflight_entries : (c.popInflight callId future).entries = c.entries := by
  unfold popInflight
  cases c.inflight.get? callId with
  | none => rfl
  | some => exact settleFuture_entries

@[simp] theorem popInflight_length :
    (c.popInflight callId future).futures.length = c.futures.length := by
  unfold popInflight
  cases c.inflight.get? callId with
  | none => rfl
  | some => exact settleFuture_length

theorem get?_popInflight : (c.popInflight callId future).inflight.get? other =
    if other = callId then none else c.inflight.get? other := by
  unfold popInflight
  cases h : c.inflight.get? callId with
  | none =>
    split_ifs with heq
    · rw [heq, h]
    · rfl
  | some =>
    rw [settleFuture_inflight]
    exact OrderedMap.get?_erase _ _ _

theorem size_popInflight_le : (c.popInflight callId future).inflight.size ≤ c.inflight.size := by
  unfold popInflight
  cases c.inflight.get? callId with
  | none => exact Nat.le_refl _
  | some =>
    rw [settleFuture_inflight]
    exact OrderedMap.size_erase_le _ _

end Cache

end Cognis.UnaryDedup
