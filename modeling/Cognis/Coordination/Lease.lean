import Mathlib.Data.String.Basic
import Cognis.Library.Runs

namespace Cognis.Coordination

/-- One row of the lease table, keyed by its resource. Times are ticks of the
database clock. -/
structure CoordinationLeaseRow where
  ownerId : String
  fencingToken : Nat
  leaseExpiresAt : Int
  deriving DecidableEq

structure Lease where
  resourceKey : String
  ownerId : String
  fencingToken : Nat
  leaseExpiresAt : Int
  deriving DecidableEq

structure LeaseStore where
  rows : String → Option CoordinationLeaseRow
  now : Int

namespace LeaseStore

def empty : LeaseStore := ⟨fun _ => none, 0⟩

variable (s : LeaseStore) (key : String) (row : CoordinationLeaseRow)

def put : LeaseStore :=
  { s with rows := Function.update s.rows key (some row) }

/-- `_lease`: the lease a returned row stands for. -/
def lease : Lease :=
  ⟨key, row.ownerId, row.fencingToken, row.leaseExpiresAt⟩

variable (key ownerId : String)

/-- The upsert of `acquire` and `acquire_in_session`: insert at token 1, or take
a row of the same owner or an expired one and advance its fence. -/
def acquireInSession (ttl : Int) :
    LeaseStore × Option Lease :=
  match s.rows key with
  | none =>
    let row := ⟨ownerId, 1, s.now + ttl⟩
    (s.put key row, some (lease key row))
  | some old =>
    if old.ownerId = ownerId ∨ old.leaseExpiresAt ≤ s.now then
      let row := ⟨ownerId, old.fencingToken + 1, s.now + ttl⟩
      (s.put key row, some (lease key row))
    else (s, none)

/-- `acquire` runs the same statement in a transaction of its own. -/
def acquire (ttl : Int) : LeaseStore × Option Lease :=
  s.acquireInSession key ownerId ttl

def takeover (ttl : Int) : LeaseStore × Lease :=
  let row : CoordinationLeaseRow :=
    ⟨ownerId, ((s.rows key).map (·.fencingToken + 1)).getD 1, s.now + ttl⟩
  (s.put key row, lease key row)

def Holds (l : Lease) : Prop :=
  row.ownerId = l.ownerId ∧ row.fencingToken = l.fencingToken

instance (row : CoordinationLeaseRow) (l : Lease) : Decidable (Holds row l) :=
  inferInstanceAs (Decidable (_ ∧ _))

def renew (l : Lease) (ttl : Int) : LeaseStore × Option Lease :=
  match s.rows l.resourceKey with
  | none => (s, none)
  | some old =>
    if Holds old l ∧ s.now < old.leaseExpiresAt then
      let row := { old with leaseExpiresAt := s.now + ttl }
      (s.put l.resourceKey row, some (lease l.resourceKey row))
    else (s, none)

def release (l : Lease) : LeaseStore × Bool :=
  match s.rows l.resourceKey with
  | none => (s, false)
  | some old =>
    if Holds old l then (s.put l.resourceKey { old with leaseExpiresAt := s.now }, true)
    else (s, false)

def revoke : LeaseStore × Bool :=
  match s.rows key with
  | none => (s, false)
  | some old => (s.put key ⟨"revoked", old.fencingToken + 1, s.now⟩, true)

def isCurrent (l : Lease) : Bool :=
  match s.rows l.resourceKey with
  | none => false
  | some row => Holds row l ∧ s.now < row.leaseExpiresAt

end LeaseStore

inductive LeaseCall where
  | acquire (key ownerId : String) (ttl : Int)
  | acquireInSession (key ownerId : String) (ttl : Int)
  | takeover (key ownerId : String) (ttl : Int)
  | renew (lease : Lease) (ttl : Int)
  | release (lease : Lease)
  | revoke (key : String)
  | isCurrent (lease : Lease)
  deriving DecidableEq

/-- One atomic statement, `elapsed` ticks of the clock after the one before it. -/
structure LeaseEvent where
  elapsed : Nat
  call : LeaseCall
  deriving DecidableEq

namespace LeaseStore

variable (s : LeaseStore)

def perform : LeaseCall → LeaseStore × Option Lease
  | .acquire key ownerId ttl => s.acquire key ownerId ttl
  | .acquireInSession key ownerId ttl => s.acquireInSession key ownerId ttl
  | .takeover key ownerId ttl =>
      ((s.takeover key ownerId ttl).1, some (s.takeover key ownerId ttl).2)
  | .renew l ttl => s.renew l ttl
  | .release l => ((s.release l).1, none)
  | .revoke key => ((s.revoke key).1, none)
  | .isCurrent _ => (s, none)

def wait (elapsed : Nat) : LeaseStore := { s with now := s.now + elapsed }

def step (e : LeaseEvent) : LeaseStore := ((s.wait e.elapsed).perform e.call).1

/-- The lease an event returns for `key`, if any. -/
def returned (key : String) (e : LeaseEvent) : Option Lease :=
  ((s.wait e.elapsed).perform e.call).2.filter (fun l => l.resourceKey = key)

end LeaseStore

/-- Calls that grant a lease, as against `renew`, which hands the caller's own back. -/
def LeaseCall.grants : LeaseCall → Bool
  | .acquire .. | .acquireInSession .. | .takeover .. => true
  | _ => false

/-- The leases the calls chosen by `p` return for `key` over a run, in order. -/
def leasesReturned (p : LeaseCall → Bool) (key : String) :
    LeaseStore → List LeaseEvent → List Lease
  | _, [] => []
  | s, e :: es =>
    (if p e.call then (s.returned key e).toList else []) ++ leasesReturned p key (s.step e) es

def fence (row : Option CoordinationLeaseRow) : Nat := (row.map (·.fencingToken)).getD 0

@[simp] theorem fence_none : fence none = 0 := rfl

variable (s : LeaseStore) (key : String) (row : CoordinationLeaseRow)

@[simp] theorem fence_some : fence (some row) = row.fencingToken := rfl

/-- Everything one call can do to the row of a resource at time `now`. -/
inductive RowChange (now : Int) : Option CoordinationLeaseRow → Option CoordinationLeaseRow → Prop
  | keep (row : Option CoordinationLeaseRow) : RowChange now row row
  | advance (old : Option CoordinationLeaseRow) (row : CoordinationLeaseRow)
      (h : row.fencingToken = fence old + 1) : RowChange now old (some row)
  | extend (old : CoordinationLeaseRow) (expires : Int) (h : now < old.leaseExpiresAt) :
      RowChange now (some old) (some { old with leaseExpiresAt := expires })
  | expire (old : CoordinationLeaseRow) :
      RowChange now (some old) (some { old with leaseExpiresAt := now })

namespace LeaseStore

@[simp] theorem put_now : (s.put key row).now = s.now := rfl

@[simp] theorem put_rows_self : (s.put key row).rows key = some row := Function.update_self ..

theorem put_rows_ne {key k : String} (h : k ≠ key) :
    (s.put key row).rows k = s.rows k := Function.update_of_ne h ..

theorem put_rowChange {s : LeaseStore} {key : String} {row : CoordinationLeaseRow}
    (h : RowChange s.now (s.rows key) (some row)) (k : String) :
    RowChange s.now (s.rows k) ((s.put key row).rows k) := by
  by_cases hk : k = key
  · subst hk
    rw [put_rows_self]
    exact h
  · rw [put_rows_ne s row hk]
    exact .keep _

theorem acquireInSession_rowChange (ownerId : String) (ttl : Int) (k : String) :
    RowChange s.now (s.rows k) ((s.acquireInSession key ownerId ttl).1.rows k) := by
  unfold acquireInSession
  cases hrow : s.rows key with
  | none =>
    apply put_rowChange
    rw [hrow]
    exact .advance _ _ rfl
  | some old =>
    by_cases h : old.ownerId = ownerId ∨ old.leaseExpiresAt ≤ s.now
    · simp only [if_pos h]
      apply put_rowChange
      rw [hrow]
      exact .advance _ _ rfl
    · simp only [if_neg h]
      exact .keep _

theorem takeover_rowChange (ownerId : String) (ttl : Int) (k : String) :
    RowChange s.now (s.rows k) ((s.takeover key ownerId ttl).1.rows k) := by
  apply put_rowChange
  apply RowChange.advance
  cases s.rows key <;> rfl

theorem renew_rowChange (l : Lease) (ttl : Int) (k : String) :
    RowChange s.now (s.rows k) ((s.renew l ttl).1.rows k) := by
  unfold renew
  cases hrow : s.rows l.resourceKey with
  | none => exact .keep _
  | some old =>
    by_cases h : Holds old l ∧ s.now < old.leaseExpiresAt
    · simp only [if_pos h]
      apply put_rowChange
      rw [hrow]
      exact .extend _ _ h.2
    · simp only [if_neg h]
      exact .keep _

theorem release_rowChange (l : Lease) (k : String) :
    RowChange s.now (s.rows k) ((s.release l).1.rows k) := by
  unfold release
  cases hrow : s.rows l.resourceKey with
  | none => exact .keep _
  | some old =>
    by_cases h : Holds old l
    · simp only [if_pos h]
      apply put_rowChange
      rw [hrow]
      exact .expire _
    · simp only [if_neg h]
      exact .keep _

theorem revoke_rowChange (k : String) : RowChange s.now (s.rows k) ((s.revoke key).1.rows k) := by
  unfold revoke
  cases hrow : s.rows key with
  | none => exact .keep _
  | some old =>
    apply put_rowChange
    rw [hrow]
    exact .advance _ _ rfl

theorem perform_rowChange (c : LeaseCall) (k : String) :
    RowChange s.now (s.rows k) ((s.perform c).1.rows k) := by
  cases c with
  | acquire key ownerId ttl | acquireInSession key ownerId ttl =>
    exact acquireInSession_rowChange s key ownerId ttl k
  | takeover key ownerId ttl => exact takeover_rowChange s key ownerId ttl k
  | renew l ttl => exact renew_rowChange s l ttl k
  | release l => exact release_rowChange s l k
  | revoke key => exact revoke_rowChange s key k
  | isCurrent l => exact .keep _

end LeaseStore

end Cognis.Coordination
