import Cognis.Library.Runs

namespace Cognis.CircuitBreaker

inductive CircuitState where
  | closed
  | opened
  | halfOpen
  deriving DecidableEq

/-- What a breaker is made with; `E` are the exceptions of the protected functions, times are in
microseconds. -/
structure Config (E : Type) where
  failureThreshold : Int := 5
  recoveryTimeout : Int := 30000000
  name : Option String := none
  shouldTrip : Option (E → Bool) := none
  errorType : E → String

structure Breaker where
  state : CircuitState := .closed
  failures : Int := 0
  openedAt : Option Int := none
  lastFailureAt : Option Int := none
  lastErrorType : Option String := none
  halfOpenProbeActive : Bool := false
  deriving DecidableEq

structure CircuitBreakerError where
  name : Option String
  state : CircuitState
  retryAfter : Int
  operation : Option String
  lastErrorType : Option String
  lastFailureAt : Option Int
  deriving DecidableEq

/-- How a protected function ends. -/
inductive Outcome (E : Type) where
  | returned
  | raised (exc : E)
  | cancelled
  deriving DecidableEq

variable {E : Type}

variable (config : Config E) (b : Breaker)

def Config.retryAfter (now : Int) : Int :=
  match b.openedAt with
  | none => config.recoveryTimeout
  | some openedAt => max 0 (config.recoveryTimeout - (now - openedAt))

def Breaker.probe : Bool × Breaker :=
  if b.halfOpenProbeActive then (false, b) else (true, { b with halfOpenProbeActive := true })

def Config.allowCall (now : Int) : Bool × Breaker :=
  match b.state with
  | .closed => (true, b)
  | .opened =>
    match b.openedAt with
    | none => (false, b)
    | some openedAt =>
      if now - openedAt < config.recoveryTimeout then (false, b)
      else { b with state := .halfOpen }.probe
  | .halfOpen => b.probe

def Config.enter (operation : Option String) (now : Int) :
    Except CircuitBreakerError Unit × Breaker :=
  let (allowed, b) := config.allowCall b now
  if allowed then (.ok (), b)
  else
    (.error { name := config.name, state := b.state, retryAfter := config.retryAfter b now,
              operation := operation, lastErrorType := b.lastErrorType,
              lastFailureAt := b.lastFailureAt }, b)

def Config.trips (exc : E) : Bool :=
  match config.shouldTrip with
  | none => true
  | some shouldTrip => shouldTrip exc

def closedBreaker : Breaker := {}

def Config.tripped (exc : E) (now : Int) : Breaker :=
  let b := { b with halfOpenProbeActive := false, failures := b.failures + 1,
                    lastFailureAt := some now, lastErrorType := some (config.errorType exc) }
  if b.state = .halfOpen ∨ config.failureThreshold ≤ b.failures then
    { b with state := .opened, openedAt := some now }
  else b

/-- The end of a call, after the protected function. -/
def Config.leave (outcome : Outcome E) (now : Int) : Breaker :=
  match outcome with
  | .returned => closedBreaker
  | .raised exc =>
    if config.trips exc then config.tripped b exc now
    else if b.state = .halfOpen then closedBreaker
    else { b with halfOpenProbeActive := false }
  | .cancelled => { b with halfOpenProbeActive := false }

variable {config : Config E} {b : Breaker} {now : Int} {outcome : Outcome E} {exc : E}

@[simp] theorem leave_probeActive : (config.leave b outcome now).halfOpenProbeActive = false := by
  unfold Config.leave
  cases outcome with
  | returned | cancelled => rfl
  | raised exc =>
    dsimp only
    split_ifs
    · unfold Config.tripped
      dsimp only
      split_ifs <;> rfl
    · rfl
    · rfl

theorem leave_state (hopen : (config.leave b outcome now).state ≠ .closed) :
    (config.leave b outcome now).state = b.state ∨
      (config.leave b outcome now).state = .opened := by
  unfold Config.leave at hopen ⊢
  cases outcome with
  | returned => exact absurd rfl hopen
  | raised exc =>
    dsimp only at hopen ⊢
    split_ifs at hopen ⊢
    · unfold Config.tripped
      dsimp only
      split_ifs
      · exact .inr rfl
      · exact .inl rfl
    · exact absurd rfl hopen
    · exact .inl rfl
  | cancelled => exact .inl rfl

/-- A breaker that is not closed is closed by a success, and by an error that does not trip while
it is half-open. -/
theorem leave_closed_iff (hopen : b.state ≠ .closed) :
    (config.leave b outcome now).state = .closed ↔ outcome = .returned ∨
      b.state = .halfOpen ∧ ∃ exc, outcome = .raised exc ∧ config.trips exc = false := by
  unfold Config.leave
  cases outcome with
  | returned => simp [closedBreaker]
  | raised exc =>
    by_cases htrips : config.trips exc = true
    · have htripped : (config.tripped b exc now).state ≠ .closed := by
        unfold Config.tripped
        dsimp only
        split_ifs
        · simp
        · exact hopen
      simp [htrips, htripped]
    · by_cases hhalf : b.state = .halfOpen
      · simp [htrips, hhalf, closedBreaker]
      · simp [htrips, hhalf, hopen]
  | cancelled => simp [hopen]

/-- An attempt leaves the breaker, makes its probe active, or finds a probe active when the
breaker has been open for long enough. -/
theorem allowCall_cases (config : Config E) (b : Breaker) (now : Int) :
    (config.allowCall b now = (decide (b.state = .closed), b)) ∨
      (b.state ≠ .closed ∧ b.halfOpenProbeActive = false ∧ config.allowCall b now =
        (true, { b with state := .halfOpen, halfOpenProbeActive := true })) ∨
      (b.state = .opened ∧ b.halfOpenProbeActive = true ∧ config.allowCall b now =
        (false, { b with state := .halfOpen })) := by
  obtain ⟨state, failures, openedAt, lastFailureAt, lastErrorType, active⟩ := b
  unfold Config.allowCall Breaker.probe
  cases state with
  | closed => exact .inl rfl
  | opened =>
    cases openedAt with
    | none => exact .inl rfl
    | some =>
      dsimp only
      split_ifs with hearly hactive
      · exact .inl rfl
      · exact .inr (.inr ⟨rfl, hactive, rfl⟩)
      · have hopen : CircuitState.opened ≠ .closed := by decide
        exact .inr (.inl ⟨hopen, by simpa using hactive, rfl⟩)
  | halfOpen =>
    cases active with
    | true => exact .inl rfl
    | false =>
      have hopen : CircuitState.halfOpen ≠ .closed := by decide
      exact .inr (.inl ⟨hopen, rfl, rfl⟩)

theorem leave_openedAt (hopens : (config.leave b outcome now).state = .opened)
    (hbefore : b.state ≠ .opened) : (config.leave b outcome now).openedAt = some now := by
  unfold Config.leave at hopens ⊢
  cases outcome with
  | returned => cases hopens
  | raised exc =>
    dsimp only at hopens ⊢
    split_ifs at hopens ⊢
    · unfold Config.tripped at hopens ⊢
      dsimp only at hopens ⊢
      split_ifs at hopens ⊢
      · rfl
      · exact absurd hopens hbefore
    · cases hopens
    · exact absurd hopens hbefore
  | cancelled => exact absurd hopens hbefore

theorem exists_probe (config : Config E) (hopen : b.state ≠ .closed)
    (hidle : b.halfOpenProbeActive = false)
    (hsince : b.state = .opened → b.openedAt ≠ none) :
    ∃ now, config.allowCall b now =
      (true, { b with state := .halfOpen, halfOpenProbeActive := true }) := by
  obtain ⟨state, failures, openedAt, lastFailureAt, lastErrorType, active⟩ := b
  subst hidle
  unfold Config.allowCall Breaker.probe
  cases state with
  | closed => exact absurd rfl hopen
  | opened =>
    cases openedAt with
    | none => exact absurd rfl (hsince rfl)
    | some openedAt =>
      refine ⟨openedAt + config.recoveryTimeout, ?_⟩
      dsimp only
      rw [if_neg (by omega)]
      rfl
  | halfOpen => exact ⟨0, rfl⟩

/-- A call whose function runs: the state in which it was admitted, and how often the breaker had
opened before. -/
structure Call where
  id : Nat
  admittedIn : CircuitState
  openings : Nat
  deriving DecidableEq

/-- The breaker with the calls in flight; `openings` counts how often it opened. -/
structure System where
  breaker : Breaker := {}
  calls : List Call := []
  refused : List CircuitBreakerError := []
  next : Nat := 0
  openings : Nat := 0

inductive Event (E : Type) where
  | call (operation : Option String) (now : Int)
  | finish (id : Nat) (outcome : Outcome E) (now : Int)

def System.enter (config : Config E) (s : System) (operation : Option String) (now : Int) :
    System :=
  match config.enter s.breaker operation now with
  | (.ok (), b) =>
    { s with breaker := b, next := s.next + 1,
             calls := s.calls ++ [{ id := s.next, admittedIn := b.state, openings := s.openings }] }
  | (.error refusal, b) => { s with breaker := b, refused := s.refused ++ [refusal] }

def System.opensTo (s : System) (b : Breaker) : Nat :=
  if b.state = .opened ∧ s.breaker.state ≠ .opened then s.openings + 1 else s.openings

def System.leave (config : Config E) (s : System) (id : Nat) (outcome : Outcome E) (now : Int) :
    System :=
  let b := config.leave s.breaker outcome now
  { s with breaker := b, openings := s.opensTo b, calls := s.calls.filter (·.id != id) }

def step (config : Config E) (s : System) : Event E → System
  | .call operation now => s.enter config operation now
  | .finish id outcome now =>
    if s.calls.any (·.id == id) then s.leave config id outcome now else s

end Cognis.CircuitBreaker
