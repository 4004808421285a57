import Mathlib.Algebra.BigOperators.Fin
import Mathlib.Algebra.Order.BigOperators.Group.Finset
import Cognis.Library.Runs
import Cognis.ClusterSignals.Service

namespace Cognis.ClusterSignals

open List

variable {key : Invalidation} {payload : String} {signal : ClusterSignal}

def Worker.weight : Worker → Nat
  | .idle => 0
  | .waiting _ _ => 2
  | .emitting _ _ => 1

@[simp] theorem Worker.weight_idle : Worker.idle.weight = 0 := rfl

@[simp] theorem Worker.weight_waiting (signal : ClusterSignal) (lock : Nat) :
    (Worker.waiting signal lock).weight = 2 := rfl

@[simp] theorem Worker.weight_emitting (signal : ClusterSignal) (lock : Nat) :
    (Worker.emitting signal lock).weight = 1 := rfl

namespace Service

variable {decode : String → Option ClusterSignal} {s : Service} {i : Fin maxDispatchConcurrency}

theorem mem_remember {dedup : List Invalidation} {k : Invalidation}
    (h : k ∈ remember dedup key) : k ∈ dedup ∨ k = key := by
  have hmem : k ∈ dedup ++ [key] := mem_of_mem_drop h
  simpa using hmem

theorem self_mem_remember (dedup : List Invalidation) (key : Invalidation) :
    key ∈ remember dedup key := by
  have hlast : (dedup ++ [key])[dedup.length]? = some key := getElem?_concat_length
  have hlength : (dedup ++ [key]).length - maxDedupEntries ≤ dedup.length := by
    simp only [length_append, length_singleton, maxDedupEntries]
    omega
  apply mem_of_getElem? (i := dedup.length - ((dedup ++ [key]).length - maxDedupEntries))
  rw [remember, getElem?_drop, Nat.add_sub_cancel' hlength]
  exact hlast

theorem receivePayload_none (h : s.admitted decode payload = none) :
    s.receivePayload decode payload = s := by
  rw [receivePayload, h]

section

variable (h : s.admitted decode payload = some signal)
include h

theorem receivePayload_known
    (hkey : signal.invalidation ∈ s.dedup) :
    s.receivePayload decode payload =
      { s with dedup := s.dedup.erase signal.invalidation ++ [signal.invalidation] } := by
  simp [receivePayload, h, hkey]

theorem receivePayload_queued
    (hkey : signal.invalidation ∉ s.dedup)
    (hroom : s.pending.length < maxPendingSignals) :
    s.receivePayload decode payload = { s with
        dedup := remember s.dedup signal.invalidation
        pending := s.pending ++ [signal]
        put := s.put ++ [signal.invalidation] } := by
  simp [receivePayload, h, hkey, hroom]

theorem receivePayload_dropped
    (hkey : signal.invalidation ∉ s.dedup)
    (hfull : ¬ s.pending.length < maxPendingSignals) :
    s.receivePayload decode payload = { s with dedup := remember s.dedup signal.invalidation } := by
  simp [receivePayload, h, hkey, hfull]

end

theorem dispatchSignal_eq (s : Service) (i : Fin maxDispatchConcurrency)
    (signal : ClusterSignal) :
    ∃ lock table nextLock w, (w = Worker.waiting signal lock ∨ w = .emitting signal lock) ∧
      s.dispatchSignal i signal = { s with
          dispatchLocks := table
          nextLock
          workers := fun j => if j = i then w else s.workers j } := by
  generalize hlock : s.laneLock (dispatchLaneKey signal.scope) = found
  obtain ⟨lock, table, nextLock⟩ := found
  unfold dispatchSignal
  rw [hlock]
  dsimp only
  split
  · exact ⟨lock, table, nextLock, _, .inl rfl, rfl⟩
  · exact ⟨lock, table, nextLock, _, .inr rfl, rfl⟩

def Blocked (s : Service) (i : Fin maxDispatchConcurrency) : Prop :=
  (s.workers i = .idle ∧ s.pending = []) ∨
    ∃ signal lock, s.workers i = .waiting signal lock ∧ s.locked lock = true

theorem dispatchWorker_cases (s : Service) (i : Fin maxDispatchConcurrency) :
    (s.dispatchWorker i = s ∧ s.Blocked i) ∨
    (∃ signal rest lock table nextLock w, s.workers i = .idle ∧ s.pending = signal :: rest ∧
      (w = Worker.waiting signal lock ∨ w = .emitting signal lock) ∧
      s.dispatchWorker i = { s with
          pending := rest
          dispatchLocks := table
          nextLock
          workers := fun j => if j = i then w else s.workers j }) ∨
    (∃ signal lock, s.workers i = .waiting signal lock ∧
      s.dispatchWorker i = s.setWorker i (.emitting signal lock)) ∨
    (∃ signal lock, s.workers i = .emitting signal lock ∧
      s.dispatchWorker i = (s.emitLocal signal).setWorker i .idle) := by
  unfold dispatchWorker
  cases hworker : s.workers i with
  | idle =>
    cases hpending : s.pending with
    | nil => exact .inl ⟨rfl, .inl ⟨hworker, hpending⟩⟩
    | cons signal rest =>
      obtain ⟨lock, table, nextLock, w, hw, heq⟩ :=
        dispatchSignal_eq { s with pending := rest } i signal
      exact .inr (.inl ⟨signal, rest, lock, table, nextLock, w, rfl, rfl, hw, heq⟩)
  | waiting signal lock =>
    by_cases hlocked : s.locked lock
    · exact .inl ⟨if_pos hlocked, .inr ⟨signal, lock, hworker, hlocked⟩⟩
    · exact .inr (.inr (.inl ⟨signal, lock, rfl, if_neg hlocked⟩))
  | emitting signal lock => exact .inr (.inr (.inr ⟨signal, lock, rfl, rfl⟩))

@[simp] theorem setWorker_workers (w : Worker) (j : Fin maxDispatchConcurrency) :
    (s.setWorker i w).workers j = if j = i then w else s.workers j := rfl

theorem dispatchWorker_kept (s : Service) (i : Fin maxDispatchConcurrency) :
    (s.dispatchWorker i).controllerId = s.controllerId ∧
      (s.dispatchWorker i).dedup = s.dedup ∧ (s.dispatchWorker i).put = s.put := by
  rcases dispatchWorker_cases s i with
    ⟨heq, -⟩ | ⟨_, _, _, _, _, _, -, -, -, heq⟩ | ⟨_, _, -, heq⟩ | ⟨_, _, -, heq⟩
  all_goals
    rw [heq]
    exact ⟨rfl, rfl, rfl⟩

theorem receivePayload_controllerId (payload : String) :
    (s.receivePayload decode payload).controllerId = s.controllerId := by
  cases h : s.admitted decode payload with
  | none => rw [receivePayload_none h]
  | some signal =>
    by_cases hkey : signal.invalidation ∈ s.dedup
    · rw [receivePayload_known h hkey]
    · by_cases hroom : s.pending.length < maxPendingSignals
      · rw [receivePayload_queued h hkey hroom]
      · rw [receivePayload_dropped h hkey hroom]

theorem admitted_congr {s t : Service} (h : t.controllerId = s.controllerId) (payload : String) :
    t.admitted decode payload = s.admitted decode payload := by
  simp only [admitted, h]

def Tracked (s : Service) (key : Invalidation) : Prop :=
  key ∈ s.bus ∨ (∃ signal ∈ s.pending, signal.invalidation = key) ∨
    ∃ i signal, (s.workers i).signal = some signal ∧ signal.invalidation = key

/-- The worker that moves, apart from the others. -/
theorem tracked_iff (i : Fin maxDispatchConcurrency) :
    s.Tracked key ↔ key ∈ s.bus ∨ (∃ signal ∈ s.pending, signal.invalidation = key) ∨
      (∃ signal, (s.workers i).signal = some signal ∧ signal.invalidation = key) ∨
      ∃ j ≠ i, ∃ signal, (s.workers j).signal = some signal ∧ signal.invalidation = key := by
  refine or_congr_right (or_congr_right ⟨?_, ?_⟩)
  · rintro ⟨j, hj⟩
    by_cases hi : j = i
    · exact .inl (hi ▸ hj)
    · exact .inr ⟨j, hi, hj⟩
  · rintro (hi | ⟨j, -, hj⟩)
    · exact ⟨i, hi⟩
    · exact ⟨j, hj⟩

theorem tracked_dispatchWorker (s : Service) (i : Fin maxDispatchConcurrency) :
    (s.dispatchWorker i).Tracked key ↔ s.Tracked key := by
  have hothers (w : Worker) : (∃ j ≠ i, ∃ signal, (if j = i then w else s.workers j).signal =
        some signal ∧ signal.invalidation = key) ↔
      ∃ j ≠ i, ∃ signal, (s.workers j).signal = some signal ∧ signal.invalidation = key :=
    exists_congr fun j => and_congr_right fun hj => by rw [if_neg hj]
  have hidle : Worker.idle.signal = none := rfl
  rcases dispatchWorker_cases s i with ⟨heq, -⟩ |
    ⟨signal, rest, lock, _, _, w, hworker, hpending, hw, heq⟩ | ⟨signal, lock, hworker, heq⟩ |
    ⟨signal, lock, hworker, heq⟩
  · rw [heq]
  · have hsignal : w.signal = some signal := by rcases hw with rfl | rfl <;> rfl
    rw [heq, tracked_iff i, tracked_iff i, hothers, hworker, hpending]
    simp [hsignal, hidle, or_left_comm, or_assoc]
  · rw [heq, tracked_iff i, tracked_iff i, hworker]
    simp only [setWorker_workers, hothers, if_true]
    rfl
  · rw [heq, tracked_iff i, tracked_iff i, hworker]
    have hemitting : (Worker.emitting signal lock).signal = some signal := rfl
    simp only [emitLocal, setWorker_workers, hothers, if_true]
    simp [Service.setWorker, hidle, hemitting, or_assoc, or_left_comm, eq_comm]

def Keeps (s : Service) : Prop := ∀ key, key ∈ s.put ↔ s.Tracked key

theorem Keeps.dispatchWorker (h : s.Keeps) (i : Fin maxDispatchConcurrency) :
    (s.dispatchWorker i).Keeps := by
  intro key
  rw [(dispatchWorker_kept s i).2.2, h key, tracked_dispatchWorker]

theorem Keeps.receivePayload (h : s.Keeps) (payload : String) :
    (s.receivePayload decode payload).Keeps := by
  intro key
  cases hadmitted : s.admitted decode payload with
  | none =>
    rw [receivePayload_none hadmitted]
    exact h key
  | some signal =>
    by_cases hkey : signal.invalidation ∈ s.dedup
    · rw [receivePayload_known hadmitted hkey]
      exact h key
    · by_cases hroom : s.pending.length < maxPendingSignals
      · rw [receivePayload_queued hadmitted hkey hroom]
        simp only [mem_append, mem_singleton, h key, Tracked]
        constructor
        · rintro ((hbus | ⟨queued, hqueued, hsame⟩ | hworker) | rfl)
          · exact .inl hbus
          · exact .inr (.inl ⟨queued, .inl hqueued, hsame⟩)
          · exact .inr (.inr hworker)
          · exact .inr (.inl ⟨signal, .inr rfl, rfl⟩)
        · rintro (hbus | ⟨queued, hqueued | rfl, hsame⟩ | hworker)
          · exact .inl (.inl hbus)
          · exact .inl (.inr (.inl ⟨queued, hqueued, hsame⟩))
          · exact .inr hsame.symm
          · exact .inl (.inr (.inr hworker))
      · rw [receivePayload_dropped hadmitted hkey hroom]
        simpa only [Tracked] using h key

theorem Keeps.step (h : s.Keeps) (e : Event) : (step decode s e).Keeps := by
  cases e with
  | receive payload => exact h.receivePayload payload
  | worker i => exact h.dispatchWorker i

theorem put_step (h : key ∈ s.put) (e : Event) : key ∈ (step decode s e).put := by
  cases e with
  | worker i =>
    change key ∈ (s.dispatchWorker i).put
    rw [(dispatchWorker_kept s i).2.2]
    exact h
  | receive payload =>
    change key ∈ (s.receivePayload decode payload).put
    cases hadmitted : s.admitted decode payload with
    | none =>
      rw [receivePayload_none hadmitted]
      exact h
    | some signal =>
      by_cases hkey : signal.invalidation ∈ s.dedup
      · rw [receivePayload_known hadmitted hkey]
        exact h
      · by_cases hroom : s.pending.length < maxPendingSignals
        · rw [receivePayload_queued hadmitted hkey hroom]
          exact mem_append_left _ h
        · rw [receivePayload_dropped hadmitted hkey hroom]
          exact h

def Settled (s : Service) : Prop := s.pending = [] ∧ ∀ i, s.workers i = .idle

def load (s : Service) : Nat := 3 * s.pending.length + ∑ i, (s.workers i).weight

theorem sum_weight_update (workers : Fin maxDispatchConcurrency → Worker) (w : Worker)
    (i : Fin maxDispatchConcurrency) :
    ∑ j, (if j = i then w else workers j).weight + (workers i).weight =
      ∑ j, (workers j).weight + w.weight := by
  rw [← Finset.add_sum_erase _ _ (Finset.mem_univ i),
    ← Finset.add_sum_erase _ (fun j => (workers j).weight) (Finset.mem_univ i)]
  have hrest : ∑ j ∈ Finset.univ.erase i, (if j = i then w else workers j).weight =
      ∑ j ∈ Finset.univ.erase i, (workers j).weight := by
    apply Finset.sum_congr rfl
    intro j hj
    rw [if_neg (Finset.ne_of_mem_erase hj)]
  rw [hrest, if_pos rfl]
  omega

theorem load_dispatchWorker (s : Service) (i : Fin maxDispatchConcurrency) :
    (s.dispatchWorker i = s ∧ s.Blocked i) ∨ (s.dispatchWorker i).load < s.load := by
  rcases dispatchWorker_cases s i with hblocked |
    ⟨signal, rest, lock, _, _, w, hworker, hpending, hw, heq⟩ | ⟨signal, lock, hworker, heq⟩ |
    ⟨signal, lock, hworker, heq⟩
  · exact .inl hblocked
  · right
    have hsum := sum_weight_update s.workers w i
    have hweight : w.weight ≤ 2 := by rcases hw with rfl | rfl <;> simp
    rw [heq]
    simp only [load, hpending, length_cons]
    omega
  · right
    have hsum := sum_weight_update s.workers (.emitting signal lock) i
    rw [hworker, Worker.weight_waiting, Worker.weight_emitting] at hsum
    rw [heq]
    simp only [load, setWorker]
    omega
  · right
    have hsum := sum_weight_update s.workers .idle i
    rw [hworker, Worker.weight_idle, Worker.weight_emitting] at hsum
    rw [heq]
    simp only [load, setWorker, emitLocal]
    omega

theorem locked_iff {lock : Nat} :
    s.locked lock ↔ ∃ i signal, s.workers i = .emitting signal lock := by
  simp only [locked, any_eq_true, mem_finRange, true_and, beq_iff_eq]
  constructor
  · rintro ⟨i, hi⟩
    cases hworker : s.workers i with
    | emitting signal =>
      rw [hworker] at hi
      cases hi
      exact ⟨i, signal, hworker⟩
    | _ => rw [hworker] at hi; cases hi
  · rintro ⟨i, signal, hi⟩
    exact ⟨i, by rw [hi]; rfl⟩

theorem settled_of_blocked (h : ∀ i, s.dispatchWorker i = s) : s.Settled := by
  have hblocked : ∀ i, s.Blocked i := by
    intro i
    rcases load_dispatchWorker s i with ⟨-, hi⟩ | hlt
    · exact hi
    · rw [h i] at hlt
      omega
  have hidle : ∀ i, s.workers i = .idle ∧ s.pending = [] := by
    intro i
    rcases hblocked i with hi | ⟨signal, lock, -, hlocked⟩
    · exact hi
    · obtain ⟨j, other, hj⟩ := locked_iff.mp hlocked
      rcases hblocked j with ⟨hnone, -⟩ | ⟨_, _, hwaiting, -⟩
      · rw [hj] at hnone
        cases hnone
      · rw [hj] at hwaiting
        cases hwaiting
  exact ⟨(hidle ⟨0, by decide⟩).2, fun i => (hidle i).1⟩

theorem load_round (s : Service) (round : List (Fin maxDispatchConcurrency)) :
    (round.foldl dispatchWorker s = s ∧ ∀ i ∈ round, s.dispatchWorker i = s) ∨
      (round.foldl dispatchWorker s).load < s.load := by
  induction round generalizing s with
  | nil => exact .inl ⟨rfl, by simp⟩
  | cons i round ih =>
    rw [foldl_cons]
    rcases load_dispatchWorker s i with ⟨hsame, -⟩ | hlt
    · rw [hsame]
      rcases ih s with ⟨hrest, hall⟩ | hlt
      · exact .inl ⟨hrest, by simpa [hsame] using hall⟩
      · exact .inr hlt
    · right
      rcases ih (s.dispatchWorker i) with ⟨hrest, -⟩ | hrest
      · rw [hrest]
        exact hlt
      · exact hrest.trans hlt

theorem foldl_of_settled (h : s.Settled) (steps : List (Fin maxDispatchConcurrency)) :
    steps.foldl dispatchWorker s = s := by
  induction steps with
  | nil => rfl
  | cons i steps ih =>
    have hsame : s.dispatchWorker i = s := by
      simp only [dispatchWorker, h.2 i, h.1]
    rw [foldl_cons, hsame]
    exact ih

theorem settled_of_rounds (rounds : List (List (Fin maxDispatchConcurrency)))
    (hfair : ∀ round ∈ rounds, ∀ i, i ∈ round) (hmany : s.load < rounds.length) :
    (rounds.flatten.foldl dispatchWorker s).Settled := by
  induction rounds generalizing s with
  | nil => exact absurd hmany (Nat.not_lt_zero _)
  | cons round rounds ih =>
    rw [flatten_cons, foldl_append]
    rcases load_round s round with ⟨hsame, hall⟩ | hlt
    · have hsettled : s.Settled := settled_of_blocked fun i =>
        hall i (hfair round mem_cons_self i)
      rw [hsame, foldl_of_settled hsettled]
      exact hsettled
    · apply ih
      · intro other hother
        exact hfair other (mem_cons_of_mem _ hother)
      · rw [length_cons] at hmany
        omega

theorem run_worker (decode : String → Option ClusterSignal) (s : Service)
    (steps : List (Fin maxDispatchConcurrency)) :
    Runs.run (step decode) s (steps.map .worker) = steps.foldl dispatchWorker s := by
  rw [Runs.run, foldl_map]
  rfl

theorem put_foldl (s : Service) (steps : List (Fin maxDispatchConcurrency)) :
    (steps.foldl dispatchWorker s).put = s.put := by
  induction steps generalizing s with
  | nil => rfl
  | cons i steps ih => rw [foldl_cons, ih, (dispatchWorker_kept s i).2.2]

theorem mem_bus_of_settled (h : s.Settled) (hkeeps : s.Keeps)
    (hput : key ∈ s.put) : key ∈ s.bus := by
  rcases (hkeeps key).mp hput with hbus | ⟨signal, hqueued, -⟩ | ⟨i, signal, hworker, -⟩
  · exact hbus
  · rw [h.1] at hqueued
    cases hqueued
  · rw [h.2 i] at hworker
    cases hworker

def SuppressesOnlyPut (decode : String → Option ClusterSignal) (s : Service) : Prop :=
  ∀ payload signal, s.admitted decode payload = some signal →
    signal.invalidation ∈ s.dedup → signal.invalidation ∈ s.put

def FindsRoom (decode : String → Option ClusterSignal) (s : Service) : Event → Prop
  | .receive payload => ∀ signal, s.admitted decode payload = some signal →
      signal.invalidation ∉ s.dedup → signal.invalidation ∉ s.put →
      s.pending.length < maxPendingSignals
  | .worker _ => True

theorem suppressesOnlyPut_step (h : s.SuppressesOnlyPut decode) (e : Event) :
    (step decode s e).SuppressesOnlyPut decode ↔ s.FindsRoom decode e := by
  cases e with
  | worker i =>
    refine ⟨fun _ => trivial, ?_⟩
    intro _ payload signal hadmitted hkey
    obtain ⟨hcontroller, hdedup, hput⟩ := dispatchWorker_kept s i
    change signal.invalidation ∈ (s.dispatchWorker i).dedup at hkey
    change signal.invalidation ∈ (s.dispatchWorker i).put
    rw [hdedup] at hkey
    rw [hput]
    exact h payload signal ((admitted_congr hcontroller payload).symm.trans hadmitted) hkey
  | receive payload =>
    have hcongr : ∀ p, (s.receivePayload decode payload).admitted decode p =
        s.admitted decode p := admitted_congr (receivePayload_controllerId payload)
    change (s.receivePayload decode payload).SuppressesOnlyPut decode ↔ _
    cases hadmitted : s.admitted decode payload with
    | none =>
      rw [receivePayload_none hadmitted]
      simp only [FindsRoom, hadmitted, h, reduceCtorEq, false_implies, implies_true]
    | some signal =>
      by_cases hkey : signal.invalidation ∈ s.dedup
      · constructor
        · intro _ other hother hnot
          rw [hadmitted] at hother
          cases hother
          exact absurd hkey hnot
        · intro _ p other hother hmem
          rw [hcongr] at hother
          rw [receivePayload_known hadmitted hkey] at hmem ⊢
          rcases mem_append.mp hmem with hold | hnew
          · exact h p other hother (mem_of_mem_erase hold)
          · rw [mem_singleton.mp hnew]
            exact h payload signal hadmitted hkey
      · by_cases hroom : s.pending.length < maxPendingSignals
        · refine ⟨fun _ _ _ _ _ => hroom, ?_⟩
          intro _ p other hother hmem
          rw [hcongr] at hother
          rw [receivePayload_queued hadmitted hkey hroom] at hmem ⊢
          dsimp only at hmem ⊢
          rcases mem_remember hmem with hold | hnew
          · exact mem_append_left _ (h p other hother hold)
          · rw [hnew]
            exact mem_append_right _ (mem_singleton_self _)
        · constructor
          · intro hafter other hother hnot hput
            rw [hadmitted] at hother
            cases hother
            have hagain := hafter payload signal ((hcongr payload).trans hadmitted)
            rw [receivePayload_dropped hadmitted hkey hroom] at hagain
            dsimp only at hagain
            exact absurd (hagain (self_mem_remember _ _)) hput
          · intro hfinds p other hother hmem
            rw [hcongr] at hother
            rw [receivePayload_dropped hadmitted hkey hroom] at hmem ⊢
            dsimp only at hmem ⊢
            rcases mem_remember hmem with hold | hnew
            · exact h p other hother hold
            · rw [hnew]
              by_contra hput
              exact hroom (hfinds signal hadmitted hkey hput)

/-- However the run goes on, the key is on the bus once the workers have dispatched everything,
and enough rounds of the workers do. -/
def Dispatches (decode : String → Option ClusterSignal) (s : Service) (key : Invalidation) : Prop :=
  ∀ (events : List Event) (rounds : List (List (Fin maxDispatchConcurrency))),
    (∀ round ∈ rounds, ∀ i, i ∈ round) → (Runs.run (step decode) s events).load < rounds.length →
    key ∈ (Runs.run (step decode) s (events ++ rounds.flatten.map .worker)).bus

theorem dispatches_of_put (hkeeps : s.Keeps) (hput : key ∈ s.put) :
    s.Dispatches decode key := by
  intro events rounds hfair hmany
  have hsettled := settled_of_rounds rounds hfair hmany
  rw [← run_worker decode, ← Runs.run_append] at hsettled
  have hkept : ∀ es, (Runs.run (step decode) s es).Keeps ∧
      key ∈ (Runs.run (step decode) s es).put := fun es =>
    Runs.run_invariant (fun t : Service => t.Keeps ∧ key ∈ t.put)
      (fun t e ht => ⟨ht.1.step e, put_step ht.2 e⟩) ⟨hkeeps, hput⟩ es
  exact mem_bus_of_settled hsettled (hkept _).1 (hkept _).2

theorem put_of_dispatches (hkeeps : s.Keeps)
    (h : s.Dispatches decode key) : key ∈ s.put := by
  have hbus := h [] (replicate (s.load + 1) (finRange maxDispatchConcurrency))
    (by simp [mem_replicate]) (by simp)
  rw [nil_append] at hbus
  have hafter : ∀ es, (Runs.run (step decode) s es).Keeps :=
    Runs.run_invariant Keeps (fun t e ht => ht.step e) hkeeps
  have hput := (hafter _ key).mpr (.inl hbus)
  rw [run_worker, put_foldl] at hput
  exact hput

theorem put_of_room
    (h : s.SuppressesOnlyPut decode) (hadmitted : s.admitted decode payload = some signal)
    (hroom : s.pending.length < maxPendingSignals) :
    signal.invalidation ∈ (step decode s (.receive payload)).put := by
  by_cases hkey : signal.invalidation ∈ s.dedup
  · exact put_step (h payload signal hadmitted hkey) (.receive payload)
  · change _ ∈ (s.receivePayload decode payload).put
    rw [receivePayload_queued hadmitted hkey hroom]
    exact mem_append_right _ (mem_singleton_self _)

def start (controllerId : String) : Service := { controllerId }

theorem suppressesOnlyPut_start (decode : String → Option ClusterSignal)
    (controllerId : String) : (start controllerId).SuppressesOnlyPut decode := by
  intro payload signal _ hkey
  cases hkey

theorem keeps_start (controllerId : String) : (start controllerId).Keeps := by
  intro key
  simp [start, Tracked, Worker.signal]

theorem dropped_then_room
    (hadmitted : s.admitted decode payload = some signal) (hkey : signal.invalidation ∉ s.dedup)
    (hput : signal.invalidation ∉ s.put) (hfull : s.pending.length = maxPendingSignals)
    (hidle : s.workers i = .idle) :
    let t := Runs.run (step decode) s [.receive payload, .worker i]
    t.controllerId = s.controllerId ∧ t.pending.length < maxPendingSignals ∧
      signal.invalidation ∈ t.dedup ∧ signal.invalidation ∉ t.put := by
  have hdropped := receivePayload_dropped hadmitted hkey (by omega)
  intro t
  have ht : t = (s.receivePayload decode payload).dispatchWorker i := rfl
  rw [hdropped] at ht
  obtain ⟨hcontroller, hdedup, hkept⟩ :=
    dispatchWorker_kept { s with dedup := remember s.dedup signal.invalidation } i
  rw [ht, hcontroller, hdedup, hkept]
  dsimp only
  refine ⟨rfl, ?_, self_mem_remember _ _, hput⟩
  rcases dispatchWorker_cases { s with dedup := remember s.dedup signal.invalidation } i with
    ⟨-, ⟨-, hempty⟩ | ⟨_, _, hwaiting, -⟩⟩ | ⟨first, rest, _, _, _, _, -, hpending, -, heq⟩ |
    ⟨_, _, hwaiting, -⟩ | ⟨_, _, hemitting, -⟩
  · rw [hempty] at hfull
    cases hfull
  · rw [hidle] at hwaiting
    cases hwaiting
  · rw [heq]
    rw [hpending, length_cons] at hfull
    dsimp only
    omega
  · rw [hidle] at hwaiting
    cases hwaiting
  · rw [hidle] at hemitting
    cases hemitting

theorem not_dispatches_of_suppressed
    (hkeeps : s.Keeps) (hadmitted : s.admitted decode payload = some signal)
    (hkey : signal.invalidation ∈ s.dedup) (hput : signal.invalidation ∉ s.put) :
    ¬ (step decode s (.receive payload)).Dispatches decode signal.invalidation := by
  intro h
  have hafter := put_of_dispatches (hkeeps.step (.receive payload)) h
  change _ ∈ (s.receivePayload decode payload).put at hafter
  rw [receivePayload_known hadmitted hkey] at hafter
  exact hput hafter

theorem run_queued (decode : String → Option ClusterSignal) (render : ClusterSignal → String)
    (s : Service) (signals : List ClusterSignal)
    (hadmitted : ∀ signal ∈ signals, s.admitted decode (render signal) = some signal)
    (hnew : (s.dedup ++ signals.map (·.invalidation)).Nodup)
    (hpending : s.pending.length + signals.length ≤ maxPendingSignals)
    (hdedup : s.dedup.length + signals.length ≤ maxDedupEntries) :
    Runs.run (step decode) s (signals.map fun signal => .receive (render signal)) = { s with
        pending := s.pending ++ signals
        dedup := s.dedup ++ signals.map (·.invalidation)
        put := s.put ++ signals.map (·.invalidation) } := by
  induction signals generalizing s with
  | nil => simp
  | cons signal signals ih =>
    rw [length_cons] at hpending hdedup
    have hkey : signal.invalidation ∉ s.dedup := by
      intro hmem
      exact (nodup_append.mp hnew).2.2 _ hmem _ (by simp) rfl
    have hremember : remember s.dedup signal.invalidation =
        s.dedup ++ [signal.invalidation] := by
      have hzero : (s.dedup ++ [signal.invalidation]).length - maxDedupEntries = 0 := by
        rw [length_append, length_singleton]
        omega
      rw [remember, hzero, drop_zero]
    have hstep : step decode s (.receive (render signal)) = { s with
          dedup := s.dedup ++ [signal.invalidation]
          pending := s.pending ++ [signal]
          put := s.put ++ [signal.invalidation] } := by
      have hqueued := receivePayload_queued (hadmitted signal mem_cons_self) hkey (by omega)
      rw [hremember] at hqueued
      exact hqueued
    rw [map_cons, Runs.run_cons, hstep, ih]
    · simp
    · intro other hother
      exact hadmitted other (mem_cons_of_mem _ hother)
    · simpa using hnew
    · simp only [length_append, length_singleton]
      omega
    · simp only [length_append, length_singleton]
      omega

end Service

open Service

/-- In every state of a run the table suppresses only signals that were queued, and each signal
that comes while the queue has room is dispatched, exactly when no signal that was never queued
is dropped for a full queue. -/
theorem suppressed_was_put_iff (decode : String → Option ClusterSignal) (controllerId : String)
    (events : List Event) :
    ((∀ pre, pre <+: events →
        (Runs.run (step decode) (start controllerId) pre).SuppressesOnlyPut decode) ∧
      ∀ pre payload signal, pre ++ [.receive payload] <+: events →
        (Runs.run (step decode) (start controllerId) pre).admitted decode payload = some signal →
        (Runs.run (step decode) (start controllerId) pre).pending.length < maxPendingSignals →
        (Runs.run (step decode) (start controllerId) (pre ++ [.receive payload])).Dispatches
          decode signal.invalidation) ↔
      Runs.Meets (step decode) (FindsRoom decode) (start controllerId) events := by
  have hiff := Runs.forall_prefix_iff_meets (SuppressesOnlyPut decode)
    (fun s e hs => suppressesOnlyPut_step hs e) (suppressesOnlyPut_start decode controllerId)
    events
  constructor
  · intro h
    exact hiff.mp h.1
  · intro hmeets
    have hput := hiff.mpr hmeets
    refine ⟨hput, ?_⟩
    intro pre payload signal hpre hadmitted hroom
    apply dispatches_of_put
    · exact Runs.run_invariant Keeps (fun s e hs => hs.step e) (keeps_start controllerId) _
    · rw [Runs.run_append]
      have hbefore : pre <+: events := (prefix_append pre _).trans hpre
      exact put_of_room (hput pre hbefore) hadmitted hroom

def cancelSignal (revision : String) : ClusterSignal where
  kind := .turnCancelRequested
  originControllerId := "a"
  scope := { directRequestId := some "r" }
  revision

def cancelHead : String :=
  "\x7b\"version\":1,\"kind\":\"turn_cancel_requested\",\"origin_controller_id\":\"a\"," ++
    "\"scope\":\x7b\"direct_request_id\":\"r\"\x7d,\"revision\":\""

def cancelTail : String := "\"\x7d"

/-- The JSON text of a signal, as `encoded` writes it. -/
def cancelPayload (signal : ClusterSignal) : String := cancelHead ++ signal.revision ++ cancelTail

def decodeCancel (payload : String) : Option ClusterSignal :=
  let text := payload.toList
  let revision := (text.drop cancelHead.toList.length).take 2
  if text = cancelHead.toList ++ revision ++ cancelTail.toList then
    some (cancelSignal (String.ofList revision))
  else none

def revisionOf (i : Nat) : String :=
  String.ofList [Char.ofNat (65 + i / 26), Char.ofNat (65 + i % 26)]

theorem admitted_cancelPayload (a b : Char) :
    (start "b").admitted decodeCancel (cancelPayload (cancelSignal (String.ofList [a, b]))) =
      some (cancelSignal (String.ofList [a, b])) := by
  have hdecode : decodeCancel (cancelPayload (cancelSignal (String.ofList [a, b]))) =
      some (cancelSignal (String.ofList [a, b])) := by
    simp [decodeCancel, cancelPayload, cancelSignal, String.toList_append]
  have hsize : ¬ maxPayloadBytes <
      (cancelPayload (cancelSignal (String.ofList [a, b]))).utf8ByteSize := by
    have ha := Char.utf8Size_le_four a
    have hb := Char.utf8Size_le_four b
    have hhead : cancelHead.utf8ByteSize ≤ 1000 := by decide +kernel
    have htail : cancelTail.utf8ByteSize ≤ 1000 := by decide +kernel
    simp [cancelPayload, cancelSignal, String.utf8ByteSize_append, maxPayloadBytes]
    omega
  have hlength : lengthWithin 1 160 (String.ofList [a, b]) := by
    rw [lengthWithin, String.length_ofList]
    rfl
  have hvalid : (cancelSignal (String.ofList [a, b])).valid := by
    simp only [ClusterSignal.valid, cancelSignal, hlength]
    rfl
  rw [admitted, if_neg hsize, hdecode, Option.filter_some, hvalid]
  rfl

theorem revisionOf_inj {i j : Nat} (hi : i < 676) (hj : j < 676)
    (h : revisionOf i = revisionOf j) : i = j := by
  have hchar : ∀ k l : Fin 26, Char.ofNat (65 + k.val) = Char.ofNat (65 + l.val) → k = l := by
    decide +kernel
  have hlist := String.ofList_injective h
  simp only [List.cons.injEq, and_true] at hlist
  have hdiv := hchar ⟨i / 26, by omega⟩ ⟨j / 26, by omega⟩ hlist.1
  have hmod := hchar ⟨i % 26, by omega⟩ ⟨j % 26, by omega⟩ hlist.2
  rw [Fin.mk.injEq] at hdiv hmod
  omega

def fillers : List ClusterSignal := (range 512).map fun i => cancelSignal (revisionOf i)

def lateSignal : ClusterSignal := cancelSignal (revisionOf 512)

theorem fillers_nodup : ((fillers ++ [lateSignal]).map (·.invalidation)).Nodup := by
  have hall : fillers ++ [lateSignal] = (range 513).map fun i => cancelSignal (revisionOf i) := by
    rw [range_succ, map_append]
    rfl
  rw [hall, map_map]
  apply Nodup.map_on _ nodup_range
  intro i hi j hj heq
  rw [mem_range] at hi hj
  have hrevision : revisionOf i = revisionOf j := congrArg Invalidation.revision heq
  exact revisionOf_inj (by omega) (by omega) hrevision

def overload : List Event :=
  (fillers.map fun signal => .receive (cancelPayload signal)) ++
    [.receive (cancelPayload lateSignal), .worker ⟨0, by decide⟩]

theorem run_overload :
    let s := Runs.run (step decodeCancel) (start "b") overload
    s.controllerId = "b" ∧ s.pending.length < maxPendingSignals ∧
      lateSignal.invalidation ∈ s.dedup ∧ lateSignal.invalidation ∉ s.put := by
  have hadmitted : ∀ signal ∈ fillers,
      (start "b").admitted decodeCancel (cancelPayload signal) = some signal := by
    intro signal hsignal
    obtain ⟨i, -, rfl⟩ := mem_map.mp hsignal
    exact admitted_cancelPayload _ _
  have hlength : fillers.length = 512 := by simp [fillers]
  have hnodup := fillers_nodup
  rw [map_append, nodup_append] at hnodup
  have hfill := run_queued decodeCancel cancelPayload (start "b") fillers hadmitted
    (by simpa [start] using hnodup.1) (by simp [start, hlength, maxPendingSignals])
    (by simp [start, hlength, maxDedupEntries])
  have hlate : ∀ t : Service, t.controllerId = "b" →
      t.admitted decodeCancel (cancelPayload lateSignal) = some lateSignal := by
    intro t ht
    rw [admitted_congr (s := start "b") ht]
    exact admitted_cancelPayload _ _
  have hnew : lateSignal.invalidation ∉ fillers.map (·.invalidation) := by
    intro hmem
    exact hnodup.2.2 _ hmem _ (by simp) rfl
  rw [overload, Runs.run_append, hfill]
  apply dropped_then_room
  · apply hlate
    rfl
  · simpa [start] using hnew
  · simpa [start] using hnew
  · simp [start, hlength, maxPendingSignals]
  · rfl

theorem overload_hides : ¬ (∀ pre, pre <+: overload ++ [.receive (cancelPayload lateSignal)] →
        (Runs.run (step decodeCancel) (start "b") pre).SuppressesOnlyPut decodeCancel) ∧
      ¬ ∀ pre payload signal,
        pre ++ [.receive payload] <+: overload ++ [.receive (cancelPayload lateSignal)] →
        (Runs.run (step decodeCancel) (start "b") pre).admitted decodeCancel payload = some signal →
        (Runs.run (step decodeCancel) (start "b") pre).pending.length < maxPendingSignals →
        (Runs.run (step decodeCancel) (start "b") (pre ++ [.receive payload])).Dispatches
          decodeCancel signal.invalidation := by
  obtain ⟨hcontroller, hroom, hkey, hput⟩ := run_overload
  have hadmitted : (Runs.run (step decodeCancel) (start "b") overload).admitted decodeCancel
      (cancelPayload lateSignal) = some lateSignal := by
    rw [admitted_congr hcontroller (s := start "b")]
    exact admitted_cancelPayload _ _
  constructor
  · intro h
    exact hput (h overload (prefix_append _ _) _ _ hadmitted hkey)
  · intro h
    have hdispatches := h overload _ _ (prefix_refl _) hadmitted hroom
    have hkeeps : ∀ es, (Runs.run (step decodeCancel) (start "b") es).Keeps :=
      Runs.run_invariant Keeps (fun t e ht => ht.step e) (keeps_start "b")
    rw [Runs.run_append, Runs.run_cons, Runs.run_nil] at hdispatches
    exact not_dispatches_of_suppressed (hkeeps overload) hadmitted hkey hput hdispatches

/-- A signal was queued exactly if it is on the bus in the end, however the run and its workers go
on. -/
theorem queued_iff_dispatches (decode : String → Option ClusterSignal) (controllerId : String)
    (events : List Event) (key : Invalidation) :
    let s := Runs.run (step decode) (start controllerId) events
    key ∈ s.put ↔ s.Dispatches decode key := by
  intro s
  have hkeeps : s.Keeps := Runs.run_invariant Keeps (fun s e hs => hs.step e)
    (keeps_start controllerId) events
  exact ⟨dispatches_of_put hkeeps, put_of_dispatches hkeeps⟩

end Cognis.ClusterSignals
