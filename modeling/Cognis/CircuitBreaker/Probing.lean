import Cognis.CircuitBreaker.Breaker

namespace Cognis.CircuitBreaker

open List Runs

variable {E : Type}

variable (config : Config E) (s : System)

def System.OneProbe : Prop :=
  ∀ c ∈ s.calls, ∀ d ∈ s.calls, c.admittedIn ≠ .closed → d.admittedIn ≠ .closed → c = d

def OldNeverCloses : Event E → Prop
  | .call _ _ => True
  | .finish id outcome now =>
    ∀ c ∈ s.calls, c.id = id → c.openings < s.openings → s.breaker.state ≠ .closed →
      (step config s (.finish id outcome now)).breaker.state ≠ .closed

/-- One probe at a time, and no call of an earlier phase closes the breaker. -/
structure Exclusive (config : Config E) (events : List (Event E)) : Prop where
  oneProbe : ∀ pre, pre <+: events → (run (step config) {} pre).OneProbe
  oldNeverCloses : Meets (step config) (OldNeverCloses config) {} events

/-- While the breaker is open, a call does not succeed; while it is half-open, no probe is active,
and the call trips or is cancelled. -/
def InOrder (b : Breaker) (outcome : Outcome E) : Prop :=
  match b.state with
  | .closed => True
  | .opened => outcome ≠ .returned
  | .halfOpen => b.halfOpenProbeActive = false ∧ outcome ≠ .returned ∧
      ∀ exc, outcome = .raised exc → config.trips exc = true

def Orderly : Event E → Prop
  | .call _ _ => True
  | .finish id outcome _ =>
    ∀ c ∈ s.calls, c.id = id → c.openings < s.openings → InOrder config s.breaker outcome

/-- Calls in flight have their own ids, and were admitted at some opening up to now. -/
structure Numbered (calls : List Call) (next openings : Nat) : Prop where
  below : ∀ c ∈ calls, c.id < next
  unique : ∀ c ∈ calls, ∀ d ∈ calls, c.id = d.id → c = d
  before : ∀ c ∈ calls, c.openings ≤ openings

structure System.Sound (s : System) : Prop where
  numbered : Numbered s.calls s.next s.openings
  idle : s.breaker.halfOpenProbeActive = false → ∀ c ∈ s.calls, c.admittedIn = .closed
  probe : s.breaker.halfOpenProbeActive = true → s.breaker.state = .halfOpen ∧
    ∃ c ∈ s.calls, c.admittedIn ≠ .closed ∧ c.openings = s.openings ∧
      ∀ d ∈ s.calls, d.admittedIn ≠ .closed → d = c
  old : s.breaker.state ≠ .closed → ∀ c ∈ s.calls, c.admittedIn = .closed → c.openings < s.openings

variable {config : Config E} {s : System} {e : Event E} {calls : List Call} {next openings id : Nat}
  {outcome : Outcome E} {now : Int}

theorem Numbered.add (h : Numbered calls next openings) (state : CircuitState) :
    Numbered (calls ++ [{ id := next, admittedIn := state, openings := openings }]) (next + 1)
      openings := by
  have hmem : ∀ c ∈ calls ++ [{ id := next, admittedIn := state, openings := openings }],
      c ∈ calls ∨ c = { id := next, admittedIn := state, openings := openings } := by
    intro c hc
    simpa using hc
  refine ⟨?_, ?_, ?_⟩
  · intro c hc
    obtain hold | rfl := hmem c hc
    · exact Nat.lt_succ_of_lt (h.below c hold)
    · exact Nat.lt_succ_self next
  · intro c hc d hd hid
    obtain holdC | rfl := hmem c hc
    · obtain holdD | rfl := hmem d hd
      · exact h.unique c holdC d holdD hid
      · exact absurd hid (Nat.ne_of_lt (h.below c holdC))
    · obtain holdD | rfl := hmem d hd
      · exact absurd hid.symm (Nat.ne_of_lt (h.below d holdD))
      · rfl
  · intro c hc
    obtain hold | rfl := hmem c hc
    · exact h.before c hold
    · exact Nat.le_refl openings

theorem Numbered.leave (h : Numbered calls next openings) (p : Call → Bool) {openings' : Nat}
    (hle : openings ≤ openings') : Numbered (calls.filter p) next openings' := by
  refine ⟨?_, ?_, ?_⟩
  · intro c hc
    exact h.below c (mem_of_mem_filter hc)
  · intro c hc d hd hid
    exact h.unique c (mem_of_mem_filter hc) d (mem_of_mem_filter hd) hid
  · intro c hc
    exact Nat.le_trans (h.before c (mem_of_mem_filter hc)) hle

theorem sound_start : System.Sound {} := by
  refine ⟨⟨?_, ?_, ?_⟩, ?_, ?_, ?_⟩
  all_goals simp

theorem System.Sound.oneProbe (hs : s.Sound) : s.OneProbe := by
  intro c hc d hd hprobeC hprobeD
  cases hactive : s.breaker.halfOpenProbeActive with
  | false => exact absurd (hs.idle hactive c hc) hprobeC
  | true =>
    obtain ⟨-, p, -, -, -, honly⟩ := hs.probe hactive
    exact (honly c hc hprobeC).trans (honly d hd hprobeD).symm

theorem System.Sound.inactive (hs : s.Sound) (hstate : s.breaker.state ≠ .halfOpen) :
    s.breaker.halfOpenProbeActive = false := by
  cases hactive : s.breaker.halfOpenProbeActive with
  | false => rfl
  | true => exact absurd (hs.probe hactive).1 hstate

theorem enter_cases (config : Config E) (s : System) (operation : Option String) (now : Int) :
    (∃ refused, s.enter config operation now = { s with refused := refused }) ∨
      (∃ refused, s.breaker.state = .opened ∧ s.breaker.halfOpenProbeActive = true ∧
        s.enter config operation now =
          { s with breaker := { s.breaker with state := .halfOpen }, refused := refused }) ∨
      (s.breaker.state = .closed ∧ s.enter config operation now =
        { s with next := s.next + 1,
                 calls := s.calls ++ [{ id := s.next, admittedIn := .closed,
                                        openings := s.openings }] }) ∨
      (s.breaker.state ≠ .closed ∧ s.breaker.halfOpenProbeActive = false ∧
        s.enter config operation now =
          { s with breaker := { s.breaker with state := .halfOpen, halfOpenProbeActive := true },
                   next := s.next + 1,
                   calls := s.calls ++ [{ id := s.next, admittedIn := .halfOpen,
                                          openings := s.openings }] }) := by
  unfold System.enter Config.enter
  obtain hkept | ⟨hopen, hidle, hprobe⟩ | ⟨hopen, hactive, hmoved⟩ :=
    allowCall_cases config s.breaker now
  · rw [hkept]
    by_cases hclosed : s.breaker.state = .closed
    · refine .inr (.inr (.inl ⟨hclosed, ?_⟩))
      rw [decide_eq_true hclosed]
      simp only [if_true, hclosed]
    · rw [decide_eq_false hclosed]
      exact .inl ⟨_, rfl⟩
  · refine .inr (.inr (.inr ⟨hopen, hidle, ?_⟩))
    rw [hprobe]
    rfl
  · rw [hmoved]
    exact .inr (.inl ⟨_, hopen, hactive, rfl⟩)

theorem System.Sound.enter (hs : s.Sound) (operation : Option String) (now : Int) :
    (s.enter config operation now).Sound := by
  obtain ⟨refused, heq⟩ | ⟨refused, hopen, hactive, _⟩ | ⟨hclosed, heq⟩ | ⟨hopen, hidle, heq⟩ :=
    enter_cases config s operation now
  · rw [heq]
    exact ⟨hs.numbered, hs.idle, hs.probe, hs.old⟩
  · have hinactive := hs.inactive (by rw [hopen]; decide)
    rw [hactive] at hinactive
    cases hinactive
  · have hinactive := hs.inactive (by rw [hclosed]; decide)
    rw [heq]
    refine ⟨hs.numbered.add .closed, ?_, ?_, ?_⟩
    · intro _ c hc
      obtain hold | hnew := mem_append.mp hc
      · exact hs.idle hinactive c hold
      · rw [mem_singleton.mp hnew]
    · intro hactive
      exact absurd (hinactive.symm.trans hactive) (by decide)
    · intro hopen
      exact absurd hclosed hopen
  · rw [heq]
    refine ⟨hs.numbered.add .halfOpen, ?_, ?_, ?_⟩
    · intro hinactive
      cases hinactive
    · intro _
      have hself : ({ id := s.next, admittedIn := .halfOpen, openings := s.openings } : Call) ∈
          s.calls ++ [{ id := s.next, admittedIn := .halfOpen, openings := s.openings }] := by simp
      have hprobe : CircuitState.halfOpen ≠ .closed := by decide
      refine ⟨rfl, _, hself, hprobe, rfl, ?_⟩
      intro d hd hprobe
      obtain hold | hnew := mem_append.mp hd
      · exact absurd (hs.idle hidle d hold) hprobe
      · exact mem_singleton.mp hnew
    · intro _ c hc hadmitted
      obtain hold | hnew := mem_append.mp hc
      · exact hs.old hopen c hold hadmitted
      · rw [mem_singleton.mp hnew] at hadmitted
        cases hadmitted

theorem openings_le_opensTo (s : System) (b : Breaker) : s.openings ≤ s.opensTo b := by
  unfold System.opensTo
  split_ifs
  · exact Nat.le_succ s.openings
  · exact Nat.le_refl s.openings

theorem System.Sound.leave (hs : s.Sound)
    (hidle : ∀ c ∈ s.calls, c.id ≠ id → c.admittedIn = .closed) :
    (s.leave config id outcome now).Sound := by
  unfold System.leave
  refine ⟨hs.numbered.leave _ (openings_le_opensTo s _), ?_, ?_, ?_⟩
  · intro _ c hc
    obtain ⟨hmem, hne⟩ := mem_filter.mp hc
    exact hidle c hmem (by simpa using hne)
  · intro hactive
    rw [leave_probeActive] at hactive
    cases hactive
  · intro hopen c hc hadmitted
    have hmem := mem_of_mem_filter hc
    dsimp only at hopen ⊢
    unfold System.opensTo
    split_ifs with hopens
    · exact Nat.lt_succ_of_le (hs.numbered.before c hmem)
    · apply hs.old ?_ c hmem hadmitted
      obtain hsame | hopened := leave_state hopen
      · rw [← hsame]
        exact hopen
      · intro hclosed
        apply hopens
        rw [hclosed]
        exact ⟨hopened, by decide⟩

theorem inOrder_iff (config : Config E) (b : Breaker) (outcome : Outcome E) (now : Int) :
    InOrder config b outcome ↔ (b.state ≠ .closed → (config.leave b outcome now).state ≠ .closed ∧
        (b.state = .halfOpen → b.halfOpenProbeActive = false)) := by
  unfold InOrder
  cases hcase : b.state with
  | closed => simp
  | opened =>
    have hopen : b.state ≠ .closed := by rw [hcase]; decide
    simp [leave_closed_iff hopen, hcase]
  | halfOpen =>
    have hopen : b.state ≠ .closed := by rw [hcase]; decide
    simp only [ne_eq, leave_closed_iff hopen, hcase, not_or, not_and, not_exists, reduceCtorEq,
      not_false_eq_true, forall_const, true_and, Bool.not_eq_false]
    constructor
    · rintro ⟨hidle, hfailed, htrips⟩
      exact ⟨⟨hfailed, htrips⟩, hidle⟩
    · rintro ⟨⟨hfailed, htrips⟩, hidle⟩
      exact ⟨hidle, hfailed, htrips⟩

theorem step_finish_of_mem {c : Call} (hc : c ∈ s.calls) :
    step config s (.finish c.id outcome now) = s.leave config c.id outcome now := by
  unfold step
  dsimp only
  rw [if_pos]
  exact any_eq_true.mpr ⟨c, hc, by simp⟩

theorem step_finish_of_not_mem (h : ∀ c ∈ s.calls, c.id ≠ id) :
    step config s (.finish id outcome now) = s := by
  unfold step
  dsimp only
  rw [if_neg]
  simpa using h

theorem System.Sound.step (hs : s.Sound) (he : Orderly config s e) :
    (step config s e).Sound ∧ OldNeverCloses config s e := by
  cases e with
  | call operation now => exact ⟨hs.enter operation now, trivial⟩
  | finish id outcome now =>
    constructor
    · by_cases hmem : ∃ c ∈ s.calls, c.id = id
      · obtain ⟨c, hc, rfl⟩ := hmem
        rw [step_finish_of_mem hc]
        apply hs.leave
        intro d hd hne
        by_contra hprobe
        cases hactive : s.breaker.halfOpenProbeActive with
        | false => exact hprobe (hs.idle hactive d hd)
        | true =>
          have hhalf := (hs.probe hactive).1
          have hopen : s.breaker.state ≠ .closed := by rw [hhalf]; decide
          by_cases hadmitted : c.admittedIn = .closed
          · have horder := (inOrder_iff config s.breaker outcome now).mp
              (he c hc rfl (hs.old hopen c hc hadmitted)) hopen
            rw [horder.2 hhalf] at hactive
            cases hactive
          · exact hne (congrArg Call.id (hs.oneProbe d hd c hc hprobe hadmitted))
      · rw [step_finish_of_not_mem (by simpa using hmem)]
        exact hs
    · intro c hc hid hold hopen
      subst hid
      rw [step_finish_of_mem hc]
      exact ((inOrder_iff config s.breaker outcome now).mp (he c hc rfl hold) hopen).1

/-- Beside a call that was admitted while the breaker was not closed, a late call is the second
one if no probe is active. -/
theorem exists_second_probe {c : Call} (hc : c ∈ s.calls) (hprobe : c.admittedIn ≠ .closed)
    (hbelow : c.id < s.next) (hopen : s.breaker.state ≠ .closed)
    (hidle : s.breaker.halfOpenProbeActive = false)
    (hsince : s.breaker.state = .opened → s.breaker.openedAt ≠ none) :
    ∃ now, ¬ (s.enter config none now).OneProbe := by
  obtain ⟨now, hadmits⟩ := exists_probe config hopen hidle hsince
  refine ⟨now, ?_⟩
  intro hone
  have henter : (s.enter config none now).calls =
      s.calls ++ [{ id := s.next, admittedIn := .halfOpen, openings := s.openings }] := by
    unfold System.enter Config.enter
    rw [hadmits]
    rfl
  have hold : c ∈ (s.enter config none now).calls := by
    rw [henter]
    exact mem_append_left _ hc
  have hnew : { id := s.next, admittedIn := .halfOpen, openings := s.openings } ∈
      (s.enter config none now).calls := by
    rw [henter]
    exact mem_append_right _ (mem_singleton_self _)
  have hsame := hone c hold _ hnew hprobe (by simp)
  rw [hsame] at hbelow
  exact Nat.lt_irrefl _ hbelow

/-- After a step that is not orderly, an old call has closed the breaker, or a call can be admitted
beside the probe. -/
theorem System.Sound.broken (hs : s.Sound) (he : ¬ Orderly config s e) :
    ¬ OldNeverCloses config s e ∨
      ∃ now, ¬ (System.enter config (CircuitBreaker.step config s e) none now).OneProbe := by
  cases e with
  | call => exact absurd trivial he
  | finish id outcome now =>
    unfold Orderly at he
    push Not at he
    obtain ⟨c, hc, rfl, hold, hdisorder⟩ := he
    rw [inOrder_iff config s.breaker outcome now] at hdisorder
    push Not at hdisorder
    obtain ⟨hopen, hends⟩ := hdisorder
    by_cases hcloses : (config.leave s.breaker outcome now).state = .closed
    · left
      intro hnever
      apply hnever c hc rfl hold hopen
      rw [step_finish_of_mem hc]
      exact hcloses
    · right
      obtain ⟨hhalf, hactive⟩ := hends hcloses
      obtain ⟨-, p, hp, hprobe, hfresh, -⟩ := hs.probe (by simpa using hactive)
      rw [step_finish_of_mem hc]
      have hother : p.id ≠ c.id := by
        intro hid
        rw [hs.numbered.unique p hp c hc hid] at hfresh
        omega
      have hkept : p ∈ (s.leave config c.id outcome now).calls :=
        mem_filter.mpr ⟨hp, by simpa using hother⟩
      apply exists_second_probe hkept hprobe (hs.numbered.below p hp) hcloses leave_probeActive
      intro hopens
      rw [System.leave, leave_openedAt hopens (by rw [hhalf]; decide)]
      exact Option.some_ne_none now

variable {events : List (Event E)}

theorem meets_of_orderly (hs : s.Sound) (h : Meets (step config) (Orderly config) s events) :
    Meets (step config) (OldNeverCloses config) s events := by
  induction events generalizing s with
  | nil => trivial
  | cons e events ih =>
    obtain ⟨hnext, hnever⟩ := hs.step h.1
    exact ⟨hnever, ih hnext h.2⟩

theorem exclusive_of_orderly
    (h : Meets (step config) (Orderly config) {} events) : Exclusive config events := by
  refine ⟨?_, meets_of_orderly sound_start h⟩
  rintro pre ⟨rest, rfl⟩
  have hsound : (run (step config) {} pre).Sound :=
    run_invariant_of_meets System.Sound (fun s e hs he => (hs.step he).1) sound_start
      (meets_append.mp h).1
  exact hsound.oneProbe

theorem exists_not_exclusive (h : ¬ Meets (step config) (Orderly config) {} events) :
    ∃ pre, pre <+: events ∧ ∃ now, ¬ Exclusive config (pre ++ [.call none now]) := by
  obtain ⟨pre, e, hpre, hmeets, hbad⟩ := exists_first_of_not_meets h
  have hsound : (run (step config) {} pre).Sound :=
    run_invariant_of_meets System.Sound (fun s e hs he => (hs.step he).1) sound_start hmeets
  refine ⟨pre ++ [e], hpre, ?_⟩
  obtain hcloses | ⟨now, hsecond⟩ := hsound.broken hbad
  · refine ⟨0, ?_⟩
    intro hexclusive
    have hall := (meets_append.mp hexclusive.oldNeverCloses).1
    exact hcloses (meets_append.mp hall).2.1
  · refine ⟨now, ?_⟩
    intro hexclusive
    apply hsecond
    have hone := hexclusive.oneProbe _ (prefix_refl _)
    rw [run_append, run_append] at hone
    exact hone

/-- In a run whose steps are all orderly, probing is exclusive; a run with another step is one that
breaks it there, or with the next call. -/
theorem exclusive_iff_orderly (config : Config E) (events : List (Event E)) :
    (Meets (step config) (Orderly config) {} events → Exclusive config events) ∧
      (¬ Meets (step config) (Orderly config) {} events →
        ∃ pre, pre <+: events ∧ ∃ now, ¬ Exclusive config (pre ++ [.call none now])) :=
  ⟨exclusive_of_orderly, exists_not_exclusive⟩

def plainConfig : Config Unit := { errorType := fun _ => "TimeoutError" }

def slowSuccess : List (Event Unit) :=
  replicate 6 (.call none 0) ++
    (range 5).map (fun id => .finish id (.raised ()) 1) ++ [.finish 5 .returned 2]

/-- The success of the sixth closes the breaker that the five have opened. -/
theorem slow_success_closes : ¬ ∀ events, Exclusive plainConfig events := by
  intro hall
  have hnever := (meets_append.mp (hall slowSuccess).oldNeverCloses).2.1
  have hcall : { id := 5, admittedIn := .closed, openings := 0 } ∈
      (run (step plainConfig) {} (replicate 6 (.call none 0) ++
        (range 5).map (fun id => .finish id (.raised ()) 1))).calls := by decide
  exact hnever _ hcall rfl (by decide) (by decide) (by decide)

end Cognis.CircuitBreaker
