import Mathlib.Data.List.Basic

universe u v w x

/-- A program over the operations `ω`: it returns, or performs an operation and
goes on with the reply. -/
inductive Program (ω : Type u) (ρ : ω → Type v) (α : Type w) where
  | done (a : α)
  | call (o : ω) (k : ρ o → Program ω ρ α)

namespace Program

variable {ω : Type u} {ρ : ω → Type v} {α β : Type w} {σ : Type x}

def bind : Program ω ρ α → (α → Program ω ρ β) → Program ω ρ β
  | .done a, f => f a
  | .call o k, f => .call o fun r => (k r).bind f

instance : Monad (Program ω ρ) where
  pure := .done
  bind := bind

theorem seq_assoc (p : Program ω ρ α) (f : α → Program ω ρ β) {γ : Type w}
    (g : β → Program ω ρ γ) : p >>= f >>= g = p >>= fun a => f a >>= g := by
  induction p with
  | done a => rfl
  | call o k ih => exact congrArg (Program.call o) (funext ih)

def perform (o : ω) : Program ω ρ (ρ o) := .call o .done

/-! Execution: `reply n s o` is the answer to the `n`-th operation, `after s o`
the state it leaves. -/

variable (reply : Nat → σ → (o : ω) → ρ o) (after : σ → ω → σ)

def exec : Program ω ρ α → Nat → σ → α × σ
  | .done a, _, s => (a, s)
  | .call o k, n, s => (k (reply n s o)).exec (n + 1) (after s o)

/-- Execution that dies after `fuel` operations, unless the program has returned. -/
def crash : Program ω ρ α → (fuel n : Nat) → σ → Option α × σ
  | .done a, _, _, s => (some a, s)
  | .call _ _, 0, _, s => (none, s)
  | .call o k, fuel + 1, n, s => (k (reply n s o)).crash fuel (n + 1) (after s o)

/-- What is left of a program after `fuel` operations, and the state it stands in. -/
def rest : Program ω ρ α → (fuel n : Nat) → σ → Program ω ρ α × σ
  | .done a, _, _, s => (.done a, s)
  | .call o k, 0, _, s => (.call o k, s)
  | .call o k, fuel + 1, n, s => (k (reply n s o)).rest fuel (n + 1) (after s o)

/-- Execution against a handler, that answers an operation and moves the state. -/
def handle (h : σ → (o : ω) → ρ o × σ) : Program ω ρ α → σ → α × σ
  | .done a, s => (a, s)
  | .call o k, s => (k (h s o).1).handle h (h s o).2

section

variable (h : σ → (o : ω) → ρ o × σ)

theorem handle_bind (p : Program ω ρ α) (f : α → Program ω ρ β) (s : σ) :
    (p >>= f).handle h s = (f (p.handle h s).1).handle h (p.handle h s).2 := by
  induction p generalizing s with
  | done a => rfl
  | call o _ ih => exact ih (h s o).1 (h s o).2

end

/-! A crash logic. `Always` demands `P` of every operation, in the state it meets,
and `Q` of the result. -/

variable (answers : σ → (o : ω) → ρ o → Prop) (P : σ → ω → Prop)

def Always : Program ω ρ α → (α → σ → Prop) → σ → Prop
  | .done a, Q, s => Q a s
  | .call o k, Q, s => P s o ∧ ∀ r, answers s o r → (k r).Always Q (after s o)

variable {reply after answers P}

@[simp] theorem always_pure (a : α) (Q : α → σ → Prop) (s : σ) :
    (pure a : Program ω ρ α).Always after answers P Q s ↔ Q a s := Iff.rfl

@[simp] theorem always_bind (p : Program ω ρ α) (f : α → Program ω ρ β) (Q : β → σ → Prop) (s : σ) :
    (p >>= f).Always after answers P Q s ↔
      p.Always after answers P (fun a t => (f a).Always after answers P Q t) s := by
  induction p generalizing s with
  | done a => exact Iff.rfl
  | call o k ih =>
    exact and_congr Iff.rfl (forall_congr' fun r => imp_congr Iff.rfl (ih r (after s o)))

@[simp] theorem always_map (p : Program ω ρ α) (f : α → β) (Q : β → σ → Prop) (s : σ) :
    (f <$> p).Always after answers P Q s ↔ p.Always after answers P (fun a t => Q (f a) t) s :=
  always_bind p (fun a => pure (f a)) Q s

variable {p : Program ω ρ α} {s : σ} {Q Q' : α → σ → Prop}

theorem Always.mono (h : p.Always after answers P Q s) (hQ : ∀ a t, Q a t → Q' a t) :
    p.Always after answers P Q' s := by
  induction p generalizing s with
  | done a => exact hQ a s h
  | call o k ih => exact ⟨h.1, fun r hr => ih r (h.2 r hr)⟩

variable {Q : α → σ → Prop} {P' : σ → ω → Prop}

theorem Always.mono_pre (h : p.Always after answers P Q s) (hP : ∀ t o, P t o → P' t o) :
    p.Always after answers P' Q s := by
  induction p generalizing s with
  | done a => exact h
  | call o k ih => exact ⟨hP s o h.1, fun r hr => ih r (h.2 r hr)⟩

theorem Always.mono_answers {answers' : σ → (o : ω) → ρ o → Prop} (h : p.Always after answers P Q s)
    (hanswers : ∀ t o r, answers' t o r → answers t o r) : p.Always after answers' P Q s := by
  induction p generalizing s with
  | done a => exact h
  | call o k ih => exact ⟨h.1, fun r hr => ih r (h.2 r (hanswers s o r hr))⟩

theorem Always.exec (hreply : ∀ n s o, answers s o (reply n s o)) (h : p.Always after answers P Q s)
    (n : Nat) :
    Q (p.exec reply after n s).1 (p.exec reply after n s).2 := by
  induction p generalizing s n with
  | done a => exact h
  | call o k ih => exact ih _ (h.2 _ (hreply n s o)) (n + 1)

theorem Always.crash (hreply : ∀ n s o, answers s o (reply n s o))
    (h : p.Always after answers P Q s) (fuel n : Nat) :
    match p.crash reply after fuel n s with
    | (some a, t) => Q a t
    | (none, t) => ∃ o, P t o := by
  induction p generalizing s fuel n with
  | done a => exact h
  | call o k ih =>
    cases fuel with
    | zero => exact ⟨o, h.1⟩
    | succ fuel => exact ih _ (h.2 _ (hreply n s o)) fuel (n + 1)

/-! Operations with what follows them. -/

/-- `P` of every operation the program can reach, in the state it meets and with
the program that follows it. -/
def Tracked (after : σ → ω → σ) (answers : σ → (o : ω) → ρ o → Prop)
    (P : σ → (o : ω) → (ρ o → Program ω ρ α) → Prop) : Program ω ρ α → σ → Prop
  | .done _, _ => True
  | .call o k, s => P s o k ∧ ∀ r, answers s o r → (k r).Tracked after answers P (after s o)

variable {f : α → Program ω ρ β}

theorem tracked_bind {P : σ → (o : ω) → (ρ o → Program ω ρ β) → Prop}
    (hp : p.Tracked after answers (fun t o k => P t o fun r => k r >>= f) s)
    (hQ : p.Always after answers P' Q s) (hf : ∀ a t, Q a t → (f a).Tracked after answers P t) :
    (p >>= f).Tracked after answers P s := by
  induction p generalizing s with
  | done a => exact hf a s hQ
  | call o k ih => exact ⟨hp.1, fun r hr => ih r (hp.2 r hr) (hQ.2 r hr)⟩

theorem Tracked.mono {P P' : σ → (o : ω) → (ρ o → Program ω ρ α) → Prop}
    (h : p.Tracked after answers P s) (hP : ∀ t o k, P t o k → P' t o k) :
    p.Tracked after answers P' s := by
  induction p generalizing s with
  | done a => trivial
  | call o k ih => exact ⟨hP s o k h.1, fun r hr => ih r (h.2 r hr)⟩

variable {P : σ → (o : ω) → (ρ o → Program ω ρ α) → Prop}

theorem Always.tracked (h : p.Always after answers P' Q s)
    (hP : ∀ t o k, P' t o → P t o k) : p.Tracked after answers P s := by
  induction p generalizing s with
  | done a => trivial
  | call o k ih => exact ⟨hP s o k h.1, fun r hr => ih r (h.2 r hr)⟩

theorem Tracked.rest {s t : σ} {o : ω} {k : ρ o → Program ω ρ α}
    (hreply : ∀ n s o, answers s o (reply n s o)) (h : p.Tracked after answers P s) {fuel n : Nat}
    (hrest : p.rest reply after fuel n s = (.call o k, t)) : P t o k := by
  induction p generalizing s fuel n with
  | done a => cases hrest
  | call first follow ih =>
    cases fuel with
    | zero =>
      cases hrest
      exact h.1
    | succ => exact ih _ (h.2 _ (hreply n s first)) hrest

/-! Every operation the program can reach, whatever the replies. -/

def Every (P : ω → Prop) : Program ω ρ α → Prop
  | .done _ => True
  | .call o k => P o ∧ ∀ r, (k r).Every P

@[simp] theorem every_perform (P : ω → Prop) (o : ω) :
    (perform o : Program ω ρ (ρ o)).Every P ↔ P o := by
  constructor
  · intro h
    exact h.1
  · intro h
    exact ⟨h, fun _ => trivial⟩

theorem Every.bind {P : ω → Prop} (hp : p.Every P)
    (hf : ∀ a, (f a).Every P) : (p >>= f).Every P := by
  induction p with
  | done a => exact hf a
  | call o k ih => exact ⟨hp.1, fun r => ih r (hp.2 r)⟩

/-! A logic for one of several programs that run at once. `next s o r t` says that the
operation may reply `r` and leave the program's own state at `t`; `P` is demanded of
every operation in the state it meets. -/

variable {next : σ → (o : ω) → ρ o → σ → Prop} {P : σ → ω → Prop}

def Safe (next : σ → (o : ω) → ρ o → σ → Prop) (P : σ → ω → Prop) :
    Program ω ρ α → (α → σ → Prop) → σ → Prop
  | .done a, Q, s => Q a s
  | .call o k, Q, s => P s o ∧ ∀ r t, next s o r t → (k r).Safe next P Q t

@[simp] theorem safe_perform (o : ω) (Q : ρ o → σ → Prop) (s : σ) :
    (perform o : Program ω ρ (ρ o)).Safe next P Q s ↔ P s o ∧ ∀ r t, next s o r t → Q r t := Iff.rfl

theorem safe_bind (p : Program ω ρ α) (f : α → Program ω ρ β) (Q : β → σ → Prop) (s : σ) :
    (p >>= f).Safe next P Q s ↔ p.Safe next P (fun a t => (f a).Safe next P Q t) s := by
  induction p generalizing s with
  | done a => exact Iff.rfl
  | call o k ih =>
    refine and_congr Iff.rfl (forall_congr' fun r => forall_congr' fun t => ?_)
    exact imp_congr Iff.rfl (ih r t)

theorem Safe.mono (h : p.Safe next P Q s) (hQ : ∀ a t, Q a t → Q' a t) : p.Safe next P Q' s := by
  induction p generalizing s with
  | done a => exact hQ a s h
  | call o k ih => exact ⟨h.1, fun r t hrt => ih r (h.2 r t hrt)⟩

theorem Every.safe {R : ω → Prop} (h : p.Every R) (hR : ∀ s o, R o → P s o)
    (s : σ) : p.Safe next P (fun _ _ => True) s := by
  induction p generalizing s with
  | done a => trivial
  | call o k ih => exact ⟨hR s o h.1, fun r t _ => ih r (h.2 r) t⟩

/-! The same logic for programs that may raise; `E` is demanded of every exception. -/

section

variable {ε : Type w} {E : ε → σ → Prop}

/-- What holds of the way a program ends: `Q` of a result, `E` of an exception. -/
def Ends (E : ε → σ → Prop) (Q : α → σ → Prop) : Except ε α → σ → Prop
  | .ok a, s => Q a s
  | .error e, s => E e s

def SafeExcept (next : σ → (o : ω) → ρ o → σ → Prop) (P : σ → ω → Prop) (E : ε → σ → Prop)
    (p : ExceptT ε (Program ω ρ) α) (Q : α → σ → Prop) (s : σ) : Prop :=
  p.run.Safe next P (Ends E Q) s

@[simp] theorem safeExcept_pure (a : α) (Q : α → σ → Prop) (s : σ) :
    SafeExcept next P E (pure a) Q s ↔ Q a s := Iff.rfl

@[simp] theorem safeExcept_throw (e : ε) (Q : α → σ → Prop) (s : σ) :
    SafeExcept next P E (throw e) Q s ↔ E e s := Iff.rfl

@[simp] theorem safeExcept_mk_pure (r : Except ε α) (Q : α → σ → Prop) (s : σ) :
    SafeExcept next P E (ExceptT.mk (pure r)) Q s ↔ Ends E Q r s := Iff.rfl

theorem safeExcept_lift (p : Program ω ρ α) (Q : α → σ → Prop) (s : σ) :
    SafeExcept next P E (ExceptT.lift p) Q s ↔ p.Safe next P Q s := by
  change (p >>= fun a => pure (Except.ok a)).Safe next P (Ends E Q) s ↔ _
  rw [safe_bind]
  exact Iff.rfl

@[simp] theorem safeExcept_perform {ε : Type v} {E : ε → σ → Prop} (o : ω) (Q : ρ o → σ → Prop)
    (s : σ) :
    SafeExcept next P E (ExceptT.lift (perform o)) Q s ↔ P s o ∧ ∀ r t, next s o r t → Q r t := by
  rw [safeExcept_lift, safe_perform]

theorem safeExcept_bind (p : ExceptT ε (Program ω ρ) α) (f : α → ExceptT ε (Program ω ρ) β)
    (Q : β → σ → Prop) (s : σ) :
    SafeExcept next P E (p >>= f) Q s ↔
      SafeExcept next P E p (fun a t => SafeExcept next P E (f a) Q t) s := by
  change (p.run >>= ExceptT.bindCont f).Safe next P (Ends E Q) s ↔ _
  rw [safe_bind]
  constructor
  · intro h
    apply Safe.mono h
    intro r t hr
    cases r with
    | ok a | error e => exact hr
  · intro h
    apply Safe.mono h
    intro r t hr
    cases r with
    | ok a | error e => exact hr

variable {p : ExceptT ε (Program ω ρ) α}

theorem SafeExcept.mono (h : SafeExcept next P E p Q s) (hQ : ∀ a t, Q a t → Q' a t) :
    SafeExcept next P E p Q' s := by
  apply Safe.mono h
  intro r t hr
  cases r with
  | ok a => exact hQ a t hr
  | error e => exact hr

theorem SafeExcept.bind {f : α → ExceptT ε (Program ω ρ) β} {R : α → σ → Prop} {Q : β → σ → Prop}
    (hp : SafeExcept next P E p R s)
    (hf : ∀ a t, R a t → SafeExcept next P E (f a) Q t) : SafeExcept next P E (p >>= f) Q s :=
  (safeExcept_bind p f Q s).mpr (hp.mono hf)

end

end Program
