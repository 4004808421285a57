import Cognis.Library.Program

/-! Transactions that read what is committed, lock keys until they end, and publish their changes
together. What the holder of a key may rely on is what every other transaction has to keep. -/

namespace Transactions

open Option Program

/-- A statement views the state, locks a key or plans a change. -/
inductive Statement (κ δ : Type) where
  | view
  | lock (key : κ)
  | change (c : δ)

abbrev Statement.Reply {κ δ : Type} (σ : Type) : Statement κ δ → Type
  | .view => σ
  | .lock _ => Unit
  | .change _ => Unit

variable {σ κ δ ε α ρ : Type}

/-- A transaction commits when it returns, and is rolled back when it raises. -/
abbrev Transaction (σ κ δ ε α : Type) : Type :=
  ExceptT ε (Program (Statement κ δ) (Statement.Reply σ)) α

def view : Transaction σ κ δ ε σ := ExceptT.lift (perform Statement.view)

def lock (key : κ) : Transaction σ κ δ ε Unit := ExceptT.lift (perform (Statement.lock key))

def change (c : δ) : Transaction σ κ δ ε Unit := ExceptT.lift (perform (Statement.change c))

def lockAll : List κ → Transaction σ κ δ ε Unit
  | [] => pure ()
  | key :: keys => lock key >>= fun _ => lockAll keys

/-! The database. -/

structure Running (σ κ δ ε α : Type) where
  changes : List δ
  rest : Program (Statement κ δ) (Statement.Reply σ) (Except ε α)

structure State (σ κ δ ε α : Type) where
  db : σ
  owner : κ → Option Nat
  running : Nat → Option (Running σ κ δ ε α)

inductive Event (ρ : Type) where
  | start (id : Nat) (request : ρ)
  | advance (id : Nat)
  | rollback (id : Nat)

def applyAll (apply : σ → δ → σ) (db : σ) (changes : List δ) : σ := changes.foldl apply db

def State.goOn (s : State σ κ δ ε α) (id : Nat) (r : Running σ κ δ ε α) : State σ κ δ ε α :=
  { s with running := Function.update s.running id (some r) }

def State.stop (s : State σ κ δ ε α) (id : Nat) : State σ κ δ ε α :=
  { s with
    owner := fun key => if s.owner key = some id then none else s.owner key
    running := Function.update s.running id none }

section

variable [DecidableEq κ] (apply : σ → δ → σ) (allowed : σ → List δ → Bool)

/-- One statement, or the end. A lock that another has is waited for; a change that the constraints
refuse is rolled back. -/
def State.advance (s : State σ κ δ ε α) (id : Nat) : State σ κ δ ε α :=
  match s.running id with
  | none => s
  | some ⟨changes, .done (.ok _)⟩ =>
    if allowed s.db changes then { s.stop id with db := applyAll apply s.db changes } else s.stop id
  | some ⟨_, .done (.error _)⟩ => s.stop id
  | some ⟨changes, .call .view k⟩ => s.goOn id ⟨changes, k (applyAll apply s.db changes)⟩
  | some ⟨changes, .call (.lock key) k⟩ =>
    if (s.owner key).all (· == id) then
      { s.goOn id ⟨changes, k ()⟩ with owner := Function.update s.owner key (some id) }
    else s
  | some ⟨changes, .call (.change c) k⟩ => s.goOn id ⟨changes ++ [c], k ()⟩

def step (program : ρ → Transaction σ κ δ ε α) (s : State σ κ δ ε α) : Event ρ → State σ κ δ ε α
  | .start id request =>
    match s.running id with
    | some _ => s
    | none => s.goOn id ⟨[], program request⟩
  | .advance id => s.advance apply allowed id
  | .rollback id => s.stop id

end

/-- No transaction runs. -/
def initial (db : σ) : State σ κ δ ε α := ⟨db, fun _ => none, fun _ => none⟩

/-- `inv` holds of what is committed, `always` of what any commit does to it, and `keeps` of what
a commit does under a key that another holds. -/
structure Discipline (σ κ : Type) where
  inv : σ → Prop
  always : σ → σ → Prop
  keeps : κ → σ → σ → Prop
  always_refl : ∀ db, always db db
  always_trans : ∀ a b c, always a b → always b c → always a c
  keeps_refl : ∀ key db, keeps key db db
  keeps_trans : ∀ key a b c, keeps key a b → keeps key b c → keeps key a c

/-- What a transaction knows: the database, the keys it has, and its own changes. -/
structure View (σ κ δ : Type) where
  db : σ
  held : κ → Prop
  changes : List δ

variable (apply : σ → δ → σ) (allowed : σ → List δ → Bool) (d : Discipline σ κ)
  (Q : α → σ → List δ → Prop)

structure Discipline.Interferes (held : κ → Prop) (db db' : σ) : Prop where
  inv : d.inv db'
  always : d.always db db'
  keeps : ∀ key, held key → d.keeps key db db'

def Next (v : View σ κ δ) : (o : Statement κ δ) → Statement.Reply σ o → View σ κ δ → Prop
  | .view, reply, t => ∃ db', d.Interferes v.held v.db db' ∧ reply = applyAll apply db' v.changes ∧
      t = ⟨db', v.held, v.changes⟩
  | .lock key, _, t => ∃ db', d.Interferes v.held v.db db' ∧
      t = ⟨db', fun x => v.held x ∨ x = key, v.changes⟩
  | .change c, _, t => ∃ db', d.Interferes v.held v.db db' ∧ t = ⟨db', v.held, v.changes ++ [c]⟩

/-- What a transaction guarantees when it commits. -/
structure Commits (a : α) (held : κ → Prop) (changes : List δ) (db : σ) : Prop where
  inv : d.inv (applyAll apply db changes)
  always : d.always db (applyAll apply db changes)
  keeps : ∀ key, ¬ held key → d.keeps key db (applyAll apply db changes)
  result : Q a db changes

def Ready (a : α) (v : View σ κ δ) : Prop :=
  ∀ db', d.Interferes v.held v.db db' → allowed db' v.changes = true →
    Commits apply d Q a v.held v.changes db'

def Keeping (p : Transaction σ κ δ ε α) (R : α → View σ κ δ → Prop) (v : View σ κ δ) : Prop :=
  SafeExcept (Next apply d) (fun _ _ => True) (fun _ _ => True) p R v

variable {apply allowed d Q} {held held' : κ → Prop} {db db' db'' : σ} {changes : List δ}
  {s : State σ κ δ ε α} {id : Nat} {v : View σ κ δ}

theorem Discipline.Interferes.refl (h : d.inv db) : d.Interferes held db db :=
  ⟨h, d.always_refl db, fun key _ => d.keeps_refl key db⟩

theorem Discipline.Interferes.trans (h : d.Interferes held db db')
    (h' : d.Interferes held db' db'') : d.Interferes held db db'' where
  inv := h'.inv
  always := d.always_trans db db' db'' h.always h'.always
  keeps key hkey := d.keeps_trans key db db' db'' (h.keeps key hkey) (h'.keeps key hkey)

theorem Discipline.Interferes.mono (h : d.Interferes held db db')
    (hsub : ∀ key, held' key → held key) : d.Interferes held' db db' where
  inv := h.inv
  always := h.always
  keeps key hkey := h.keeps key (hsub key hkey)

theorem Ready.interferes {a : α} (h : Ready apply allowed d Q a ⟨db, held, changes⟩)
    (hdb : d.Interferes held db db') : Ready apply allowed d Q a ⟨db', held, changes⟩ := by
  intro last hlast
  exact h last (hdb.trans hlast)

variable (d) in
structure Later (v t : View σ κ δ) : Prop where
  interferes : d.Interferes v.held v.db t.db
  held : ∀ key, v.held key → t.held key

theorem Later.refl (h : d.inv v.db) : Later d v v := ⟨.refl h, fun _ hkey => hkey⟩

theorem Later.trans {t u : View σ κ δ} (h : Later d v t) (h' : Later d t u) : Later d v u :=
  ⟨h.interferes.trans (h'.interferes.mono h.held), fun key hkey => h'.held key (h.held key hkey)⟩

theorem Later.inv {t : View σ κ δ} (h : Later d v t) : d.inv t.db := h.interferes.inv

theorem Keeping.interferes {p : Transaction σ κ δ ε α}
    (h : Keeping apply d p (Ready apply allowed d Q) ⟨db, held, changes⟩)
    (hdb : d.Interferes held db db') :
    Keeping apply d p (Ready apply allowed d Q) ⟨db', held, changes⟩ := by
  unfold Keeping SafeExcept at h ⊢
  cases hp : p.run with
  | done result =>
    rw [hp] at h
    cases result with
    | error e => trivial
    | ok a => exact Ready.interferes h hdb
  | call o k =>
    rw [hp] at h
    refine ⟨trivial, ?_⟩
    intro reply t hnext
    apply h.2 reply t
    cases o with
    | view =>
      obtain ⟨last, hlast, hreply, ht⟩ := hnext
      exact ⟨last, hdb.trans hlast, hreply, ht⟩
    | lock | change =>
      obtain ⟨last, hlast, ht⟩ := hnext
      exact ⟨last, hdb.trans hlast, ht⟩

section

variable {β : Type} {R : α → View σ κ δ → Prop}

theorem keeping_pure {a : α} (h : R a v) : Keeping apply d (pure a : Transaction σ κ δ ε α) R v :=
  (safeExcept_pure a R v).mpr h

theorem keeping_throw {e : ε} : Keeping apply d (throw e : Transaction σ κ δ ε α) R v :=
  (safeExcept_throw e R v).mpr trivial

theorem keeping_bind {p : Transaction σ κ δ ε β} {f : β → Transaction σ κ δ ε α}
    (h : Keeping apply d p (fun b t => Keeping apply d (f b) R t) v) :
    Keeping apply d (p >>= f) R v :=
  (safeExcept_bind p f R v).mpr h

theorem keeping_view {R : σ → View σ κ δ → Prop}
    (h : ∀ t, Later d v t → t.changes = v.changes → R (applyAll apply t.db v.changes) t) :
    Keeping apply d (view : Transaction σ κ δ ε σ) R v := by
  unfold Keeping view
  refine ⟨trivial, ?_⟩
  rintro reply t ⟨db', hdb, rfl, rfl⟩
  exact h ⟨db', v.held, v.changes⟩ ⟨hdb, fun _ hkey => hkey⟩ rfl

variable {R : Unit → View σ κ δ → Prop}

theorem keeping_lock {key : κ}
    (h : ∀ t, Later d v t → t.held key → t.changes = v.changes → R () t) :
    Keeping apply d (lock key : Transaction σ κ δ ε Unit) R v := by
  unfold Keeping lock
  refine ⟨trivial, ?_⟩
  rintro reply t ⟨db', hdb, rfl⟩
  exact h ⟨db', fun x => v.held x ∨ x = key, v.changes⟩ ⟨hdb, fun _ hkey => .inl hkey⟩
    (.inr rfl) rfl

theorem keeping_change {c : δ} (h : ∀ t, Later d v t → t.changes = v.changes ++ [c] → R () t) :
    Keeping apply d (change c : Transaction σ κ δ ε Unit) R v := by
  unfold Keeping change
  refine ⟨trivial, ?_⟩
  rintro reply t ⟨db', hdb, rfl⟩
  exact h ⟨db', v.held, v.changes ++ [c]⟩ ⟨hdb, fun _ hkey => hkey⟩ rfl

theorem keeping_lockAll {keys : List κ} (hinv : d.inv v.db)
    (h : ∀ t, Later d v t → (∀ key ∈ keys, t.held key) → t.changes = v.changes → R () t) :
    Keeping apply d (lockAll keys : Transaction σ κ δ ε Unit) R v := by
  induction keys generalizing v with
  | nil =>
    apply keeping_pure
    apply h v (.refl hinv)
    · intro key hkey
      cases hkey
    · rfl
  | cons key keys ih =>
    apply keeping_bind
    apply keeping_lock
    intro t ht hkey hchanges
    apply ih ht.inv
    intro u hu hkeys hsame
    apply h u (ht.trans hu)
    · intro x hx
      rcases List.mem_cons.mp hx with rfl | htail
      · exact hu.held x hkey
      · exact hkeys x htail
    · rw [hsame, hchanges]

end

def State.keysOf (s : State σ κ δ ε α) (id : Nat) (key : κ) : Prop := s.owner key = some id

variable (apply allowed d Q) in
/-- The invariant of the system. -/
structure Sound (s : State σ κ δ ε α) : Prop where
  inv : d.inv s.db
  keeping : ∀ id r, s.running id = some r →
    Keeping apply d (ExceptT.mk r.rest) (Ready apply allowed d Q) ⟨s.db, s.keysOf id, r.changes⟩
  idle : ∀ id, s.running id = none → ∀ key, ¬ s.keysOf id key

theorem sound_initial (h : d.inv db) : Sound apply allowed d Q (initial db : State σ κ δ ε α) := by
  refine ⟨h, ?_, ?_⟩
  · intro id r hr
    cases hr
  · intro id _ key hkey
    cases hkey

variable {r : Running σ κ δ ε α}

/-- A transaction goes on and may take keys that nobody else holds. -/
theorem Sound.goOnWith {owner : κ → Option Nat} (h : Sound apply allowed d Q s)
    (hr : Keeping apply d (ExceptT.mk r.rest) (Ready apply allowed d Q)
      ⟨s.db, fun x => owner x = some id, r.changes⟩)
    (hother : ∀ other, other ≠ id → ∀ x, owner x = some other ↔ s.keysOf other x) :
    Sound apply allowed d Q { s.goOn id r with owner := owner } := by
  refine ⟨h.inv, ?_, ?_⟩
  · intro other q hq
    change Function.update s.running id (some r) other = some q at hq
    by_cases heq : other = id
    · rw [heq, Function.update_self] at hq
      cases hq
      rw [heq]
      exact hr
    · rw [Function.update_of_ne heq] at hq
      have hheld : ({ s.goOn id r with owner := owner } : State σ κ δ ε α).keysOf other =
          s.keysOf other := by
        funext x
        exact propext (hother other heq x)
      rw [hheld]
      exact h.keeping other q hq
  · intro other hnone x hx
    change Function.update s.running id (some r) other = none at hnone
    by_cases heq : other = id
    · rw [heq, Function.update_self] at hnone
      cases hnone
    · rw [Function.update_of_ne heq] at hnone
      exact h.idle other hnone x ((hother other heq x).mp hx)

theorem Sound.goOn (h : Sound apply allowed d Q s)
    (hr : Keeping apply d (ExceptT.mk r.rest) (Ready apply allowed d Q)
      ⟨s.db, s.keysOf id, r.changes⟩) :
    Sound apply allowed d Q (s.goOn id r) :=
  h.goOnWith hr fun _ _ _ => Iff.rfl

theorem keysOf_stop {other : Nat} (hne : other ≠ id) :
    (s.stop id).keysOf other = s.keysOf other := by
  funext key
  apply propext
  change (if s.owner key = some id then none else s.owner key) = some other ↔
    s.owner key = some other
  split_ifs with hmine
  · rw [hmine]
    constructor
    · intro h
      cases h
    · intro h
      exact absurd (some.inj h).symm hne
  · exact Iff.rfl

theorem not_keysOf_stop (key : κ) : ¬ (s.stop id).keysOf id key := by
  change ¬ (if s.owner key = some id then none else s.owner key) = some id
  split_ifs with hmine
  · intro h
    cases h
  · exact hmine

theorem Sound.stop (h : Sound apply allowed d Q s) (hinv : d.inv db')
    (hothers : ∀ other, other ≠ id → d.Interferes (s.keysOf other) s.db db') :
    Sound apply allowed d Q { s.stop id with db := db' } := by
  refine ⟨hinv, ?_, ?_⟩
  · intro other r hr
    by_cases heq : other = id
    · subst heq
      have hself : (s.stop other).running other = none := Function.update_self _ _ _
      rw [show ({ s.stop other with db := db' } : State σ κ δ ε α).running other =
        (s.stop other).running other from rfl, hself] at hr
      cases hr
    · have hold : (s.stop id).running other = s.running other := Function.update_of_ne heq _ _
      have hrun : s.running other = some r := hold.symm.trans hr
      have hkeep := (h.keeping other r hrun).interferes (hothers other heq)
      change Keeping apply d (ExceptT.mk r.rest) (Ready apply allowed d Q)
        ⟨db', (s.stop id).keysOf other, r.changes⟩
      rw [keysOf_stop heq]
      exact hkeep
  · intro other hnone key hkey
    by_cases heq : other = id
    · subst heq
      exact not_keysOf_stop key hkey
    · have hold : (s.stop id).running other = s.running other := Function.update_of_ne heq _ _
      have hheld : (s.stop id).keysOf other key := hkey
      rw [keysOf_stop heq] at hheld
      exact h.idle other (hold.symm.trans hnone) key hheld

theorem Sound.rollback (h : Sound apply allowed d Q s) : Sound apply allowed d Q (s.stop id) :=
  Sound.stop h h.inv fun _ _ => .refl h.inv

theorem Sound.commits {a : α} (h : Sound apply allowed d Q s)
    (hrun : s.running id = some ⟨changes, .done (.ok a)⟩) (hallowed : allowed s.db changes = true) :
    Commits apply d Q a (s.keysOf id) changes s.db := by
  have hend : Ready apply allowed d Q a ⟨s.db, s.keysOf id, changes⟩ := h.keeping id _ hrun
  exact hend s.db (.refl h.inv) hallowed

variable [DecidableEq κ]

theorem Sound.take {key : κ} (h : Sound apply allowed d Q s)
    (hfree : (s.owner key).all (· == id) = true)
    (hr : Keeping apply d (ExceptT.mk r.rest) (Ready apply allowed d Q)
      ⟨s.db, fun x => s.keysOf id x ∨ x = key, r.changes⟩) :
    Sound apply allowed d Q
      { s.goOn id r with owner := Function.update s.owner key (some id) } := by
  have hmine : ∀ x, Function.update s.owner key (some id) x = some id ↔ s.keysOf id x ∨
    x = key := by
    intro x
    by_cases hx : x = key
    · subst hx
      rw [Function.update_self]
      exact ⟨fun _ => .inr rfl, fun _ => rfl⟩
    · rw [Function.update_of_ne hx]
      exact ⟨.inl, fun hor => hor.resolve_right hx⟩
  have hother : ∀ other, other ≠ id → ∀ x,
      Function.update s.owner key (some id) x = some other ↔ s.keysOf other x := by
    intro other hne x
    by_cases hx : x = key
    · subst hx
      rw [Function.update_self]
      constructor
      · intro heq
        exact absurd (some.inj heq).symm hne
      · intro hheld
        rw [show s.owner x = some other from hheld, all_some, beq_iff_eq] at hfree
        exact absurd hfree hne
    · rw [Function.update_of_ne hx]
      exact Iff.rfl
  apply h.goOnWith _ hother
  simp only [hmine]
  exact hr

theorem Sound.advance (h : Sound apply allowed d Q s) :
    Sound apply allowed d Q (s.advance apply allowed id) := by
  unfold State.advance
  cases hrun : s.running id with
  | none => exact h
  | some r =>
    obtain ⟨changes, rest⟩ := r
    have hkeep := h.keeping id _ hrun
    cases rest with
    | done result =>
      cases result with
      | error e => exact h.rollback
      | ok a =>
        dsimp only
        split_ifs with hallowed
        · have hcommits := h.commits hrun hallowed
          apply h.stop hcommits.inv
          intro other hne
          refine ⟨hcommits.inv, hcommits.always, ?_⟩
          intro key hkey
          apply hcommits.keeps
          intro hmine
          exact hne (some.inj (hkey.symm.trans hmine))
        · exact h.rollback
    | call o k =>
      have hself : d.Interferes (s.keysOf id) s.db s.db := .refl h.inv
      cases o with
      | view => exact h.goOn (hkeep.2 _ _ ⟨s.db, hself, rfl, rfl⟩)
      | lock key =>
        dsimp only
        split_ifs with hfree
        · exact h.take hfree (hkeep.2 () _ ⟨s.db, hself, rfl⟩)
        · exact h
      | change c => exact h.goOn (hkeep.2 () _ ⟨s.db, hself, rfl⟩)

theorem Sound.step {program : ρ → Transaction σ κ δ ε α} (hprogram : ∀ request db, d.inv db →
      Keeping apply d (program request) (Ready apply allowed d Q) ⟨db, fun _ => False, []⟩)
    (h : Sound apply allowed d Q s) (e : Event ρ) :
    Sound apply allowed d Q (step apply allowed program s e) := by
  cases e with
  | start id request =>
    unfold Transactions.step
    dsimp only
    cases hrun : s.running id with
    | some r => exact h
    | none =>
      apply h.goOn
      have hnone : s.keysOf id = fun _ => False := by
        funext key
        exact propext ⟨h.idle id hrun key, False.elim⟩
      rw [hnone]
      exact hprogram request s.db h.inv
  | advance id => exact h.advance
  | rollback id => exact h.rollback

end Transactions
