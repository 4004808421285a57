import Cognis.Library.Substitution

/-! Patterns, with the order in which a backtracking matcher tries their matches. -/

/-- `first` and `last` are `^` and `$`, `notAhead` is `(?!…)`. -/
inductive Regex where
  | empty
  | char (accepts : Char → Bool)
  | seq (r s : Regex)
  | alt (r s : Regex)
  | many (greedy : Bool) (body : Regex)
  | group (number : Nat) (body : Regex)
  | backref (number : Nat)
  | notAhead (body : Regex)
  | first
  | last

namespace Regex

open List Option

/-- A position in a text, with what the groups have matched; `before` is reversed. -/
structure Place where
  before : List Char := []
  after : List Char
  groups : List (Nat × List Char) := []
  deriving DecidableEq

def Place.text (p : Place) : List Char := p.before.reverse ++ p.after

def Place.advance (p : Place) (n : Nat) : Place :=
  { p with before := (p.after.take n).reverse ++ p.before, after := p.after.drop n }

/-- What is between two places of a text. -/
def Place.upTo (p q : Place) : List Char := p.after.take (p.after.length - q.after.length)

def Place.group (p : Place) (number : Nat) : List Char := (p.groups.lookup number).getD []

/-- The ends of the matches of a repeated pattern, an empty match not being repeated. -/
def iterate (f : Place → List Place) (greedy : Bool) : Nat → Place → List Place
  | 0, p => [p]
  | n + 1, p =>
    let more :=
      ((f p).filter fun q => q.after.length < p.after.length).flatMap (iterate f greedy n)
    if greedy then more ++ [p] else p :: more

def run : Regex → Place → List Place
  | .empty, p => [p]
  | .char accepts, p => if p.after.head?.any accepts then [p.advance 1] else []
  | .seq r s, p => (r.run p).flatMap s.run
  | .alt r s, p => r.run p ++ s.run p
  | .many greedy body, p => iterate body.run greedy p.after.length p
  | .group number body, p =>
    (body.run p).map fun q => { q with groups := (number, p.upTo q) :: q.groups }
  | .backref number, p =>
    if p.group number <+: p.after then [p.advance (p.group number).length] else []
  | .notAhead body, p => if body.run p = [] then [p] else []
  | .first, p => if p.before = [] then [p] else []
  | .last, p => if p.after = [] ∨ p.after = ['\n'] then [p] else []

def matchAt (r : Regex) (p : Place) : Option Place := (r.run p).head?

/-- `match` of a pattern at the start of a text. -/
def matchStart (r : Regex) (text : List Char) : Option Place := r.matchAt { after := text }

def fullMatch (r : Regex) (text : List Char) : Option Place :=
  (r.run { after := text }).find? fun q => q.after = []

def searchFrom (r : Regex) (before : List Char) : List Char → Option (Place × Place)
  | [] => (r.matchAt { before := before, after := [] }).map ({ before := before, after := [] }, ·)
  | c :: after =>
    match r.matchAt { before := before, after := c :: after } with
    | some q => some ({ before := before, after := c :: after }, q)
    | none => r.searchFrom (c :: before) after

def search (r : Regex) (text : List Char) : Option (Place × Place) := r.searchFrom [] text

def finditerFrom (r : Regex) : Nat → List Char → List Char → List (Place × Place)
  | 0, _, _ => []
  | n + 1, before, after =>
    match r.searchFrom before after with
    | none => []
    | some (p, q) =>
      (p, q) ::
        if q.after.length < p.after.length then r.finditerFrom n q.before q.after
        else
          match q.after with
          | [] => []
          | c :: after => r.finditerFrom n (c :: q.before) after

def finditer (r : Regex) (text : List Char) : List (Place × Place) :=
  r.finditerFrom (text.length + 1) [] text

/-- `sub` of a pattern whose matches are not empty; `replacement` is of the ends of a match. -/
def sub (r : Regex) (replacement : Place → Place → List Char) (text : List Char) : List Char :=
  let matcher : Substitution.Matcher Char := fun before after =>
    let p : Place := { before := before.toList, after := after }
    (r.matchAt p).map fun q => (replacement p q, after.length - q.after.length - 1)
  Substitution.sub matcher none text

def lit (word : String) : Regex := word.toList.foldr (fun c r => .seq (.char (· == c)) r) .empty

def optional (r : Regex) : Regex := .alt r .empty

/-- `r{0,n}` -/
def atMost (r : Regex) : Nat → Regex
  | 0 => .empty
  | n + 1 => .alt (.seq r (r.atMost n)) .empty

/-- `r{n}` -/
def times (r : Regex) : Nat → Regex
  | 0 => .empty
  | n + 1 => .seq r (r.times n)

/-- `r*` -/
def star (r : Regex) : Regex := .many true r

/-- `r+` -/
def plus (r : Regex) : Regex := .seq r (.many true r)

/-- Patterns one after another. -/
def chain (rs : List Regex) : Regex := rs.foldr .seq .empty

/-- `q` is a later place of the text of `p`. -/
def Place.Leads (p q : Place) : Prop :=
  ∃ taken, p.after = taken ++ q.after ∧ q.before = taken.reverse ++ p.before

theorem Place.Leads.refl (p : Place) : p.Leads p := ⟨[], rfl, rfl⟩

variable {t : Place} {taken more : List Char} {p q : Place}

theorem Place.Leads.trans (h : p.Leads q) (h' : q.Leads t) : p.Leads t := by
  obtain ⟨taken, hafter, hbefore⟩ := h
  obtain ⟨taken', hafter', hbefore'⟩ := h'
  refine ⟨taken ++ taken', ?_, ?_⟩
  · rw [hafter, hafter', append_assoc]
  · rw [hbefore', hbefore, reverse_append, append_assoc]

theorem Place.Leads.text (h : p.Leads q) : q.text = p.text := by
  obtain ⟨taken, hafter, hbefore⟩ := h
  simp [Place.text, hafter, hbefore]

theorem Place.leads_advance (p : Place) (n : Nat) : p.Leads (p.advance n) :=
  ⟨p.after.take n, (take_append_drop n p.after).symm, rfl⟩

variable {f : Place → List Place}

theorem leads_of_mem_iterate (hf : ∀ p, ∀ q ∈ f p, p.Leads q) {greedy : Bool} {n : Nat}
    (h : q ∈ iterate f greedy n p) : p.Leads q := by
  induction n generalizing p with
  | zero =>
    obtain rfl := mem_singleton.mp h
    exact .refl q
  | succ n ih =>
    have hcases : q = p ∨ ∃ t ∈ f p, q ∈ iterate f greedy n t := by
      cases greedy with
      | true =>
        simp only [iterate, if_true, mem_append, mem_flatMap, mem_filter, mem_singleton] at h
        obtain ⟨t, ⟨ht, -⟩, hq⟩ | hq := h
        · exact .inr ⟨t, ht, hq⟩
        · exact .inl hq
      | false =>
        simp only [iterate, Bool.false_eq_true, if_false, mem_cons, mem_flatMap, mem_filter] at h
        obtain hq | ⟨t, ⟨ht, -⟩, hq⟩ := h
        · exact .inl hq
        · exact .inr ⟨t, ht, hq⟩
    obtain rfl | ⟨t, ht, hq⟩ := hcases
    · exact .refl q
    · exact (hf p t ht).trans (ih hq)

theorem leads_of_mem_run {r : Regex} (h : q ∈ r.run p) : p.Leads q := by
  induction r generalizing p q with
  | empty =>
    obtain rfl := mem_singleton.mp h
    exact .refl q
  | char =>
    unfold run at h
    split at h
    · obtain rfl := mem_singleton.mp h
      exact p.leads_advance 1
    · cases h
  | seq r s ihr ihs =>
    obtain ⟨t, ht, hq⟩ := mem_flatMap.mp h
    exact (ihr ht).trans (ihs hq)
  | alt r s ihr ihs =>
    obtain h | h := mem_append.mp h
    · exact ihr h
    · exact ihs h
  | many greedy body ih => exact leads_of_mem_iterate (fun p q => ih) h
  | group number body ih =>
    obtain ⟨t, ht, rfl⟩ := mem_map.mp h
    obtain ⟨taken, hafter, hbefore⟩ := ih ht
    exact ⟨taken, hafter, hbefore⟩
  | backref =>
    unfold run at h
    split at h
    · obtain rfl := mem_singleton.mp h
      exact p.leads_advance _
    · cases h
  | notAhead | first | last =>
    unfold run at h
    split at h
    · obtain rfl := mem_singleton.mp h
      exact .refl q
    · cases h

variable {r : Regex} {p q : Place} {before after text : List Char} {n : Nat}

theorem searchFrom_spec (h : r.searchFrom before after = some (p, q)) :
    p.text = before.reverse ++ after ∧ r.matchAt p = some q := by
  induction after generalizing before with
  | nil =>
    obtain ⟨t, ht, heq⟩ := map_eq_some_iff.mp h
    obtain ⟨rfl, rfl⟩ := Prod.mk.inj heq
    exact ⟨rfl, ht⟩
  | cons c after ih =>
    unfold searchFrom at h
    cases hmatch : r.matchAt { before := before, after := c :: after } with
    | some t =>
      rw [hmatch] at h
      obtain ⟨rfl, rfl⟩ := Prod.mk.inj (some.inj h)
      exact ⟨rfl, hmatch⟩
    | none =>
      rw [hmatch] at h
      obtain ⟨htext, hq⟩ := ih h
      exact ⟨by simp [htext], hq⟩

theorem finditerFrom_spec (h : (p, q) ∈ r.finditerFrom n before after) :
    p.text = before.reverse ++ after ∧ r.matchAt p = some q := by
  induction n generalizing before after with
  | zero => cases h
  | succ n ih =>
    unfold finditerFrom at h
    cases hsearch : r.searchFrom before after with
    | none =>
      rw [hsearch] at h
      cases h
    | some found =>
      obtain ⟨p', q'⟩ := found
      rw [hsearch] at h
      obtain ⟨htext, hmatch⟩ := searchFrom_spec hsearch
      have hlast : q'.text = before.reverse ++ after :=
        (leads_of_mem_run (mem_of_head? hmatch)).text.trans htext
      obtain heq | h := mem_cons.mp h
      · obtain ⟨rfl, rfl⟩ := Prod.mk.inj heq
        exact ⟨htext, hmatch⟩
      · split at h
        · obtain ⟨hp, hq⟩ := ih h
          exact ⟨hp.trans hlast, hq⟩
        · split at h
          · cases h
          · rename_i c rest hrest
            obtain ⟨hp, hq⟩ := ih h
            refine ⟨hp.trans ?_, hq⟩
            rw [← hlast, Place.text, hrest]
            simp

/-- A match that `finditer` finds is the first one tried at its place. -/
theorem finditer_spec (h : (p, q) ∈ r.finditer text) :
    p.text = text ∧ r.matchAt p = some q := finditerFrom_spec h

theorem searchFrom_first {lead : List Char}
    (h : r.run { before := lead.reverse ++ before, after := after } ≠ []) :
    ∃ p q, r.searchFrom before (lead ++ after) = some (p, q) ∧
      p.before.length ≤ lead.length + before.length := by
  induction lead generalizing before with
  | nil =>
    obtain ⟨q, hq⟩ : ∃ q, r.matchAt { before := before, after := after } = some q :=
      isSome_iff_exists.mp (isSome_head?.mpr h)
    refine ⟨{ before := before, after := after }, q, ?_, Nat.le_add_left _ _⟩
    cases after with
    | nil => rw [append_nil, searchFrom, hq, map_some]
    | cons => rw [nil_append, searchFrom, hq]
  | cons c lead ih =>
    rw [cons_append, searchFrom]
    cases hmatch : r.matchAt { before := before, after := c :: (lead ++ after) } with
    | some q =>
      exact ⟨{ before := before, after := c :: (lead ++ after) }, q, rfl, Nat.le_add_left _ _⟩
    | none =>
      have hlater : r.run { before := lead.reverse ++ c :: before, after := after } ≠ [] := by
        simpa using h
      obtain ⟨p, q, hsearch, hle⟩ := ih hlater
      exact ⟨p, q, hsearch, by simp at hle ⊢; omega⟩

/-- From `p` to `q` the text `taken` is read, without groups. -/
structure Place.Takes (p : Place) (taken : List Char) (q : Place) : Prop where
  after : p.after = taken ++ q.after
  before : q.before = taken.reverse ++ p.before
  groups : q.groups = p.groups

theorem Place.Takes.refl (p : Place) : p.Takes [] p := ⟨rfl, rfl, rfl⟩

theorem Place.Takes.trans (h : p.Takes taken q)
    (h' : q.Takes more t) : p.Takes (taken ++ more) t := by
  refine ⟨?_, ?_, h'.groups.trans h.groups⟩
  · rw [h.after, h'.after, append_assoc]
  · rw [h'.before, h.before, reverse_append, append_assoc]

theorem Place.exists_takes {p : Place} {rest : List Char} (h : p.after = taken ++ rest) :
    ∃ q, p.Takes taken q ∧ q.after = rest :=
  ⟨{ p with before := taken.reverse ++ p.before, after := rest }, ⟨h, rfl, rfl⟩, rfl⟩

theorem Place.Takes.upTo (h : p.Takes taken q) : p.upTo q = taken := by
  rw [Place.upTo, h.after, length_append, Nat.add_sub_cancel, take_left']
  rfl

theorem Place.Takes.unique (h : p.Takes taken q) (h' : p.Takes taken t) : q = t := by
  have hafter : q.after = t.after := append_cancel_left (h.after.symm.trans h'.after)
  have hbefore := h.before.trans h'.before.symm
  have hgroups := h.groups.trans h'.groups.symm
  cases q
  cases t
  simp_all

variable {accepts : Char → Bool} {greedy : Bool} {s : Regex}

theorem mem_run_seq : q ∈ (Regex.seq r s).run p ↔ ∃ t ∈ r.run p, q ∈ s.run t := mem_flatMap

theorem mem_run_char : q ∈ (Regex.char accepts).run p ↔ ∃ c, accepts c ∧ p.Takes [c] q := by
  unfold run
  obtain ⟨before, after, groups⟩ := p
  cases after with
  | nil =>
    constructor
    · intro h
      cases h
    · rintro ⟨c, -, htakes⟩
      cases htakes.after
  | cons d rest =>
    have hnext : Place.Takes { before := before, after := d :: rest, groups := groups } [d]
        (Place.advance { before := before, after := d :: rest, groups := groups } 1) :=
      ⟨rfl, rfl, rfl⟩
    constructor
    · intro h
      split at h
      · rename_i haccepts
        obtain rfl := mem_singleton.mp h
        exact ⟨d, haccepts, hnext⟩
      · cases h
    · rintro ⟨c, haccepts, htakes⟩
      obtain ⟨rfl, -⟩ := List.cons.inj htakes.after
      obtain rfl := htakes.unique hnext
      rw [if_pos (show (head? (d :: rest)).any accepts = true from haccepts)]
      exact mem_singleton_self _

theorem mem_run_lit {word : String} : q ∈ (lit word).run p ↔ p.Takes word.toList q := by
  unfold lit
  induction word.toList generalizing p with
  | nil =>
    constructor
    · intro h
      obtain rfl := mem_singleton.mp h
      exact Place.Takes.refl q
    · intro h
      obtain rfl := h.unique (Place.Takes.refl p)
      exact mem_singleton_self _
  | cons c word ih =>
    rw [foldr_cons, mem_run_seq]
    constructor
    · rintro ⟨t, ht, hq⟩
      obtain ⟨d, hd, htakes⟩ := mem_run_char.mp ht
      obtain rfl := eq_of_beq hd
      exact htakes.trans (ih.mp hq)
    · intro h
      obtain ⟨t, ht, hafter⟩ := Place.exists_takes
        (show p.after = [c] ++ (word ++ q.after) from h.after)
      refine ⟨t, mem_run_char.mpr ⟨c, beq_self_eq_true c, ht⟩, ih.mpr ⟨hafter, ?_, ?_⟩⟩
      · rw [h.before, ht.before]
        simp
      · rw [h.groups, ht.groups]

theorem self_mem_iterate (f : Place → List Place) (greedy : Bool) (n : Nat) (p : Place) :
    p ∈ iterate f greedy n p := by
  cases n with
  | zero => exact mem_singleton_self p
  | succ n => cases greedy <;> simp [iterate]

theorem mem_iterate_succ : q ∈ iterate f greedy (n + 1) p ↔ q = p ∨
      ∃ t ∈ f p, t.after.length < p.after.length ∧ q ∈ iterate f greedy n t := by
  cases greedy with
  | true => simp [iterate, or_comm, and_assoc]
  | false => simp [iterate, and_assoc]

theorem mem_iterate_char {n : Nat} (hn : p.after.length ≤ n) :
    q ∈ iterate (Regex.char accepts).run greedy n p ↔
      ∃ taken, (∀ c ∈ taken, accepts c) ∧ p.Takes taken q := by
  induction n generalizing p with
  | zero =>
    have hnil : p.after = [] := length_eq_zero_iff.mp (Nat.le_zero.mp hn)
    constructor
    · intro h
      obtain rfl := mem_singleton.mp h
      exact ⟨[], by simp, Place.Takes.refl q⟩
    · rintro ⟨taken, -, htakes⟩
      have hboth := htakes.after
      rw [hnil] at hboth
      obtain ⟨rfl, -⟩ := append_eq_nil_iff.mp hboth.symm
      obtain rfl := htakes.unique (Place.Takes.refl p)
      exact mem_singleton_self _
  | succ n ih =>
    rw [mem_iterate_succ]
    constructor
    · rintro (rfl | ⟨t, ht, hlt, hq⟩)
      · exact ⟨[], by simp, Place.Takes.refl q⟩
      · obtain ⟨c, hc, htakes⟩ := mem_run_char.mp ht
        obtain ⟨taken, htaken, hrest⟩ := (ih (by omega)).mp hq
        exact ⟨c :: taken, forall_mem_cons.mpr ⟨hc, htaken⟩, htakes.trans hrest⟩
    · rintro ⟨taken, htaken, htakes⟩
      cases taken with
      | nil => exact .inl (htakes.unique (Place.Takes.refl p))
      | cons c taken =>
        obtain ⟨hc, htaken⟩ := forall_mem_cons.mp htaken
        obtain ⟨t, ht, hafter⟩ := Place.exists_takes
          (show p.after = [c] ++ (taken ++ q.after) from htakes.after)
        have hlt : t.after.length < p.after.length := by simp [ht.after]
        refine .inr ⟨t, mem_run_char.mpr ⟨c, hc, ht⟩, hlt,
          (ih (by omega)).mpr ⟨taken, htaken, hafter, ?_, ?_⟩⟩
        · rw [htakes.before, ht.before]
          simp
        · rw [htakes.groups, ht.groups]

theorem mem_run_many_char : q ∈ (Regex.many greedy (.char accepts)).run p ↔
    ∃ taken, (∀ c ∈ taken, accepts c) ∧ p.Takes taken q :=
  mem_iterate_char (Nat.le_refl _)

theorem mem_run_empty : q ∈ Regex.empty.run p ↔ q = p := mem_singleton

theorem mem_run_alt : q ∈ (Regex.alt r s).run p ↔ q ∈ r.run p ∨ q ∈ s.run p := mem_append

theorem mem_run_optional : q ∈ (optional r).run p ↔ q ∈ r.run p ∨ q = p := by
  simp [optional, run]

theorem mem_run_group {number : Nat} : q ∈ (Regex.group number r).run p ↔
    ∃ t ∈ r.run p, q = { t with groups := (number, p.upTo t) :: t.groups } := by
  simp [run, eq_comm]

/-! What a pattern reads does not depend on what comes before it and after it. -/

/-- A pattern that looks at nothing but what it reads. -/
def Local : Regex → Prop
  | .empty | .char _ => True
  | .seq r s | .alt r s => r.Local ∧ s.Local
  | .many _ r | .group _ r => r.Local
  | _ => False

theorem Local.mem_run (hr : r.Local) {p' : Place} (h : q ∈ r.run p)
    (hp : p'.after = p.after ++ more) : ∃ q' ∈ r.run p', q'.after = q.after ++ more := by
  induction r generalizing p q p' with
  | empty =>
    obtain rfl := mem_singleton.mp h
    exact ⟨p', mem_singleton_self p', hp⟩
  | char =>
    obtain ⟨c, hc, htakes⟩ := mem_run_char.mp h
    have hsplit : p'.after = [c] ++ (q.after ++ more) := by rw [hp, htakes.after, append_assoc]
    obtain ⟨q', htakes', hafter⟩ := Place.exists_takes hsplit
    exact ⟨q', mem_run_char.mpr ⟨c, hc, htakes'⟩, hafter⟩
  | seq r s ihr ihs =>
    obtain ⟨t, ht, hq⟩ := mem_run_seq.mp h
    obtain ⟨t', ht', hafter⟩ := ihr hr.1 ht hp
    obtain ⟨q', hq', hlast⟩ := ihs hr.2 hq hafter
    exact ⟨q', mem_run_seq.mpr ⟨t', ht', hq'⟩, hlast⟩
  | alt r s ihr ihs =>
    obtain h | h := mem_run_alt.mp h
    · obtain ⟨q', hq', hafter⟩ := ihr hr.1 h hp
      exact ⟨q', mem_run_alt.mpr (.inl hq'), hafter⟩
    · obtain ⟨q', hq', hafter⟩ := ihs hr.2 h hp
      exact ⟨q', mem_run_alt.mpr (.inr hq'), hafter⟩
  | many greedy body ih =>
    have hrounds (n m : Nat) (hle : n ≤ m) (p p' : Place) (hp : p'.after = p.after ++ more)
        (h : q ∈ iterate body.run greedy n p) :
        ∃ q' ∈ iterate body.run greedy m p', q'.after = q.after ++ more := by
      induction n generalizing m p p' with
      | zero =>
        obtain rfl := mem_singleton.mp h
        exact ⟨p', self_mem_iterate _ _ _ _, hp⟩
      | succ n ihn =>
        obtain ⟨m, rfl⟩ : ∃ k, m = k + 1 := ⟨m - 1, by omega⟩
        obtain rfl | ⟨t, ht, hlt, hq⟩ := mem_iterate_succ.mp h
        · exact ⟨p', self_mem_iterate _ _ _ _, hp⟩
        · obtain ⟨t', ht', hafter⟩ := ih hr ht hp
          obtain ⟨q', hq', hlast⟩ := ihn m (by omega) t t' hafter hq
          have hshorter : t'.after.length < p'.after.length := by
            rw [hafter, hp, length_append, length_append]
            omega
          exact ⟨q', mem_iterate_succ.mpr (.inr ⟨t', ht', hshorter, hq'⟩), hlast⟩
    exact hrounds _ _ (by rw [hp, length_append]; omega) p p' hp h
  | group number body ih =>
    obtain ⟨t, ht, rfl⟩ := mem_run_group.mp h
    obtain ⟨t', ht', hafter⟩ := ih hr ht hp
    exact ⟨_, mem_run_group.mpr ⟨t', ht', rfl⟩, hafter⟩
  | backref | notAhead | first | last => cases hr

def Starts (r : Regex) (text : List Char) : Prop := r.run { after := text } ≠ []

theorem Local.starts_append (hr : r.Local) (h : r.Starts text) :
    r.Starts (text ++ more) := by
  obtain ⟨q, hq⟩ := exists_mem_of_ne_nil _ h
  obtain ⟨q', hq', -⟩ := hr.mem_run hq
    (show ({ after := text ++ more } : Place).after = text ++ more from rfl)
  exact ne_nil_of_mem hq'

theorem Local.matchAt_eq_none (hr : r.Local) (h : ¬ r.Starts p.after) : r.matchAt p = none := by
  cases hmatch : r.matchAt p with
  | none => rfl
  | some q =>
    obtain ⟨q', hq', -⟩ := hr.mem_run (mem_of_head? hmatch)
      (show ({ after := p.after } : Place).after = p.after ++ [] from (append_nil _).symm)
    exact absurd (ne_nil_of_mem hq') h

theorem Local.exists_matchAt (hr : r.Local) (h : r.Starts p.after) : ∃ q, r.matchAt p = some q := by
  obtain ⟨q, hq⟩ := exists_mem_of_ne_nil _ h
  obtain ⟨q', hq', -⟩ := hr.mem_run hq (show p.after = p.after ++ [] from (append_nil _).symm)
  exact isSome_iff_exists.mp (isSome_head?.mpr (ne_nil_of_mem hq'))

theorem finditerFrom_nil (h : r.matchAt { before := before, after := [] } = none) :
    r.finditerFrom n before [] = [] := by
  cases n with
  | zero => rfl
  | succ n => simp [finditerFrom, searchFrom, h]

theorem finditerFrom_cons_none {c : Char}
    (h : r.matchAt { before := before, after := c :: after } = none) :
    r.finditerFrom (n + 1) before (c :: after) = r.finditerFrom (n + 1) (c :: before) after := by
  simp only [finditerFrom, searchFrom, h]

theorem finditerFrom_cons_some {c : Char}
    (h : r.matchAt { before := before, after := c :: after } = some q)
    (hlt : q.after.length < (c :: after).length) :
    r.finditerFrom (n + 1) before (c :: after) =
      ({ before := before, after := c :: after }, q) :: r.finditerFrom n q.before q.after := by
  simp only [finditerFrom, searchFrom, h, if_pos hlt]

end Regex
