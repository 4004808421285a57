import Cognis.GateConditions.Expression
import Cognis.Library.Checks

namespace Cognis.GateConditions

open Checks List Option

variable {V : Type}

mutual
def meaning (py : Values V) (ctx : Context V) : Expr V → V
  | .constant value => value
  | .list elts => py.ofList (meanings py ctx elts)
  | .tuple elts => py.ofList (meanings py ctx elts)
  | .name id => py.ofBool (id == "true")
  | .attribute value attr =>
    match (Expr.attribute value attr).chain.1.bind ctx.namespace with
    | none => py.noneValue
    | some entries => resolveIn py entries (Expr.attribute value attr).chain.2
  | .boolOp op values => py.ofBool (op.apply ((meanings py ctx values).map py.truth))
  | .unaryOp _ operand => py.ofBool (!py.truth (meaning py ctx operand))
  | .compare left rest => py.ofBool (chainHolds py ctx (meaning py ctx left) rest)
  | .other _ _ => py.noneValue

def meanings (py : Values V) (ctx : Context V) : List (Expr V) → List V
  | [] => []
  | e :: es => meaning py ctx e :: meanings py ctx es

def chainHolds (py : Values V) (ctx : Context V) (left : V) : List (CmpOp × Expr V) → Bool
  | [] => true
  | (op, e) :: rest =>
    (py.compare op left (meaning py ctx e)).getD false && chainHolds py ctx (meaning py ctx e) rest
end

inductive Check (V : Type) where
  | identifier (id : String)
  | reference (root : Option String) (attrs : List String)
  | comparison (left : V) (op : CmpOp) (right : V)

def Check.fault (py : Values V) : Check V → Option GateError
  | .identifier id =>
    if id = "true" ∨ id = "false" then none else some (.unsupportedIdentifier id)
  | .reference root attrs =>
    if root = some "metadata" ∨ root = some "outputs" ∨ root = some "thresholds" then none
    else some (.unsupportedReference root attrs)
  | .comparison left op right =>
    if (py.compare op left right).isSome then none else some .incompatibleValues

def Check.isComparison : Check V → Bool
  | .comparison _ _ _ => true
  | _ => false

/-- A value that decides an `and` or an `or`. -/
def BoolOp.decides (op : BoolOp) (truth : Bool) : Bool :=
  match op with
  | .and => !truth
  | .or => truth

mutual
/-- The checks in the order of evaluation, of all operands or of those that a guard lets
through. -/
def checks (py : Values V) (ctx : Context V) (guarded : Bool) : Expr V → List (Check V)
  | .constant _ => []
  | .list elts => checksAll py ctx guarded elts
  | .tuple elts => checksAll py ctx guarded elts
  | .name id => [.identifier id]
  | .attribute value attr =>
    [.reference (Expr.attribute value attr).chain.1 (Expr.attribute value attr).chain.2]
  | .boolOp op values => checksOperands py ctx guarded op values
  | .unaryOp _ operand => checks py ctx guarded operand
  | .compare left rest =>
    checks py ctx guarded left ++ checksChain py ctx guarded (meaning py ctx left) rest
  | .other _ _ => []

def checksAll (py : Values V) (ctx : Context V) (guarded : Bool) : List (Expr V) → List (Check V)
  | [] => []
  | e :: es => checks py ctx guarded e ++ checksAll py ctx guarded es

def checksOperands (py : Values V) (ctx : Context V) (guarded : Bool) (op : BoolOp) :
    List (Expr V) → List (Check V)
  | [] => []
  | e :: es =>
    checks py ctx guarded e ++
      if guarded && op.decides (py.truth (meaning py ctx e)) then []
      else checksOperands py ctx guarded op es

def checksChain (py : Values V) (ctx : Context V) (guarded : Bool) (left : V) :
    List (CmpOp × Expr V) → List (Check V)
  | [] => []
  | (op, e) :: rest =>
    checks py ctx guarded e ++ .comparison left op (meaning py ctx e) ::
      if (py.compare op left (meaning py ctx e)).getD false then
        checksChain py ctx guarded (meaning py ctx e) rest
      else []
end

mutual
/-- The operands after a deciding one, wherever a guarded evaluation arrives. -/
def skipped (py : Values V) (ctx : Context V) : Expr V → List (Expr V)
  | .constant _ => []
  | .list elts => skippedAll py ctx elts
  | .tuple elts => skippedAll py ctx elts
  | .name _ => []
  | .attribute _ _ => []
  | .boolOp op values => skippedOperands py ctx op values
  | .unaryOp _ operand => skipped py ctx operand
  | .compare left rest =>
    skipped py ctx left ++ skippedChain py ctx (meaning py ctx left) rest
  | .other _ _ => []

def skippedAll (py : Values V) (ctx : Context V) : List (Expr V) → List (Expr V)
  | [] => []
  | e :: es => skipped py ctx e ++ skippedAll py ctx es

def skippedOperands (py : Values V) (ctx : Context V) (op : BoolOp) : List (Expr V) → List (Expr V)
  | [] => []
  | e :: es =>
    skipped py ctx e ++
      if op.decides (py.truth (meaning py ctx e)) then es else skippedOperands py ctx op es

def skippedChain (py : Values V) (ctx : Context V) (left : V) :
    List (CmpOp × Expr V) → List (Expr V)
  | [] => []
  | (op, e) :: rest =>
    skipped py ctx e ++
      if (py.compare op left (meaning py ctx e)).getD false then
        skippedChain py ctx (meaning py ctx e) rest
      else []
end

mutual
/-- Evaluation with guards: an operand that decides an `and` or an `or` is its last. -/
def evalGuarded (py : Values V) (ctx : Context V) : Expr V → Except GateError V
  | .constant value => .ok value
  | .list elts => (evalGuardedAll py ctx elts).bind fun values => .ok (py.ofList values)
  | .tuple elts => (evalGuardedAll py ctx elts).bind fun values => .ok (py.ofList values)
  | .name id =>
    if id = "true" ∨ id = "false" then .ok (py.ofBool (id == "true"))
    else .error (.unsupportedIdentifier id)
  | .attribute value attr => resolveAttribute py ctx (.attribute value attr)
  | .boolOp op values =>
    (evalOperands py ctx op values).bind fun result => .ok (py.ofBool result)
  | .unaryOp op operand =>
    if op = .not then
      (evalGuarded py ctx operand).bind fun value => .ok (py.ofBool (!py.truth value))
    else .error .unsupportedSyntax
  | .compare left rest =>
    (evalGuarded py ctx left).bind fun value =>
      (evalGuardedChain py ctx value rest).bind fun holds => .ok (py.ofBool holds)
  | .other _ _ => .error .unsupportedSyntax

def evalGuardedAll (py : Values V) (ctx : Context V) : List (Expr V) → Except GateError (List V)
  | [] => .ok []
  | e :: es =>
    (evalGuarded py ctx e).bind fun value =>
      (evalGuardedAll py ctx es).bind fun values => .ok (value :: values)

def evalOperands (py : Values V) (ctx : Context V) (op : BoolOp) :
    List (Expr V) → Except GateError Bool
  | [] => .ok (op.apply [])
  | e :: es =>
    (evalGuarded py ctx e).bind fun value =>
      if op.decides (py.truth value) then .ok (py.truth value) else evalOperands py ctx op es

def evalGuardedChain (py : Values V) (ctx : Context V) (left : V) :
    List (CmpOp × Expr V) → Except GateError Bool
  | [] => .ok true
  | (op, e) :: rest =>
    (evalGuarded py ctx e).bind fun right =>
      (compareValues py left op right).bind fun holds =>
        if holds then evalGuardedChain py ctx right rest else .ok false
end

variable {py : Values V} {ctx : Context V} {op : BoolOp} {cmp : CmpOp}

theorem namespace_eq_none_iff {root : Option String} : root.bind ctx.namespace = none ↔
      ¬ (root = some "metadata" ∨ root = some "outputs" ∨ root = some "thresholds") := by
  cases root with
  | none => simp
  | some =>
    unfold Context.namespace
    simp only [bind_some, some.injEq]
    split_ifs with hmetadata houtputs hthresholds
    · simp [hmetadata]
    · simp [houtputs]
    · simp [hthresholds]
    · simp [hmetadata, houtputs, hthresholds]

theorem resolveAttribute_eq (value : Expr V) (attr : String) :
    resolveAttribute py ctx (.attribute value attr) =
      outcome (Check.fault py) (checks py ctx true (.attribute value attr))
        (meaning py ctx (.attribute value attr)) := by
  unfold resolveAttribute checks meaning
  rw [outcome_singleton]
  unfold Check.fault
  dsimp only
  cases hspace : (Expr.attribute value attr).chain.1.bind ctx.namespace with
  | none => rw [if_neg (namespace_eq_none_iff.mp hspace)]
  | some entries =>
    have hroot : ¬ (Expr.attribute value attr).chain.1.bind ctx.namespace = none := by
      rw [hspace]
      exact some_ne_none entries
    rw [namespace_eq_none_iff, not_not] at hroot
    rw [if_pos hroot]

theorem identifier_eq (id : String) :
    (if id = "true" ∨ id = "false" then Except.ok (py.ofBool (id == "true"))
      else .error (.unsupportedIdentifier id)) =
      outcome (Check.fault py) [.identifier id] (py.ofBool (id == "true")) := by
  rw [outcome_singleton]
  unfold Check.fault
  dsimp only
  split_ifs <;> rfl

theorem compareValues_eq (hcmp : cmp.allowed) (left right : V) :
    compareValues py left cmp right = outcome (Check.fault py) [.comparison left cmp right]
      ((py.compare cmp left right).getD false) := by
  rw [outcome_singleton]
  unfold compareValues Check.fault
  rw [if_pos hcmp]
  dsimp only
  cases py.compare cmp left right <;> rfl

theorem checksOperands_false (es : List (Expr V)) :
    checksOperands py ctx false op es = checksAll py ctx false es := by
  induction es with
  | nil => rfl
  | cons e es ih =>
    unfold checksOperands checksAll
    rw [ih]
    simp

variable {next : Except GateError Bool} {more : List (Check V)}

theorem chain_step (hcmp : cmp.allowed) {left right : V} {holds : Bool}
    (hnext : next = outcome (Check.fault py) more holds) :
    ((compareValues py left cmp right).bind fun held => if held then next else .ok false) =
      outcome (Check.fault py) (.comparison left cmp right ::
        if (py.compare cmp left right).getD false then more else [])
        ((py.compare cmp left right).getD false && holds) := by
  rw [compareValues_eq hcmp]
  cases hheld : (py.compare cmp left right).getD false with
  | true =>
    rw [if_pos rfl, Bool.true_and]
    have hcons : Check.comparison left cmp right :: more =
        [Check.comparison left cmp right] ++ more := rfl
    exact bind_outcome hnext
  | false =>
    exact bind_outcome_ok rfl

mutual
theorem evalNode_eq (e : Expr V) (h : e.allowed) : evalNode py ctx e =
    outcome (Check.fault py) (checks py ctx false e) (meaning py ctx e) := by
  match e with
  | .constant value => rfl
  | .list elts =>
    unfold evalNode
    rw [evalNodes_eq elts h]
    exact bind_outcome_ok rfl
  | .tuple elts =>
    unfold evalNode
    rw [evalNodes_eq elts h]
    exact bind_outcome_ok rfl
  | .name id => exact identifier_eq id
  | .attribute value attr => exact resolveAttribute_eq value attr
  | .boolOp op values =>
    unfold evalNode checks
    rw [evalNodes_eq values h, checksOperands_false]
    exact bind_outcome_ok rfl
  | .unaryOp op operand =>
    obtain ⟨hnot, hoperand⟩ := Bool.and_eq_true_iff.mp h
    unfold evalNode
    rw [if_pos (eq_of_beq hnot), evalNode_eq operand hoperand]
    exact bind_outcome_ok rfl
  | .compare left rest =>
    obtain ⟨hleft, hrest⟩ := Bool.and_eq_true_iff.mp h
    unfold evalNode checks
    rw [evalNode_eq left hleft]
    apply bind_outcome
    rw [evalChain_eq (meaning py ctx left) rest hrest]
    exact bind_outcome_ok rfl
  | .other _ _ => cases h

theorem evalNodes_eq (es : List (Expr V)) (h : allowedAll es) : evalNodes py ctx es =
    outcome (Check.fault py) (checksAll py ctx false es) (meanings py ctx es) := by
  match es with
  | [] => rfl
  | e :: es =>
    obtain ⟨he, hes⟩ := Bool.and_eq_true_iff.mp h
    unfold evalNodes checksAll
    rw [evalNode_eq e he]
    apply bind_outcome
    rw [evalNodes_eq es hes]
    exact bind_outcome_ok rfl

theorem evalChain_eq (left : V) (rest : List (CmpOp × Expr V)) (h : allowedRest rest) :
    evalChain py ctx left rest = outcome (Check.fault py) (checksChain py ctx false left rest)
        (chainHolds py ctx left rest) := by
  match rest with
  | [] => rfl
  | (cmp, e) :: rest =>
    obtain ⟨hcmp, hrest⟩ := Bool.and_eq_true_iff.mp h
    obtain ⟨he, hrest⟩ := Bool.and_eq_true_iff.mp hrest
    unfold evalChain checksChain chainHolds
    rw [evalNode_eq e he]
    apply bind_outcome
    exact chain_step hcmp (evalChain_eq (meaning py ctx e) rest hrest)
end

theorem apply_cons (truth : Bool) (rest : List Bool) : op.apply (truth :: rest) =
    if op.decides truth then truth else op.apply rest := by
  cases op with
  | and | or => cases truth <;> rfl

theorem operand_step {e : Expr V} {rest : List Bool}
    (hnext : next = outcome (Check.fault py) more (op.apply rest)) :
    (if op.decides (py.truth (meaning py ctx e)) then .ok (py.truth (meaning py ctx e))
      else next) =
      outcome (Check.fault py)
        (if true && op.decides (py.truth (meaning py ctx e)) then [] else more)
        (op.apply (py.truth (meaning py ctx e) :: rest)) := by
  rw [apply_cons, Bool.true_and]
  split_ifs with hdecides
  · rfl
  · exact hnext

mutual
theorem evalGuarded_eq (e : Expr V) (h : e.allowed) : evalGuarded py ctx e =
    outcome (Check.fault py) (checks py ctx true e) (meaning py ctx e) := by
  match e with
  | .constant value => rfl
  | .list elts =>
    unfold evalGuarded
    rw [evalGuardedAll_eq elts h]
    exact bind_outcome_ok rfl
  | .tuple elts =>
    unfold evalGuarded
    rw [evalGuardedAll_eq elts h]
    exact bind_outcome_ok rfl
  | .name id => exact identifier_eq id
  | .attribute value attr => exact resolveAttribute_eq value attr
  | .boolOp op values =>
    unfold evalGuarded checks
    rw [evalOperands_eq op values h]
    exact bind_outcome_ok rfl
  | .unaryOp op operand =>
    obtain ⟨hnot, hoperand⟩ := Bool.and_eq_true_iff.mp h
    unfold evalGuarded
    rw [if_pos (eq_of_beq hnot), evalGuarded_eq operand hoperand]
    exact bind_outcome_ok rfl
  | .compare left rest =>
    obtain ⟨hleft, hrest⟩ := Bool.and_eq_true_iff.mp h
    unfold evalGuarded checks
    rw [evalGuarded_eq left hleft]
    apply bind_outcome
    rw [evalGuardedChain_eq (meaning py ctx left) rest hrest]
    exact bind_outcome_ok rfl
  | .other _ _ => cases h

theorem evalGuardedAll_eq (es : List (Expr V)) (h : allowedAll es) :
    evalGuardedAll py ctx es =
      outcome (Check.fault py) (checksAll py ctx true es) (meanings py ctx es) := by
  match es with
  | [] => rfl
  | e :: es =>
    obtain ⟨he, hes⟩ := Bool.and_eq_true_iff.mp h
    unfold evalGuardedAll checksAll
    rw [evalGuarded_eq e he]
    apply bind_outcome
    rw [evalGuardedAll_eq es hes]
    exact bind_outcome_ok rfl

theorem evalOperands_eq (op : BoolOp) (es : List (Expr V)) (h : allowedAll es) :
    evalOperands py ctx op es = outcome (Check.fault py) (checksOperands py ctx true op es)
      (op.apply ((meanings py ctx es).map py.truth)) := by
  match es with
  | [] => rfl
  | e :: es =>
    obtain ⟨he, hes⟩ := Bool.and_eq_true_iff.mp h
    unfold evalOperands checksOperands
    rw [evalGuarded_eq e he]
    apply bind_outcome
    exact operand_step (evalOperands_eq op es hes)

theorem evalGuardedChain_eq (left : V) (rest : List (CmpOp × Expr V))
    (h : allowedRest rest) : evalGuardedChain py ctx left rest =
      outcome (Check.fault py) (checksChain py ctx true left rest)
        (chainHolds py ctx left rest) := by
  match rest with
  | [] => rfl
  | (cmp, e) :: rest =>
    obtain ⟨hcmp, hrest⟩ := Bool.and_eq_true_iff.mp h
    obtain ⟨he, hrest⟩ := Bool.and_eq_true_iff.mp hrest
    unfold evalGuardedChain checksChain chainHolds
    rw [evalGuarded_eq e he]
    apply bind_outcome
    exact chain_step hcmp (evalGuardedChain_eq (meaning py ctx e) rest hrest)
end

variable {c : Check V}

theorem mem_checksAll_iff {guarded : Bool} {es : List (Expr V)} :
    c ∈ checksAll py ctx guarded es ↔ ∃ e ∈ es, c ∈ checks py ctx guarded e := by
  induction es with
  | nil => simp [checksAll]
  | cons e es ih => simp [checksAll, ih]

mutual
theorem mem_checks_iff (e : Expr V) : c ∈ checks py ctx false e ↔
    c ∈ checks py ctx true e ∨ ∃ s ∈ skipped py ctx e, c ∈ checks py ctx false s := by
  match e with
  | .constant value => simp [checks, skipped]
  | .list elts => exact mem_checksAll_false_iff elts
  | .tuple elts => exact mem_checksAll_false_iff elts
  | .name id => simp [checks, skipped]
  | .attribute value attr => simp [checks, skipped]
  | .boolOp op values => exact mem_checksOperands_iff op values
  | .unaryOp _ operand => exact mem_checks_iff operand
  | .compare left rest =>
    have hleft := mem_checks_iff left
    have hrest := mem_checksChain_iff (meaning py ctx left) rest
    simp only [checks, skipped, mem_append, hleft, hrest, or_and_right, exists_or]
    exact or_or_or_comm
  | .other _ _ => simp [checks, skipped]

theorem mem_checksAll_false_iff (es : List (Expr V)) : c ∈ checksAll py ctx false es ↔
    c ∈ checksAll py ctx true es ∨ ∃ s ∈ skippedAll py ctx es, c ∈ checks py ctx false s := by
  match es with
  | [] => simp [checksAll, skippedAll]
  | e :: es =>
    have he := mem_checks_iff e
    have hes := mem_checksAll_false_iff es
    simp only [checksAll, skippedAll, mem_append, he, hes, or_and_right, exists_or]
    exact or_or_or_comm

theorem mem_checksOperands_iff (op : BoolOp) (es : List (Expr V)) :
    c ∈ checksOperands py ctx false op es ↔ c ∈ checksOperands py ctx true op es ∨
      ∃ s ∈ skippedOperands py ctx op es, c ∈ checks py ctx false s := by
  match es with
  | [] => simp [checksOperands, skippedOperands]
  | e :: es =>
    have he := mem_checks_iff e
    have hes := mem_checksOperands_iff op es
    cases hdecides : op.decides (py.truth (meaning py ctx e)) with
    | true =>
      simp only [checksOperands, skippedOperands, hdecides, Bool.false_and, Bool.true_and,
        Bool.false_eq_true, if_false, if_true, append_nil, mem_append, he, or_and_right,
        exists_or, checksOperands_false, mem_checksAll_iff]
      exact or_assoc
    | false =>
      simp only [checksOperands, skippedOperands, hdecides, Bool.false_and, Bool.true_and,
        Bool.false_eq_true, if_false, mem_append, he, hes, or_and_right, exists_or]
      exact or_or_or_comm

theorem mem_checksChain_iff (left : V) (rest : List (CmpOp × Expr V)) :
    c ∈ checksChain py ctx false left rest ↔ c ∈ checksChain py ctx true left rest ∨
      ∃ s ∈ skippedChain py ctx left rest, c ∈ checks py ctx false s := by
  match rest with
  | [] => simp [checksChain, skippedChain]
  | (cmp, e) :: rest =>
    have he := mem_checks_iff e
    have hrest := mem_checksChain_iff (meaning py ctx e) rest
    cases hholds : (py.compare cmp left (meaning py ctx e)).getD false with
    | true =>
      simp only [checksChain, skippedChain, hholds, if_true, mem_append, mem_cons, he,
        hrest, or_and_right, exists_or]
      rw [← or_assoc (b := c ∈ checksChain py ctx true (meaning py ctx e) rest)]
      exact or_or_or_comm
    | false =>
      simp only [checksChain, skippedChain, hholds, Bool.false_eq_true, if_false, append_nil,
        mem_append, mem_cons, not_mem_nil, he]
      exact or_right_comm
end

/-- A condition that does not fail for what it is made of, nor behind a guard. -/
structure Dependable (py : Values V) (parse : String → Option (Expr V)) (ctx : Context V)
    (expression : String) : Prop where
  supported : ∀ err, evalExpression py parse ctx expression = .error err → err = .incompatibleValues
  guarded : ∀ tree, parse expression = some tree → (∃ v, evalGuarded py ctx tree = .ok v) →
    ∃ v, evalExpression py parse ctx expression = .ok v

/-- Of the names, references and comparisons of the evaluation, the first that has a fault, if
any, is a comparison; and if those that guards let through have none, the skipped have none. -/
structure InOrder (py : Values V) (ctx : Context V) (tree : Expr V) : Prop where
  first : ∀ c, (checks py ctx false tree).find? (fun c => (c.fault py).isSome) = some c →
    c.isComparison = true
  behind : (∀ c ∈ checks py ctx true tree, c.fault py = none) →
    ∀ s ∈ skipped py ctx tree, ∀ c ∈ checks py ctx false s, c.fault py = none

theorem fault_incompatible_iff {err : GateError} (h : c.fault py = some err) :
    err = .incompatibleValues ↔ c.isComparison := by
  cases c with
  | identifier | reference | comparison =>
    unfold Check.fault at h
    dsimp only at h
    split_ifs at h
    cases h
    simp [Check.isComparison]

theorem incompatible_iff_first (cs : List (Check V)) :
    (∀ err, cs.findSome? (Check.fault py) = some err → err = .incompatibleValues) ↔
      ∀ c, cs.find? (fun c => (c.fault py).isSome) = some c → c.isComparison := by
  rw [findSome?_eq_bind]
  constructor
  · intro h c hfirst
    have hsome : (c.fault py).isSome :=
      find?_some (p := fun c => (Check.fault py c).isSome) hfirst
    obtain ⟨err, hfault⟩ := isSome_iff_exists.mp hsome
    have hincompatible := h err (by rw [hfirst, bind_some, hfault])
    exact (fault_incompatible_iff hfault).mp hincompatible
  · intro h err herr
    obtain ⟨c, hfirst, hfault⟩ := bind_eq_some_iff.mp herr
    exact (fault_incompatible_iff hfault).mpr (h c hfirst)

theorem all_checks_iff (tree : Expr V) : ((∀ c ∈ checks py ctx true tree, c.fault py = none) →
        ∀ c ∈ checks py ctx false tree, c.fault py = none) ↔
      ((∀ c ∈ checks py ctx true tree, c.fault py = none) →
        ∀ s ∈ skipped py ctx tree, ∀ c ∈ checks py ctx false s, c.fault py = none) := by
  constructor
  · intro h hguarded s hs c hc
    exact h hguarded c ((mem_checks_iff tree).mpr (.inr ⟨s, hs, hc⟩))
  · intro h hguarded c hc
    obtain hthrough | ⟨s, hs, hbehind⟩ := (mem_checks_iff tree).mp hc
    · exact hguarded c hthrough
    · exact h hguarded s hs c hbehind

theorem dependable_iff {parse : String → Option (Expr V)} {expression : String} {tree : Expr V}
    (htree : parse expression = some tree) (hallowed : tree.allowed) :
    Dependable py parse ctx expression ↔ InOrder py ctx tree := by
  have heval : evalExpression py parse ctx expression =
      outcome (Check.fault py) (checks py ctx false tree) (meaning py ctx tree) := by
    unfold evalExpression
    rw [htree]
    dsimp only
    rw [if_pos hallowed, evalNode_eq tree hallowed]
  constructor
  · intro h
    constructor
    · rw [← incompatible_iff_first]
      intro err herr
      apply h.supported err
      rw [heval, outcome_error_iff]
      exact herr
    · rw [← all_checks_iff]
      intro hguarded
      have hok := h.guarded tree htree (by
        rw [evalGuarded_eq tree hallowed, outcome_ok_iff]
        exact hguarded)
      rw [heval, outcome_ok_iff] at hok
      exact hok
  · intro h
    constructor
    · intro err herr
      rw [heval, outcome_error_iff] at herr
      exact (incompatible_iff_first _).mpr h.first err herr
    · intro tree' htree' hguarded
      obtain rfl : tree = tree' := some.inj (htree.symm.trans htree')
      rw [evalGuarded_eq tree hallowed, outcome_ok_iff] at hguarded
      rw [heval, outcome_ok_iff]
      exact (all_checks_iff tree).mpr h.behind hguarded

/-- Exactly the conditions of a valid workflow that are in order can be depended on, whatever the
steps have put out. -/
theorem valid_condition_dependable_iff (py : Values V) (parse : String → Option (Expr V))
    {steps : List Step} {step : Step} {expression : String}
    (hvalid : validateGateConditions parse steps) (hstep : step ∈ steps)
    (hcondition : expression ∈ step.conditions) (stepOutputs thresholds : List (String × V)) :
    Dependable py parse (buildContext py stepOutputs thresholds) expression ↔
      ∃ tree, parse expression = some tree ∧
        InOrder py (buildContext py stepOutputs thresholds) tree := by
  obtain ⟨tree, htree, hallowed⟩ := stepsValid_tree hvalid hstep hcondition
  rw [dependable_iff htree hallowed]
  constructor
  · intro h
    exact ⟨tree, htree, h⟩
  · rintro ⟨tree', htree', h⟩
    obtain rfl : tree = tree' := some.inj (htree.symm.trans htree')
    exact h

inductive PlainValue where
  | none
  | bool (b : Bool)
  | text (s : String)
  | list (items : List PlainValue)
  | dict (entries : List (String × PlainValue))

def plainCompare : CmpOp → PlainValue → PlainValue → Option Bool
  | .eq, .text a, .text b => some (a == b)
  | .eq, .none, .text _ => some false
  | .notEq, .text a, .text b => some (a != b)
  | .notEq, .none, .text _ => some true
  | .lt, .text a, .text b => some (a < b)
  | .gt, .text a, .text b => some (b < a)
  | _, _, _ => none

def plainValues : Values PlainValue where
  noneValue := .none
  ofBool := .bool
  ofList := .list
  emptyDict := .dict []
  asDict
    | .dict entries => some fun key => entries.lookup key
    | _ => none
  truth
    | .none => false
    | .bool b => b
    | .text s => s != ""
    | .list items => !items.isEmpty
    | .dict entries => !entries.isEmpty
  compare := plainCompare

/-- `metadata.plan.risk == "high"`, and `ready`. -/
def plainParse : String → Option (Expr PlainValue)
  | "metadata.plan.risk == \"high\"" =>
    some (.compare (.attribute (.attribute (.name "metadata") "plan") "risk")
      [(.eq, .constant (.text "high"))])
  | "ready" => some (.name "ready")
  | _ => none

def planSteps (condition : String) : List Step :=
  [{ name := "plan", contractFields := ["risk"] }, { name := "gate", conditions := [condition] }]

def riskOutputs : List (String × PlainValue) :=
  [("plan", .dict [("metadata", .dict [("risk", .text "high")])])]

theorem risk_condition_dependable_iff :
    Dependable plainValues plainParse (buildContext plainValues riskOutputs [])
        "metadata.plan.risk == \"high\"" ↔
      ∃ tree, plainParse "metadata.plan.risk == \"high\"" = some tree ∧
        InOrder plainValues (buildContext plainValues riskOutputs []) tree :=
  valid_condition_dependable_iff plainValues plainParse
    (by decide : validateGateConditions plainParse
      (planSteps "metadata.plan.risk == \"high\""))
    (mem_cons_of_mem _ mem_cons_self) mem_cons_self riskOutputs []

/-- A name that validation accepts. -/
theorem bare_name_fails : ¬ ∀ steps step expression stepOutputs thresholds,
    validateGateConditions plainParse steps → step ∈ steps → expression ∈ step.conditions →
        Dependable plainValues plainParse (buildContext plainValues stepOutputs thresholds)
          expression := by
  intro hall
  have hready := hall (planSteps "ready") { name := "gate", conditions := ["ready"] } "ready"
    [] [] (by decide) (by simp [planSteps]) (by simp)
  have herr := hready.supported (.unsupportedIdentifier "ready") (by rfl)
  cases herr

end Cognis.GateConditions
