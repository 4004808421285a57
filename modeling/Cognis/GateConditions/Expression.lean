import Mathlib.Data.List.Basic

namespace Cognis.GateConditions

inductive BoolOp where
  | and
  | or
  deriving DecidableEq

inductive UnaryOp where
  | not
  | invert
  | uAdd
  | uSub
  deriving DecidableEq

inductive CmpOp where
  | eq
  | notEq
  | lt
  | ltE
  | gt
  | gtE
  | isIn
  | notIn
  | is
  | isNot
  deriving DecidableEq

/-- `other` is a node of any other type, with the expressions in it. -/
inductive Expr (V : Type) where
  | constant (value : V)
  | list (elts : List (Expr V))
  | tuple (elts : List (Expr V))
  | name (id : String)
  | attribute (value : Expr V) (attr : String)
  | boolOp (op : BoolOp) (values : List (Expr V))
  | unaryOp (op : UnaryOp) (operand : Expr V)
  | compare (left : Expr V) (rest : List (CmpOp × Expr V))
  | other (type : String) (children : List (Expr V))

variable {V : Type}

def CmpOp.allowed : CmpOp → Bool
  | .is | .isNot => false
  | _ => true

mutual
/-- Every node is one of `_ALLOWED_AST_NODES`. -/
def Expr.allowed : Expr V → Bool
  | .constant _ => true
  | .list elts => allowedAll elts
  | .tuple elts => allowedAll elts
  | .name _ => true
  | .attribute value _ => value.allowed
  | .boolOp _ values => allowedAll values
  | .unaryOp op operand => op == .not && operand.allowed
  | .compare left rest => left.allowed && allowedRest rest
  | .other _ _ => false

def allowedAll : List (Expr V) → Bool
  | [] => true
  | e :: es => e.allowed && allowedAll es

def allowedRest : List (CmpOp × Expr V) → Bool
  | [] => true
  | (op, e) :: rest => op.allowed && (e.allowed && allowedRest rest)
end

def Expr.chain : Expr V → Option String × List String
  | .name id => (some id, [])
  | .attribute value attr => (value.chain.1, value.chain.2 ++ [attr])
  | _ => (none, [])

def attributeParts (e : Expr V) : List String := e.chain.1.toList ++ e.chain.2

def reference (e : Expr V) : List (String × String × String) :=
  match attributeParts e with
  | space :: step :: field :: _ =>
    if space = "metadata" ∨ space = "outputs" then [(space, step, field)] else []
  | _ => []

mutual
/-- `_references`, but for their order -/
def references : Expr V → List (String × String × String)
  | .attribute value attr => reference (.attribute value attr) ++ references value
  | .list elts => referencesAll elts
  | .tuple elts => referencesAll elts
  | .boolOp _ values => referencesAll values
  | .unaryOp _ operand => references operand
  | .compare left rest => references left ++ referencesRest rest
  | .other _ children => referencesAll children
  | .constant _ => []
  | .name _ => []

def referencesAll : List (Expr V) → List (String × String × String)
  | [] => []
  | e :: es => references e ++ referencesAll es

def referencesRest : List (CmpOp × Expr V) → List (String × String × String)
  | [] => []
  | (_, e) :: rest => references e ++ referencesRest rest
end

/-- What validation reads of a step; `contractFields` are those of its metadata contract. -/
structure Step where
  name : String
  conditions : List String := []
  contractFields : List String := []

def isDeclared (seen : List Step) (ref : String × String × String) : Bool :=
  match seen.find? (·.name == ref.2.1) with
  | none => false
  | some step => ref.1 != "metadata" || step.contractFields.contains ref.2.2

/-- A condition that `parse` reads and whose references are declared. -/
def conditionValid (parse : String → Option (Expr V)) (seen : List Step) (expression : String) :
    Bool :=
  match parse expression with
  | none => false
  | some tree => tree.allowed && (references tree).all (isDeclared seen)

/-- Whether `validate_gate_conditions` returns, from the steps seen so far. -/
def stepsValid (parse : String → Option (Expr V)) (seen : List Step) : List Step → Bool
  | [] => true
  | step :: steps =>
    step.conditions.all (conditionValid parse seen) && stepsValid parse (step :: seen) steps

def validateGateConditions (parse : String → Option (Expr V)) (steps : List Step) : Bool :=
  stepsValid parse [] steps

theorem stepsValid_tree {parse : String → Option (Expr V)} {seen steps : List Step} {step : Step}
    {expression : String} (h : stepsValid parse seen steps = true) (hstep : step ∈ steps)
    (hcondition : expression ∈ step.conditions) :
    ∃ tree, parse expression = some tree ∧ tree.allowed = true := by
  induction steps generalizing seen with
  | nil => cases hstep
  | cons first steps ih =>
    obtain ⟨hfirst, hrest⟩ := Bool.and_eq_true_iff.mp h
    obtain rfl | hlater := List.mem_cons.mp hstep
    · have hvalid := List.all_eq_true.mp hfirst expression hcondition
      unfold conditionValid at hvalid
      cases htree : parse expression with
      | none =>
        rw [htree] at hvalid
        cases hvalid
      | some tree =>
        rw [htree] at hvalid
        exact ⟨tree, rfl, (Bool.and_eq_true_iff.mp hvalid).1⟩
    · exact ih hrest hlater

/-- Python's values, as far as conditions use them; `compare` has no result where Python raises
a `TypeError`. -/
structure Values (V : Type) where
  noneValue : V
  ofBool : Bool → V
  ofList : List V → V
  emptyDict : V
  /-- The string keys of a dict. -/
  asDict : V → Option (String → Option V)
  truth : V → Bool
  compare : CmpOp → V → V → Option Bool

inductive GateError where
  | invalidSyntax (expression : String)
  | unsupportedSyntax
  | unsupportedIdentifier (id : String)
  | unsupportedReference (root : Option String) (attrs : List String)
  | unsupportedComparison (op : CmpOp)
  | incompatibleValues
  deriving DecidableEq

structure Context (V : Type) where
  metadata : List (String × V)
  outputs : List (String × V)
  thresholds : List (String × V)

/-- `raw.get(key, {})` of a dict, and an empty dict for other values. -/
def Values.part (py : Values V) (raw : V) (key : String) : V :=
  match py.asDict raw with
  | some get => (get key).getD py.emptyDict
  | none => py.emptyDict

def buildContext (py : Values V) (stepOutputs thresholds : List (String × V)) : Context V where
  metadata := stepOutputs.map fun entry => (entry.1, py.part entry.2 "metadata")
  outputs := stepOutputs.map fun entry => (entry.1, py.part entry.2 "outputs")
  thresholds := thresholds

def Context.namespace (ctx : Context V) (name : String) : Option (List (String × V)) :=
  if name = "metadata" then some ctx.metadata
  else if name = "outputs" then some ctx.outputs
  else if name = "thresholds" then some ctx.thresholds
  else none

def resolveParts (py : Values V) : V → List String → V
  | value, [] => value
  | value, part :: parts =>
    match py.asDict value with
    | none => py.noneValue
    | some get => resolveParts py ((get part).getD py.noneValue) parts

def resolveIn (py : Values V) (entries : List (String × V)) : List String → V
  | [] => py.noneValue
  | key :: parts => resolveParts py ((entries.lookup key).getD py.noneValue) parts

def resolveAttribute (py : Values V) (ctx : Context V) (e : Expr V) : Except GateError V :=
  match e.chain.1.bind ctx.namespace with
  | none => .error (.unsupportedReference e.chain.1 e.chain.2)
  | some entries => .ok (resolveIn py entries e.chain.2)

def compareValues (py : Values V) (left : V) (op : CmpOp) (right : V) : Except GateError Bool :=
  if op.allowed then
    match py.compare op left right with
    | some holds => .ok holds
    | none => .error .incompatibleValues
  else .error (.unsupportedComparison op)

def BoolOp.apply (op : BoolOp) (values : List Bool) : Bool :=
  match op with
  | .and => values.all id
  | .or => values.any id

mutual
def evalNode (py : Values V) (ctx : Context V) : Expr V → Except GateError V
  | .constant value => .ok value
  | .list elts => (evalNodes py ctx elts).bind fun values => .ok (py.ofList values)
  | .tuple elts => (evalNodes py ctx elts).bind fun values => .ok (py.ofList values)
  | .name id =>
    if id = "true" ∨ id = "false" then .ok (py.ofBool (id == "true"))
    else .error (.unsupportedIdentifier id)
  | .attribute value attr => resolveAttribute py ctx (.attribute value attr)
  | .boolOp op values =>
    (evalNodes py ctx values).bind fun values => .ok (py.ofBool (op.apply (values.map py.truth)))
  | .unaryOp op operand =>
    if op = .not then
      (evalNode py ctx operand).bind fun value => .ok (py.ofBool (!py.truth value))
    else .error .unsupportedSyntax
  | .compare left rest =>
    (evalNode py ctx left).bind fun value =>
      (evalChain py ctx value rest).bind fun holds => .ok (py.ofBool holds)
  | .other _ _ => .error .unsupportedSyntax

def evalNodes (py : Values V) (ctx : Context V) : List (Expr V) → Except GateError (List V)
  | [] => .ok []
  | e :: es =>
    (evalNode py ctx e).bind fun value =>
      (evalNodes py ctx es).bind fun values => .ok (value :: values)

def evalChain (py : Values V) (ctx : Context V) (left : V) :
    List (CmpOp × Expr V) → Except GateError Bool
  | [] => .ok true
  | (op, e) :: rest =>
    (evalNode py ctx e).bind fun right =>
      (compareValues py left op right).bind fun holds =>
        if holds then evalChain py ctx right rest else .ok false
end

def evalExpression (py : Values V) (parse : String → Option (Expr V)) (ctx : Context V)
    (expression : String) : Except GateError V :=
  match parse expression with
  | none => .error (.invalidSyntax expression)
  | some tree =>
    if tree.allowed then evalNode py ctx tree else .error .unsupportedSyntax

end Cognis.GateConditions
