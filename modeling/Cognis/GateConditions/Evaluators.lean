import Cognis.GateConditions.Evaluation
import Cognis.Library.OrderedMap

namespace Cognis.GateConditions

open Checks List

variable {V : Type}

def Expr.children : Expr V → List (Expr V)
  | .constant _ => []
  | .list elts => elts
  | .tuple elts => elts
  | .name _ => []
  | .attribute value _ => [value]
  | .boolOp _ values => values
  | .unaryOp _ operand => [operand]
  | .compare left rest => left :: rest.map Prod.snd
  | .other _ children => children

mutual
def Expr.size : Expr V → Nat
  | .constant _ => 1
  | .list elts => sizeAll elts + 1
  | .tuple elts => sizeAll elts + 1
  | .name _ => 1
  | .attribute value _ => value.size + 1
  | .boolOp _ values => sizeAll values + 1
  | .unaryOp _ operand => operand.size + 1
  | .compare left rest => left.size + sizeRest rest + 1
  | .other _ children => sizeAll children + 1

def sizeAll : List (Expr V) → Nat
  | [] => 0
  | e :: es => e.size + sizeAll es

def sizeRest : List (CmpOp × Expr V) → Nat
  | [] => 0
  | (_, e) :: rest => e.size + sizeRest rest
end

theorem sizeAll_append (es fs : List (Expr V)) : sizeAll (es ++ fs) = sizeAll es + sizeAll fs := by
  induction es with
  | nil => simp [sizeAll]
  | cons e es ih => simp [sizeAll, ih, Nat.add_assoc]

theorem sizeAll_rest (rest : List (CmpOp × Expr V)) :
    sizeAll (rest.map Prod.snd) = sizeRest rest := by
  induction rest with
  | nil => simp [sizeAll, sizeRest]
  | cons entry rest ih => simp [sizeAll, sizeRest, ih]

theorem sizeAll_children (e : Expr V) : sizeAll e.children < e.size := by
  cases e <;> simp [Expr.children, Expr.size, sizeAll, sizeAll_rest]

/-- `ast.walk`, from the expressions in its queue: what contains an expression comes first. -/
def walk : List (Expr V) → List (Expr V)
  | [] => []
  | e :: queue => e :: walk (queue ++ e.children)
termination_by queue => sizeAll queue
decreasing_by
  have hchildren := sizeAll_children e
  rw [sizeAll_append, sizeAll]
  omega

def CmpOp.label : CmpOp → String
  | .eq => "=="
  | .notEq => "!="
  | .lt => "<"
  | .ltE => "<="
  | .gt => ">"
  | .gtE => ">="
  | .isIn => "in"
  | .notIn => "not in"
  | .is => "Is"
  | .isNot => "IsNot"

def Expr.firstOperator : Expr V → Option String
  | .compare _ ((op, _) :: _) => some op.label
  | _ => none

def firstCompareOperator (tree : Expr V) : Option String :=
  (walk [tree]).findSome? Expr.firstOperator

/-- The classes of values that `_safe_gate_value` tells apart. -/
inductive View (V : Type) where
  | scalar
  | text (s : String)
  | items (values : List V)
  | other (type : String)

/-- How values are shown: they are nested to a finite depth. -/
structure Display (V : Type) where
  view : V → View V
  depth : V → Nat
  depth_lt : ∀ {value items}, view value = .items items → ∀ item ∈ items, depth item < depth value
  ofText : String → V
  ofList : List V → V

def Display.safeGateValue (d : Display V) (value : V) : V :=
  match _hview : d.view value with
  | .scalar => value
  | .text s =>
    if s.length ≤ 200 then value else d.ofText (String.ofList (s.toList.take 200) ++ "...")
  | .items items =>
    d.ofList ((items.take 10).attach.map fun item => d.safeGateValue item.1)
  | .other type => d.ofText ("<" ++ type ++ ">")
termination_by d.depth value
decreasing_by exact d.depth_lt _hview item.1 (mem_of_mem_take item.2)

/-- What is shown for a chain of attributes; `thresholds` alone is a dict. -/
def resolvedValue (py : Values V) (d : Display V) (ctx : Context V) : List String → V
  | space :: part :: parts =>
    d.safeGateValue (resolveIn py ((ctx.namespace space).getD []) (part :: parts))
  | _ => d.ofText "<dict>"

structure ReferenceValues (V : Type) where
  referencedValues : OrderedMap String V := .empty
  expectedValues : OrderedMap String V := .empty

def ReferenceValues.add (py : Values V) (d : Display V) (ctx : Context V) (refs : ReferenceValues V)
    (node : Expr V) : ReferenceValues V :=
  match node with
  | .attribute value attr =>
    let parts := attributeParts (.attribute value attr)
    let key := ".".intercalate parts
    let shown := resolvedValue py d ctx parts
    if parts.head? = some "thresholds" then
      { refs with expectedValues := refs.expectedValues.set key shown }
    else if (parts.head? = some "metadata" ∨ parts.head? = some "outputs") ∧ 3 ≤ parts.length then
      { refs with referencedValues := refs.referencedValues.set key shown }
    else refs
  | _ => refs

def expressionReferenceValues (py : Values V) (d : Display V) (ctx : Context V) (tree : Expr V) :
    ReferenceValues V :=
  (walk [tree]).foldl (ReferenceValues.add py d ctx) {}

/-- `bool(_eval_expression(expression, context))` -/
def conditionResult (py : Values V) (parse : String → Option (Expr V)) (ctx : Context V)
    (expression : String) : Except GateError Bool :=
  (evalExpression py parse ctx expression).map py.truth

def evaluateGateConditions (py : Values V) (parse : String → Option (Expr V))
    (expressions : List String) (stepOutputs : List (String × V))
    (thresholds : Option (List (String × V))) : Except GateError Bool :=
  if expressions = [] then .ok true
  else
    let ctx := buildContext py stepOutputs (thresholds.getD [])
    anyTrue (expressions.map (conditionResult py parse ctx))

structure Detail (V : Type) where
  expression : String
  operator : Option String := none
  referencedValues : OrderedMap String V := .empty
  expectedValues : OrderedMap String V := .empty
  actualResult : Option Bool := none
  passed : Bool := false
  error : Option GateError := none

def conditionDetail (py : Values V) (d : Display V) (parse : String → Option (Expr V))
    (ctx : Context V) (expression : String) : Detail V :=
  match parse expression with
  | none => { expression := expression, error := some (.invalidSyntax expression) }
  | some tree =>
    if tree.allowed then
      let refs := expressionReferenceValues py d ctx tree
      let detail : Detail V :=
        { expression := expression
          operator := firstCompareOperator tree
          referencedValues := refs.referencedValues
          expectedValues := refs.expectedValues }
      match evalNode py ctx tree with
      | .error err => { detail with error := some err }
      | .ok value =>
        { detail with actualResult := some (py.truth value), passed := py.truth value }
    else { expression := expression, error := some .unsupportedSyntax }

structure Evaluation (V : Type) where
  conditionMode : String := "any"
  conditions : List (Detail V) := []
  passed : Bool
  errors : List GateError := []

def Evaluation.add (evaluation : Evaluation V) (detail : Detail V) : Evaluation V :=
  { evaluation with
    conditions := evaluation.conditions ++ [detail]
    passed := evaluation.passed || detail.passed
    errors := evaluation.errors ++ detail.error.toList }

def evaluateGateConditionsDetailed (py : Values V) (d : Display V)
    (parse : String → Option (Expr V)) (expressions : List String)
    (stepOutputs : List (String × V)) (thresholds : Option (List (String × V))) : Evaluation V :=
  let ctx := buildContext py stepOutputs (thresholds.getD [])
  expressions.foldl (fun evaluation expression =>
    evaluation.add (conditionDetail py d parse ctx expression)) { passed := expressions.isEmpty }

section

variable (py : Values V) (d : Display V) (parse : String → Option (Expr V)) (ctx : Context V)

theorem conditionDetail_spec (expression : String) :
    (conditionDetail py d parse ctx expression).expression = expression ∧
      match conditionResult py parse ctx expression with
      | .ok result =>
        (conditionDetail py d parse ctx expression).actualResult = some result ∧
          (conditionDetail py d parse ctx expression).passed = result ∧
          (conditionDetail py d parse ctx expression).error = none
      | .error err =>
        (conditionDetail py d parse ctx expression).actualResult = none ∧
          (conditionDetail py d parse ctx expression).passed = false ∧
          (conditionDetail py d parse ctx expression).error = some err := by
  unfold conditionDetail conditionResult evalExpression
  cases parse expression with
  | none => simp [Except.map]
  | some tree =>
    cases hallowed : tree.allowed with
    | false => simp [Except.map, hallowed]
    | true =>
      cases heval : evalNode py ctx tree with
      | error | ok => simp [Except.map, hallowed, heval]

theorem conditionDetail_passed_iff (expression : String) :
    (conditionDetail py d parse ctx expression).passed ↔
      conditionResult py parse ctx expression = .ok true := by
  obtain ⟨-, hspec⟩ := conditionDetail_spec py d parse ctx expression
  cases hresult : conditionResult py parse ctx expression with
  | error | ok =>
    rw [hresult] at hspec
    simp [hspec.2.1]

theorem foldl_passed_iff (expressions : List String) (evaluation : Evaluation V) :
    (expressions.foldl (fun evaluation expression =>
        evaluation.add (conditionDetail py d parse ctx expression)) evaluation).passed ↔
      evaluation.passed ∨ .ok true ∈ expressions.map (conditionResult py parse ctx) := by
  induction expressions generalizing evaluation with
  | nil => simp
  | cons expression expressions ih =>
    have hpassed := conditionDetail_passed_iff py d parse ctx expression
    rw [foldl_cons, ih, map_cons, mem_cons]
    simp only [Evaluation.add, Bool.or_eq_true, hpassed, or_assoc, eq_comm (b := Except.ok true)]

end

theorem detailed_passed_iff (py : Values V) (d : Display V) (parse : String → Option (Expr V))
    (expressions : List String) (stepOutputs : List (String × V))
    (thresholds : Option (List (String × V))) :
    (evaluateGateConditionsDetailed py d parse expressions stepOutputs thresholds).passed ↔
      expressions = [] ∨ .ok true ∈ expressions.map
        (conditionResult py parse (buildContext py stepOutputs (thresholds.getD []))) := by
  unfold evaluateGateConditionsDetailed
  rw [foldl_passed_iff, List.isEmpty_iff]

/-- The two evaluators agree exactly if every condition that fails before a true one fails after
one too. -/
theorem evaluators_agree_iff (py : Values V) (d : Display V) (parse : String → Option (Expr V))
    (expressions : List String) (stepOutputs : List (String × V))
    (thresholds : Option (List (String × V))) :
    (evaluateGateConditions py parse expressions stepOutputs thresholds = .ok true ↔
      (evaluateGateConditionsDetailed py d parse expressions stepOutputs thresholds).passed =
        true) ↔
      Shielded (expressions.map
        (conditionResult py parse (buildContext py stepOutputs (thresholds.getD [])))) := by
  rw [detailed_passed_iff, ← anyTrue_iff_mem_iff]
  unfold evaluateGateConditions
  by_cases hempty : expressions = []
  · simp [hempty, anyTrue]
  · simp [hempty]

def plainView : PlainValue → View PlainValue
  | .none => .scalar
  | .bool _ => .scalar
  | .text s => .text s
  | .list items => .items items
  | .dict _ => .other "dict"

mutual
def plainDepth : PlainValue → Nat
  | .list items => deepest items + 1
  | _ => 0

def deepest : List PlainValue → Nat
  | [] => 0
  | item :: items => max (plainDepth item) (deepest items)
end

theorem plainDepth_le_deepest {items : List PlainValue} {item : PlainValue} (h : item ∈ items) :
    plainDepth item ≤ deepest items := by
  induction items with
  | nil => cases h
  | cons first items ih =>
    obtain rfl | hrest := mem_cons.mp h
    · exact Nat.le_max_left _ _
    · exact Nat.le_trans (ih hrest) (Nat.le_max_right _ _)

def plainDisplay : Display PlainValue where
  view := plainView
  depth := plainDepth
  depth_lt := by
    intro value items hview item hitem
    cases value with
    | list =>
      obtain rfl := View.items.inj hview
      have hle := plainDepth_le_deepest hitem
      rw [plainDepth]
      exact Nat.lt_succ_of_le hle
    | none | bool | text | dict => cases hview
  ofText := .text
  ofList := .list

/-- Conditions that are single names. -/
def nameParse (expression : String) : Option (Expr PlainValue) := some (.name expression)

/-- The detailed evaluation of `ready` and `true` passes, the other fails at `ready`. -/
theorem early_failure_hides_true :
    evaluateGateConditions plainValues nameParse ["ready", "true"] [] none =
        .error (.unsupportedIdentifier "ready") ∧
      ¬ (evaluateGateConditions plainValues nameParse ["ready", "true"] [] none = .ok true ↔
        (evaluateGateConditionsDetailed plainValues plainDisplay nameParse ["ready", "true"] []
          none).passed) := by
  have hplain : evaluateGateConditions plainValues nameParse ["ready", "true"] [] none =
      .error (.unsupportedIdentifier "ready") := by rfl
  have hdetailed : (evaluateGateConditionsDetailed plainValues plainDisplay nameParse
      ["ready", "true"] [] none).passed := by
    rw [detailed_passed_iff]
    exact .inr (mem_cons_of_mem _ mem_cons_self)
  refine ⟨hplain, ?_⟩
  intro hagree
  cases hagree.mpr hdetailed

end Cognis.GateConditions
