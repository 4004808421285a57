import Mathlib.Data.List.Basic

/-! The values of Lua that a JSON decoder makes, and the operations on them that a script uses.
A decoded null is a value of its own, which is true and differs from every other value. -/

namespace Lua

inductive Value where
  | nil
  | null
  | bool (b : Bool)
  | number (n : Nat)
  | string (s : String)
  | table (fields : List (String × Value))

inductive Error
  | indexNonTable
  | compareNonNumber
  deriving DecidableEq

abbrev Eval := Except Error

namespace Eval

variable {α β : Type}

@[simp] theorem ok_bind (a : α) (f : α → Eval β) : ((Except.ok a : Eval α) >>= f) = f a := rfl

@[simp] theorem pure_eq (a : α) : (pure a : Eval α) = .ok a := rfl

end Eval

namespace Value

def truthy : Value → Bool
  | nil => false
  | bool b => b
  | _ => true

def isTable : Value → Bool
  | table _ => true
  | _ => false

/-- `v[key]`; a missing field is nil. -/
def index (key : String) : Value → Eval Value
  | table fields => pure ((fields.lookup key).getD nil)
  | _ => throw .indexNonTable

/-- `a < b` on numbers. -/
def lt : Value → Value → Eval Bool
  | number a, number b => pure (a < b)
  | _, _ => throw .compareNonNumber

/-- `a == b`; tables of two decoded texts are never the same object. -/
def eq : Value → Value → Bool
  | nil, nil => true
  | null, null => true
  | bool a, bool b => a == b
  | number a, number b => a == b
  | string a, string b => a == b
  | _, _ => false

def ofOption : Option String → Value
  | none => null
  | some s => string s

@[simp] theorem index_table (key : String) (fields : List (String × Value)) :
    (table fields).index key = .ok ((fields.lookup key).getD nil) := rfl

@[simp] theorem lt_number (a b : Nat) : (number a).lt (number b) = .ok (decide (a < b)) := rfl

@[simp] theorem eq_string (a b : String) : (string a).eq (string b) = (a == b) := by
  simp only [eq]

@[simp] theorem eq_number (a b : Nat) : (number a).eq (number b) = (a == b) := by
  simp only [eq]

@[simp] theorem eq_bool (a b : Bool) : (bool a).eq (bool b) = (a == b) := by
  simp only [eq]

@[simp] theorem truthy_ofOption (a : Option String) : (ofOption a).truthy = true := by
  cases a <;> rfl

@[simp] theorem eq_ofOption (a b : Option String) : (ofOption a).eq (ofOption b) = (a == b) := by
  cases a <;> cases b <;> rfl

end Value

end Lua
