import Mathlib.Tactic.SplitIfs

universe u v

/-- A property of a JavaScript object: missing, null (or explicitly undefined), or set. -/
inductive JsField (α : Type u) where
  | absent
  | null
  | value (a : α)
  deriving DecidableEq

namespace JsField

variable {α : Type u} {β : Type v}

/-- Reading a property gives nothing when it is missing or null. -/
def get : JsField α → Option α
  | value a => some a
  | _ => none

/-- A property written with a possibly missing value is present. -/
def ofOption : Option α → JsField α
  | some a => value a
  | none => null

/-- One property of `{ ...existing, ...incoming }`. -/
def spread (existing incoming : JsField α) : JsField α :=
  match incoming with
  | absent => existing
  | f => f

/-- A property set to `incoming ?? existing`. -/
def coalesce (incoming existing : JsField α) : JsField α := ofOption (incoming.get.or existing.get)

@[simp] theorem get_absent : (absent : JsField α).get = none := rfl

@[simp] theorem get_null : (null : JsField α).get = none := rfl

@[simp] theorem get_value (a : α) : (value a).get = some a := rfl

@[simp] theorem get_ofOption (o : Option α) : (ofOption o).get = o := by cases o <;> rfl

variable (i e : JsField α)

@[simp] theorem get_coalesce : (coalesce i e).get = i.get.or e.get := by
  simp [coalesce]

@[simp] theorem spread_null (e : JsField α) : spread e null = null := rfl

@[simp] theorem spread_value (e : JsField α) (a : α) : spread e (value a) = value a := rfl

@[simp] theorem spread_absent (e : JsField α) : spread e absent = e := rfl

theorem spread_assoc (a b c : JsField α) : spread (spread a b) c = spread a (spread b c) := by
  cases c with
  | absent | null | value c => rfl

@[simp] theorem spread_self (i : JsField α) : spread i i = i := by
  cases i <;> rfl

@[simp] theorem spread_spread (e i : JsField α) : spread (spread e i) i = spread e i := by
  rw [spread_assoc, spread_self]

@[simp] theorem spread_spread_left (e i : JsField α) : spread i (spread i e) = spread i e := by
  rw [← spread_assoc, spread_self]

@[simp] theorem coalesce_coalesce : coalesce i (coalesce i e) = coalesce i e := by
  unfold coalesce
  rw [get_ofOption]
  cases i.get <;> rfl

@[simp] theorem coalesce_coalesce_right :
    coalesce (coalesce e i) i = coalesce e i := by
  unfold coalesce
  cases e.get with
  | none => cases i.get <;> rfl
  | some a => rfl

theorem spread_of_ne_absent {e i : JsField α} (h : i ≠ absent) : spread e i = i := by
  cases i with
  | absent => exact absurd rfl h
  | null | value a => rfl

theorem get_spread (e i : JsField α) :
    (spread e i).get = i.get ∨ (spread e i).get = e.get := by
  cases i <;> simp

end JsField

def JsField.truthy (f : JsField String) : Option String :=
  match f.get with
  | some s => if s = "" then none else some s
  | none => none

theorem JsField.truthy_coalesce (i e : JsField String) :
    (coalesce i e).truthy = if i.get.isNone then e.truthy else i.truthy := by
  unfold JsField.truthy
  rw [get_coalesce]
  cases i <;> rfl

theorem JsField.truthy_spread (e i : JsField String) :
    (spread e i).truthy = if i = absent then e.truthy else i.truthy := by
  cases i <;> rfl

theorem JsField.truthy_eq_some {f : JsField String} {s : String} :
    f.truthy = some s ↔ f.get = some s ∧ s ≠ "" := by
  unfold JsField.truthy
  cases f.get with
  | none => simp
  | some t =>
    dsimp only
    split_ifs with h
    · subst h
      simp +contextual [eq_comm]
    · simp only [Option.some.injEq]
      constructor
      · rintro rfl
        exact ⟨rfl, h⟩
      · exact fun h => h.1
