import Mathlib.Data.String.Basic

/-- A JSON value; numbers are held as their text. Objects are association
lists read at their first match, as a dict with that insertion order. -/
inductive JsonValue where
  | null
  | bool (b : Bool)
  | num (text : String)
  | str (s : String)
  | arr (items : List JsonValue)
  | obj (members : List (String × JsonValue))

namespace JsonValue

open List

variable (m : Members) (key : String) (value : JsonValue)

mutual
def beq : JsonValue → JsonValue → Bool
  | .null, .null => true
  | .bool a, .bool b => decide (a = b)
  | .num a, .num b => decide (a = b)
  | .str a, .str b => decide (a = b)
  | .arr a, .arr b => beqItems a b
  | .obj a, .obj b => beqMembers a b
  | _, _ => false

def beqItems : List JsonValue → List JsonValue → Bool
  | [], [] => true
  | a :: as, b :: bs => beq a b && beqItems as bs
  | _, _ => false

def beqMembers : List (String × JsonValue) → List (String × JsonValue) → Bool
  | [], [] => true
  | (j, a) :: as, (k, b) :: bs => decide (j = k) && (beq a b && beqMembers as bs)
  | _, _ => false
end

mutual
theorem beq_iff_eq : ∀ a b : JsonValue, beq a b ↔ a = b
  | .arr a, b => by
    cases b with
    | arr b => simp [beq, beqItems_iff_eq a b]
    | _ => simp [beq]
  | .obj a, b => by
    cases b with
    | obj b => simp [beq, beqMembers_iff_eq a b]
    | _ => simp [beq]
  | .null, b => by cases b <;> simp [beq]
  | .bool a, b => by cases b <;> simp [beq]
  | .num a, b => by cases b <;> simp [beq]
  | .str a, b => by cases b <;> simp [beq]

theorem beqItems_iff_eq : ∀ a b : List JsonValue, beqItems a b ↔ a = b
  | [], b => by cases b <;> simp [beqItems]
  | a :: as, b => by
    cases b with
    | nil => simp [beqItems]
    | cons b bs => simp [beqItems, beq_iff_eq a b, beqItems_iff_eq as bs]

theorem beqMembers_iff_eq : ∀ a b : List (String × JsonValue), beqMembers a b ↔ a = b
  | [], b => by cases b <;> simp [beqMembers]
  | (j, a) :: as, b => by
    cases b with
    | nil => simp [beqMembers]
    | cons p bs =>
      obtain ⟨k, b⟩ := p
      simp [beqMembers, beq_iff_eq a b, beqMembers_iff_eq as bs, and_assoc]
end

instance : DecidableEq JsonValue := fun a b => decidable_of_iff _ (beq_iff_eq a b)

/-- A dict's entries. -/
abbrev Members := List (String × JsonValue)

/-- `dict.get` on an object's members. -/
def get? (m : Members) (key : String) : Option JsonValue := m.lookup key

/-- `m | {key: value}`: an overwritten key keeps its place, a new one goes last. -/
def insert (m : Members) (key : String) (value : JsonValue) : Members :=
  if key ∈ m.map Prod.fst then m.map (fun p => if p.1 = key then (key, value) else p)
  else m ++ [(key, value)]

/-- `{**m, **entries}`. -/
def update (m entries : Members) : Members := entries.foldl (fun m p => insert m p.1 p.2) m

def eraseKeys (m : Members) (keys : List String) : Members := m.filter (fun p => p.1 ∉ keys)

@[simp] theorem get?_nil : get? [] key = none := rfl

theorem get?_cons (k : String) (v : JsonValue) (m : Members) (key : String) :
    get? ((k, v) :: m) key = if key = k then some v else get? m key := by
  unfold get?
  rw [lookup_cons]
  by_cases h : key = k
  · simp [h]
  · simp [h, beq_eq_false_iff_ne.mpr h]

theorem get?_append (n : Members) (key : String) :
    get? (m ++ n) key = (get? m key).or (get? n key) := by
  induction m with
  | nil => simp
  | cons p m ih =>
    obtain ⟨k, v⟩ := p
    rw [cons_append, get?_cons, get?_cons, ih]
    split <;> simp

theorem get?_eq_none_iff {m : Members} {key : String} :
    get? m key = none ↔ key ∉ m.map Prod.fst := by
  induction m with
  | nil => simp
  | cons p m ih =>
    obtain ⟨k, v⟩ := p
    rw [get?_cons]
    by_cases h : key = k <;> simp [h, ih]

private theorem get?_overwrite (j : String) :
    get? (m.map (fun p => if p.1 = key then (key, value) else p)) j =
      if j = key then (get? m key).map (fun _ => value) else get? m j := by
  induction m with
  | nil => simp
  | cons p m ih =>
    obtain ⟨k, v⟩ := p
    rw [map_cons]
    by_cases hk : k = key
    · subst hk
      rw [if_pos rfl, get?_cons, get?_cons, get?_cons, ih]
      by_cases hj : j = k <;> simp [hj]
    · rw [if_neg hk, get?_cons, get?_cons, get?_cons, ih, if_neg (Ne.symm hk)]
      by_cases hj : j = k
      · subst hj
        simp [hk]
      · simp [hj]

theorem get?_insert (j : String) :
    get? (insert m key value) j = if j = key then some value else get? m j := by
  unfold insert
  by_cases h : key ∈ m.map Prod.fst
  · rw [if_pos h, get?_overwrite]
    obtain ⟨v, hv⟩ := Option.ne_none_iff_exists'.mp (fun hn => get?_eq_none_iff.mp hn h)
    rw [hv, Option.map_some]
  · rw [if_neg h, get?_append, get?_cons, get?_nil]
    by_cases hj : j = key
    · subst hj
      simp [get?_eq_none_iff.mpr h]
    · simp [hj]

@[simp] theorem get?_insert_self : get? (insert m key value) key = some value := by
  rw [get?_insert, if_pos rfl]

theorem get?_insert_of_ne {key j : String} (h : j ≠ key) :
    get? (insert m key value) j = get? m j := by
  rw [get?_insert, if_neg h]

@[simp] theorem update_nil : update m [] = m := rfl

theorem update_cons (p : String × JsonValue) (entries : Members) :
    update m (p :: entries) = update (insert m p.1 p.2) entries := rfl

theorem get?_update_of_notMem {entries : Members} {key : String}
    (h : key ∉ entries.map Prod.fst) : get? (update m entries) key = get? m key := by
  induction entries generalizing m with
  | nil => rfl
  | cons p entries ih =>
    rw [map_cons, mem_cons, not_or] at h
    rw [update_cons, ih _ h.2, get?_insert_of_ne m p.2 h.1]

theorem get?_eraseKeys (keys : List String) (key : String) :
    get? (eraseKeys m keys) key = if key ∈ keys then none else get? m key := by
  unfold eraseKeys
  induction m with
  | nil => simp
  | cons p m ih =>
    obtain ⟨k, v⟩ := p
    by_cases hk : k ∈ keys
    · rw [filter_cons_of_neg (by simpa using hk), ih, get?_cons]
      by_cases hkey : key ∈ keys
      · rw [if_pos hkey, if_pos hkey]
      · have : key ≠ k := fun h => hkey (h ▸ hk)
        rw [if_neg hkey, if_neg hkey, if_neg this]
    · rw [filter_cons_of_pos (by simpa using hk), get?_cons, get?_cons, ih]
      by_cases hkey : key = k
      · subst hkey
        rw [if_pos rfl, if_pos rfl, if_neg hk]
      · rw [if_neg hkey, if_neg hkey]

end JsonValue
