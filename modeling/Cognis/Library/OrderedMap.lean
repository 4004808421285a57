import Mathlib.Data.List.Nodup
import Mathlib.Data.List.Induction

universe u v

/-- A finite map that remembers insertion order: overwriting a key keeps its
place, a new key goes to the end. -/
structure OrderedMap (κ : Type u) (ν : Type v) where
  entries : List (κ × ν)
  nodup : (entries.map Prod.fst).Nodup

namespace OrderedMap

open Option

variable {κ : Type u} {ν : Type v} [DecidableEq κ]

instance [DecidableEq ν] : DecidableEq (OrderedMap κ ν) := fun a b =>
  decidable_of_iff (a.entries = b.entries) (by cases a; cases b; simp)

def empty : OrderedMap κ ν := ⟨[], List.nodup_nil⟩

instance : Inhabited (OrderedMap κ ν) := ⟨empty⟩

def keys (m : OrderedMap κ ν) : List κ := m.entries.map Prod.fst

def values (m : OrderedMap κ ν) : List ν := m.entries.map Prod.snd

def get? (m : OrderedMap κ ν) (k : κ) : Option ν := m.entries.lookup k

def contains (m : OrderedMap κ ν) (k : κ) : Bool := (m.get? k).isSome

variable {l : List (κ × ν)} {k : κ} {v : ν}

private theorem lookup_eq_some_iff (hn : (l.map Prod.fst).Nodup) :
    l.lookup k = some v ↔ (k, v) ∈ l := by
  induction l with
  | nil => simp
  | cons p l ih =>
    obtain ⟨k', v'⟩ := p
    simp only [List.map_cons, List.nodup_cons] at hn
    rw [List.lookup_cons]
    by_cases hk : k = k'
    · subst hk
      have hout : ∀ w, (k, w) ∉ l := fun w hw => hn.1 (List.mem_map.mpr ⟨_, hw, rfl⟩)
      simp [hout, eq_comm]
    · simp [hk, ih hn.2, beq_eq_false_iff_ne.mpr hk]

theorem get?_eq_some_iff (m : OrderedMap κ ν) :
    m.get? k = some v ↔ (k, v) ∈ m.entries :=
  lookup_eq_some_iff m.nodup

theorem get?_eq_none_iff (m : OrderedMap κ ν) : m.get? k = none ↔ k ∉ m.keys := by
  rw [eq_none_iff_forall_ne_some]
  simp [get?_eq_some_iff, keys]

/-- Overwrite in place, or append. -/
def insertEntry (l : List (κ × ν)) (k : κ) (v : ν) : List (κ × ν) :=
  if k ∈ l.map Prod.fst then l.map (fun p => if p.1 = k then (k, v) else p) else l ++ [(k, v)]

private theorem fst_overwrite (l : List (κ × ν)) (k : κ) (v : ν) :
    (l.map (fun p => if p.1 = k then (k, v) else p)).map Prod.fst = l.map Prod.fst := by
  induction l with
  | nil => rfl
  | cons p =>
    by_cases h : p.1 = k <;> simp_all

private theorem insertEntry_nodup (l : List (κ × ν)) (k : κ) (v : ν)
    (hn : (l.map Prod.fst).Nodup) : ((insertEntry l k v).map Prod.fst).Nodup := by
  unfold insertEntry
  split_ifs with h
  · rw [fst_overwrite]
    exact hn
  · rw [List.map_append]
    exact List.nodup_append.mpr ⟨hn, by simp, by
      intro a ha b hb
      have hb' : b = k := by simpa using hb
      rintro rfl
      exact h (hb' ▸ ha)⟩

def set (m : OrderedMap κ ν) (k : κ) (v : ν) : OrderedMap κ ν :=
  ⟨insertEntry m.entries k v, insertEntry_nodup _ _ _ m.nodup⟩

def erase (m : OrderedMap κ ν) (k : κ) : OrderedMap κ ν :=
  ⟨m.entries.filter (fun p => p.1 ≠ k),
    m.nodup.sublist (List.Sublist.map _ List.filter_sublist)⟩

def size (m : OrderedMap κ ν) : Nat := m.entries.length

/-- The entries that `keep` holds of. -/
def filter (m : OrderedMap κ ν) (keep : κ × ν → Bool) : OrderedMap κ ν :=
  ⟨m.entries.filter keep, m.nodup.sublist (List.Sublist.map _ List.filter_sublist)⟩

/-- The newest `n` entries: the oldest go until no more than `n` are left. -/
def newest (m : OrderedMap κ ν) (n : Nat) : OrderedMap κ ν :=
  ⟨m.entries.drop (m.entries.length - n),
    m.nodup.sublist (List.Sublist.map _ (List.drop_sublist _ _))⟩

/-- A key that is there becomes the newest. -/
def moveToEnd (m : OrderedMap κ ν) (k : κ) : OrderedMap κ ν :=
  match m.get? k with
  | none => m
  | some v => (m.erase k).set k v

/-- Later entries overwrite earlier ones, as the `Map` and `dict` constructors do. -/
def ofList (l : List (κ × ν)) : OrderedMap κ ν := l.foldl (fun m p => m.set p.1 p.2) empty

theorem mem_entries_set (m : OrderedMap κ ν) (k : κ) (v : ν) (p : κ × ν) :
    p ∈ (m.set k v).entries ↔ p = (k, v) ∨ (p ∈ m.entries ∧ p.1 ≠ k) := by
  unfold set insertEntry
  split_ifs with h
  · obtain ⟨q, hq, hqk⟩ := List.mem_map.mp h
    simp only [List.mem_map]
    constructor
    · rintro ⟨r, hr, rfl⟩
      by_cases hrk : r.1 = k
      · simp [hrk]
      · simp [hrk, hr]
    · rintro (rfl | ⟨hp, hpk⟩)
      · exact ⟨q, hq, by simp [hqk]⟩
      · exact ⟨p, hp, by simp [hpk]⟩
  · have hne : ∀ q ∈ m.entries, q.1 ≠ k := fun q hq he => h (List.mem_map.mpr ⟨q, hq, he⟩)
    simp only [List.mem_append, List.mem_singleton]
    constructor
    · rintro (hp | rfl)
      · exact .inr ⟨hp, hne p hp⟩
      · exact .inl rfl
    · rintro (rfl | ⟨hp, _⟩)
      · exact .inr rfl
      · exact .inl hp

theorem get?_set (m : OrderedMap κ ν) (k j : κ) (v : ν) :
    (m.set k v).get? j = if j = k then some v else m.get? j := by
  have hset (w : ν) :
    (m.set k v).get? j = some w ↔ (j = k ∧ w = v) ∨ (m.get? j = some w ∧ j ≠ k) := by
    rw [get?_eq_some_iff, mem_entries_set, get?_eq_some_iff]
    simp [Prod.ext_iff]
  apply ext
  intro w
  rw [hset]
  by_cases h : j = k
  · simp [h, eq_comm (a := w)]
  · simp [h]

@[simp] theorem get?_set_self (m : OrderedMap κ ν) (k : κ) (v : ν) :
    (m.set k v).get? k = some v := by
  simp [get?_set]

variable {m : OrderedMap κ ν}

theorem set_of_get?_eq (h : m.get? k = some v) :
    m.set k v = m := by
  have hsame : ∀ p ∈ m.entries, (if p.1 = k then (k, v) else p) = id p := by
    intro p hp
    split
    · rename_i hk
      have hget : m.get? k = some p.2 := (m.get?_eq_some_iff).mpr (hk ▸ hp)
      rw [h] at hget
      exact Prod.ext hk.symm (some.inj hget)
    · rfl
  have hentries : insertEntry m.entries k v = m.entries := by
    unfold insertEntry
    rw [if_pos (List.mem_map.mpr ⟨(k, v), (m.get?_eq_some_iff).mp h, rfl⟩),
      List.map_congr_left hsame, List.map_id]
  unfold set
  congr 1

theorem get?_set_of_ne (m : OrderedMap κ ν) {k j : κ} (v : ν) (h : j ≠ k) :
    (m.set k v).get? j = m.get? j := by
  simp [get?_set, h]

theorem get?_erase (m : OrderedMap κ ν) (k j : κ) :
    (m.erase k).get? j = if j = k then none else m.get? j := by
  apply ext
  intro w
  by_cases h : j = k <;> simp [erase, h, get?_eq_some_iff]

@[simp] theorem get?_empty (k : κ) : (empty : OrderedMap κ ν).get? k = none := rfl

variable {m m' : OrderedMap κ ν}

theorem get?_of_subset (h : m'.entries ⊆ m.entries)
    (hget : m'.get? k = some v) : m.get? k = some v :=
  m.get?_eq_some_iff.mpr (h (m'.get?_eq_some_iff.mp hget))

omit [DecidableEq κ] in
theorem size_filter_le (m : OrderedMap κ ν) (keep : κ × ν → Bool) :
    (m.filter keep).size ≤ m.size := List.length_filter_le keep m.entries

omit [DecidableEq κ] in
theorem size_newest_le (m : OrderedMap κ ν) (n : Nat) : (m.newest n).size ≤ n := by
  have hlength : (m.newest n).size = m.entries.length - (m.entries.length - n) := by
    simp [size, newest]
  omega

theorem size_erase_le (m : OrderedMap κ ν) (k : κ) : (m.erase k).size ≤ m.size :=
  List.length_filter_le _ m.entries

theorem size_set_le (m : OrderedMap κ ν) (k : κ) (v : ν) : (m.set k v).size ≤ m.size + 1 := by
  unfold size set insertEntry
  split_ifs with h
  · rw [List.length_map]
    omega
  · simp

theorem size_erase_lt (h : k ∈ m.keys) :
    (m.erase k).size < m.size := by
  obtain ⟨p, hp, hk⟩ := List.mem_map.mp h
  apply List.length_filter_lt_length_iff_exists.mpr
  exact ⟨p, hp, by simp [hk]⟩

theorem get?_moveToEnd (m : OrderedMap κ ν) (k j : κ) : (m.moveToEnd k).get? j = m.get? j := by
  unfold moveToEnd
  cases h : m.get? k with
  | none => rfl
  | some v =>
    rw [get?_set, get?_erase]
    split_ifs with hj
    · rw [hj, h]
    · rfl

theorem size_moveToEnd_le (m : OrderedMap κ ν) (k : κ) : (m.moveToEnd k).size ≤ m.size := by
  unfold moveToEnd
  cases h : m.get? k with
  | none => exact Nat.le_refl _
  | some v =>
    have hmem : k ∈ m.keys := by
      by_contra hnot
      rw [m.get?_eq_none_iff.mpr hnot] at h
      cases h
    have herased := size_erase_lt hmem
    have hset := size_set_le (m.erase k) k v
    dsimp only
    omega

private theorem mem_entries_foldl_set (l : List (κ × ν)) (m : OrderedMap κ ν)
    (h : (l.map Prod.fst).Nodup) (p : κ × ν) :
    p ∈ (l.foldl (fun m p => m.set p.1 p.2) m).entries ↔
      p ∈ l ∨ (p ∈ m.entries ∧ p.1 ∉ l.map Prod.fst) := by
  induction l generalizing m with
  | nil => simp
  | cons q t ih =>
    obtain ⟨hq, ht⟩ := List.nodup_cons.mp h
    rw [List.foldl_cons, ih _ ht, mem_entries_set]
    by_cases hp : p = q
    · subst hp
      simp [hq]
    · have hset : ¬ p = (q.1, q.2) := hp
      simp only [hset, false_or, List.mem_cons, List.map_cons, not_or]
      tauto

theorem get?_ofList (h : (l.map Prod.fst).Nodup) :
    (ofList l).get? k = some v ↔ (k, v) ∈ l := by
  rw [get?_eq_some_iff, ofList, mem_entries_foldl_set l empty h]
  simp [empty]

theorem mem_keys_ofList (h : (l.map Prod.fst).Nodup) :
    k ∈ (ofList l).keys ↔ k ∈ l.map Prod.fst := by
  rw [← not_iff_not, ← get?_eq_none_iff, eq_none_iff_forall_ne_some]
  simp [get?_ofList h]

private theorem mem_or_get?_of_foldl_set (l : List (κ × ν)) (m : OrderedMap κ ν)
    (h : (l.foldl (fun m p => m.set p.1 p.2) m).get? k = some v) :
    (k, v) ∈ l ∨ m.get? k = some v := by
  induction l generalizing m with
  | nil => exact .inr h
  | cons p t ih =>
    rcases ih (m.set p.1 p.2) h with hmem | hget
    · exact .inl (List.mem_cons_of_mem _ hmem)
    · rw [get?_set] at hget
      split_ifs at hget with hk
      · cases hget
        exact .inl (hk ▸ List.mem_cons_self)
      · exact .inr hget

theorem mem_of_get?_ofList (h : (ofList l).get? k = some v) :
    (k, v) ∈ l := by
  simpa using mem_or_get?_of_foldl_set l empty h

theorem mem_right_of_get?_ofList {l₁ l₂ : List (κ × ν)} (h : (ofList (l₁ ++ l₂)).get? k = some v)
    (hk : k ∈ l₂.map Prod.fst) : (k, v) ∈ l₂ := by
  have hfold (l : List (κ × ν)) (m : OrderedMap κ ν) (hk : k ∈ l.map Prod.fst)
      (h : (l.foldl (fun m p => m.set p.1 p.2) m).get? k = some v) : (k, v) ∈ l := by
    induction l generalizing m with
    | nil => cases hk
    | cons p t ih =>
      by_cases hkt : k ∈ t.map Prod.fst
      · exact List.mem_cons_of_mem _ (ih _ hkt h)
      · rcases mem_or_get?_of_foldl_set t (m.set p.1 p.2) h with hmem | hget
        · exact List.mem_cons_of_mem _ hmem
        · have hkp : k = p.1 := by simpa [hkt] using hk
          rw [hkp, get?_set_self, some.injEq] at hget
          rw [hkp, ← hget]
          exact List.mem_cons_self
  rw [ofList, List.foldl_append] at h
  exact hfold l₂ _ hk h

theorem isSome_get?_ofList (h : k ∈ l.map Prod.fst) :
    ((ofList l).get? k).isSome := by
  have hfold (l : List (κ × ν)) (m : OrderedMap κ ν) (h : k ∈ l.map Prod.fst ∨ (m.get? k).isSome) :
      ((l.foldl (fun m p => m.set p.1 p.2) m).get? k).isSome := by
    induction l generalizing m with
    | nil => simpa using h
    | cons p t ih =>
      refine ih _ ?_
      rw [get?_set]
      by_cases hk : k = p.1
      · exact .inr (by simp [hk])
      · simpa [hk] using h
  exact hfold l empty (.inl h)

theorem mem_values : v ∈ m.values ↔ ∃ k, m.get? k = some v := by
  simp only [get?_eq_some_iff, values, List.mem_map, Prod.exists, exists_eq_right]

theorem get?_ofList_perm (h : l.Perm m.entries) (k : κ) :
    (ofList l).get? k = m.get? k := by
  apply ext
  intro v
  rw [get?_ofList ((h.map _).nodup_iff.mpr m.nodup), get?_eq_some_iff, h.mem_iff]

theorem ext_of_keys (hkeys : m.keys = m'.keys) (hget : ∀ k, m.get? k = m'.get? k) : m = m' := by
  have hentries : m.entries = m'.entries := by
    apply List.ext_getElem
    · have hlength := congrArg List.length hkeys
      simpa [keys] using hlength
    · intro n hn hn'
      have hkey : m.entries[n].1 = m'.entries[n].1 := by
        have hnth : m.keys[n]? = m'.keys[n]? := by rw [hkeys]
        simpa [keys, List.getElem?_map, List.getElem?_eq_getElem hn,
          List.getElem?_eq_getElem hn'] using hnth
      have hvalue : m.get? m.entries[n].1 = some m.entries[n].2 :=
        (m.get?_eq_some_iff).mpr (List.getElem_mem hn)
      have hvalue' : m'.get? m'.entries[n].1 = some m'.entries[n].2 :=
        (m'.get?_eq_some_iff).mpr (List.getElem_mem hn')
      rw [hget, hkey, hvalue', some.injEq] at hvalue
      exact Prod.ext hkey hvalue.symm
  cases m
  cases m'
  simpa using hentries

theorem keys_set_of_mem (v : ν) (h : k ∈ m.keys) :
    (m.set k v).keys = m.keys := by
  have hentries : (m.set k v).entries = m.entries.map fun p => if p.1 = k then (k, v) else p :=
    if_pos h
  unfold keys
  rw [hentries, fst_overwrite]

theorem entries_set_of_not_mem (v : ν) (h : k ∉ m.keys) :
    (m.set k v).entries = m.entries ++ [(k, v)] := if_neg h

theorem mem_keys_set {k j : κ} :
    j ∈ (m.set k v).keys ↔ j = k ∨ j ∈ m.keys := by
  rw [← not_iff_not, ← get?_eq_none_iff, get?_set, not_or, ← get?_eq_none_iff]
  split_ifs with h
  · simp [h]
  · simp [h]

theorem get?_foldl_set (l : List (κ × ν)) (m : OrderedMap κ ν) (k : κ) :
    (l.foldl (fun m p => m.set p.1 p.2) m).get? k = ((ofList l).get? k).or (m.get? k) := by
  induction l using List.reverseRecOn with
  | nil => rfl
  | append_singleton l p ih =>
    unfold ofList at ih ⊢
    rw [List.foldl_append, List.foldl_append]
    simp only [List.foldl_cons, List.foldl_nil, get?_set, ih]
    split_ifs
    · rfl
    · rfl

theorem get?_ofList_append (l l' : List (κ × ν)) (k : κ) :
    (ofList (l ++ l')).get? k = ((ofList l').get? k).or ((ofList l).get? k) := by
  rw [ofList, List.foldl_append]
  exact get?_foldl_set l' (ofList l) k

theorem ofList_entries (m : OrderedMap κ ν) : ofList m.entries = m := by
  have happend : ∀ (l : List (κ × ν)) (hn : (l.map Prod.fst).Nodup), (ofList l).entries = l := by
    intro l
    induction l using List.reverseRecOn with
    | nil => exact fun _ => rfl
    | append_singleton l p ih =>
      intro hn
      rw [List.map_append, List.nodup_append] at hn
      obtain ⟨hl, -, hne⟩ := hn
      have hprev := ih hl
      have hnew : p.1 ∉ (ofList l).keys := by
        unfold keys
        rw [hprev]
        exact fun hmem => hne p.1 hmem p.1 (by simp) rfl
      have hlast : ofList (l ++ [p]) = (ofList l).set p.1 p.2 := by
        unfold ofList
        rw [List.foldl_append]
        rfl
      rw [hlast, entries_set_of_not_mem _ hnew, hprev]
  have hentries := happend m.entries m.nodup
  cases hm : ofList m.entries with
  | mk =>
    rw [hm] at hentries
    cases m
    simpa using hentries

end OrderedMap
