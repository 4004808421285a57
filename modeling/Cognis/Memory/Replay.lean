import Mathlib.Tactic.IntervalCases
import Cognis.Memory.Aliases

namespace Cognis.Memory

open List SortByKey

section

theorem head_toDigits_ne_zero (n : Nat) (h : 0 < n) : (Nat.toDigits 10 n).head? ≠ some '0' := by
  induction n using Nat.base_induction 10 (by decide) with
  | single m hm =>
    interval_cases m <;> decide
  | digit m k hk hm ih =>
    rw [← Nat.toDigits_append_toDigits (by decide) hm hk]
    have hne : Nat.toDigits 10 m ≠ [] := Nat.toDigits_ne_nil
    rw [head?_append_of_ne_nil _ hne]
    exact ih hm

@[simp] theorem toList_aliasText (n : Nat) : (aliasText n).toList = 'm' :: Nat.toDigits 10 n := by
  unfold aliasText
  rw [String.toList_append, Nat.toString_eq_repr, Nat.toList_repr]
  rfl

theorem aliasNumber_aliasText {n : Nat} (h : 0 < n) : aliasNumber (aliasText n) = some n := by
  unfold aliasNumber
  rw [toList_aliasText]
  have hhead := head_toDigits_ne_zero n h
  have hnum : Nat.ofDigitChars 10 (Nat.toDigits 10 n) 0 = n := Nat.ofDigitChars_ten_toDigits
  have hdigits : (Nat.toDigits 10 n).all Char.isDigit := by
    rw [all_eq_true]
    intro c hc
    exact Nat.isDigit_of_mem_toDigits (by decide) (by decide) hc
  cases hd : Nat.toDigits 10 n with
  | nil => exact absurd hd Nat.toDigits_ne_nil
  | cons d ds =>
    rw [hd] at hhead hnum hdigits
    have hne : d ≠ '0' := fun heq => hhead (by rw [heq]; rfl)
    show (if decide (d ≠ '0') && (d :: ds).all Char.isDigit then
      some (Nat.ofDigitChars 10 (d :: ds) 0) else none) = some n
    rw [hdigits, hnum]
    simp [hne]

@[simp] theorem aliasSortKey_aliasText {n : Nat} (h : 0 < n) : aliasSortKey (aliasText n) = n := by
  rw [aliasSortKey, aliasNumber_aliasText h]
  rfl

theorem aliasText_injective : Function.Injective fun i => aliasText (i + 1) := by
  intro i j h
  have hi := aliasSortKey_aliasText (Nat.succ_pos i)
  have hj := aliasSortKey_aliasText (Nat.succ_pos j)
  dsimp only at h
  rw [Nat.succ_eq_add_one] at hi hj
  rw [h] at hi
  omega

theorem isSpace_of_isDigit {c : Char} (h : c.isDigit) : PythonText.isSpace c = false := by
  have hrange : 48 ≤ c.toNat ∧ c.toNat ≤ 57 := by
    simpa [Char.isDigit, UInt32.le_iff_toNat_le] using h
  simp only [PythonText.isSpace, Bool.or_eq_false_iff, Bool.and_eq_false_iff,
    decide_eq_false_iff_not, beq_eq_false_iff_ne]
  omega

@[simp] theorem strip_aliasText (n : Nat) : strip (aliasText n) = aliasText n := by
  have hplain : ∀ c ∈ (aliasText n).toList, PythonText.isSpace c = false := by
    intro c hc
    rw [toList_aliasText, mem_cons] at hc
    obtain rfl | hc := hc
    · decide
    · exact isSpace_of_isDigit (Nat.isDigit_of_mem_toDigits (by decide) (by decide) hc)
  rw [strip, PythonText.strip_eq_self hplain, String.ofList_toList]

end

/-- A binding that replay accepts. -/
structure MemoryAliasBinding.Valid (b : MemoryAliasBinding) : Prop where
  memoryId : b.memoryId ≠ ""
  revision : b.revision ≠ ""
  expected : validExpectedRevision b.revision b.expectedRevision = true

/-- The bindings of a session in the order of their aliases `m1`, `m2`, and so on. -/
structure IsLedger (bs : List MemoryAliasBinding) : Prop where
  numbered : bs.map (·.aliasName) = (range bs.length).map fun i => aliasText (i + 1)
  distinct : (bs.map (·.revisionKey)).Nodup
  valid : ∀ b ∈ bs, b.Valid

def lastOf (bs : List MemoryAliasBinding) (memoryId : String) : Option MemoryAliasBinding :=
  (bs.filter (·.memoryId = memoryId)).getLast?

section

variable {bs cs : List MemoryAliasBinding} {b c : MemoryAliasBinding} {m : String}

theorem lastOf_append (bs cs : List MemoryAliasBinding) (m : String) :
    lastOf (bs ++ cs) m = (lastOf cs m).or (lastOf bs m) := by
  rw [lastOf, filter_append, getLast?_append]
  rfl

theorem lastOf_singleton (b : MemoryAliasBinding) (m : String) :
    lastOf [b] m = if b.memoryId = m then some b else none := by
  unfold lastOf
  by_cases h : b.memoryId = m <;> simp [h]

theorem lastOf_spec (h : lastOf bs m = some b) : b ∈ bs ∧ b.memoryId = m := by
  simpa using mem_filter.mp (mem_of_getLast? h)

theorem isLedger_nil : IsLedger [] := ⟨rfl, nodup_nil, fun _ h => by cases h⟩

theorem IsLedger.names_nodup (h : IsLedger bs) : (bs.map (·.aliasName)).Nodup := by
  rw [h.numbered]
  exact nodup_range.map aliasText_injective

theorem IsLedger.eq_of_name (h : IsLedger bs) (hb : b ∈ bs) (hc : c ∈ bs)
    (hname : b.aliasName = c.aliasName) : b = c :=
  inj_on_of_nodup_map h.names_nodup hb hc hname

theorem IsLedger.eq_of_key (h : IsLedger bs) (hb : b ∈ bs) (hc : c ∈ bs)
    (hkey : b.revisionKey = c.revisionKey) : b = c :=
  inj_on_of_nodup_map h.distinct hb hc hkey

theorem IsLedger.exists_number (h : IsLedger bs) (hb : b ∈ bs) :
    ∃ i < bs.length, b.aliasName = aliasText (i + 1) := by
  have hmem := mem_map_of_mem (f := (·.aliasName)) hb
  rw [h.numbered, mem_map] at hmem
  obtain ⟨i, hi, heq⟩ := hmem
  exact ⟨i, mem_range.mp hi, heq.symm⟩

theorem isLedger_append_singleton :
    IsLedger (bs ++ [b]) ↔ IsLedger bs ∧ b.aliasName = aliasText (bs.length + 1) ∧
      (∀ c ∈ bs, c.revisionKey ≠ b.revisionKey) ∧ b.Valid := by
  have hnumbers : (bs ++ [b]).map (·.aliasName) =
        (range (bs ++ [b]).length).map (fun i => aliasText (i + 1)) ↔
      bs.map (·.aliasName) = (range bs.length).map (fun i => aliasText (i + 1)) ∧
        b.aliasName = aliasText (bs.length + 1) := by
    rw [length_append, length_singleton, range_succ, map_append, map_append]
    constructor
    · intro h
      obtain ⟨hbs, hb⟩ := append_inj h (by simp)
      exact ⟨hbs, by simpa using hb⟩
    · rintro ⟨hbs, hb⟩
      rw [hbs]
      simpa using hb
  have hkeys : ((bs ++ [b]).map (·.revisionKey)).Nodup ↔
      (bs.map (·.revisionKey)).Nodup ∧ ∀ c ∈ bs, c.revisionKey ≠ b.revisionKey := by
    rw [map_append, nodup_append]
    simp
  constructor
  · rintro ⟨hnum, hkey, hvalid⟩
    obtain ⟨hnum, hname⟩ := hnumbers.mp hnum
    obtain ⟨hkey, hfresh⟩ := hkeys.mp hkey
    have hbs : ∀ c ∈ bs, c.Valid := fun c hc => hvalid c (mem_append_left _ hc)
    exact ⟨⟨hnum, hkey, hbs⟩, hname, hfresh, hvalid b (by simp)⟩
  · rintro ⟨⟨hnum, hkey, hvalid⟩, hname, hfresh, hb⟩
    refine ⟨hnumbers.mpr ⟨hnum, hname⟩, hkeys.mpr ⟨hkey, hfresh⟩, ?_⟩
    intro c hc
    rw [mem_append, mem_singleton] at hc
    obtain hc | rfl := hc
    · exact hvalid c hc
    · exact hb

theorem IsLedger.of_append (h : IsLedger (bs ++ cs)) : IsLedger bs := by
  induction cs using reverseRecOn with
  | nil => simpa using h
  | append_singleton cs c ih =>
    rw [← append_assoc, isLedger_append_singleton] at h
    exact ih h.1

theorem IsLedger.ascending (h : IsLedger bs) :
    Ascending (fun b : MemoryAliasBinding => aliasSortKey b.aliasName) bs := by
  have hpairs : (bs.map (·.aliasName)).Pairwise fun a c => aliasSortKey a < aliasSortKey c := by
    rw [h.numbered, pairwise_map]
    refine pairwise_lt_range.imp ?_
    intro i j hij
    rw [aliasSortKey_aliasText (Nat.succ_pos i), aliasSortKey_aliasText (Nat.succ_pos j)]
    omega
  rw [pairwise_map] at hpairs
  exact hpairs

end

/-- The state is what the ledger makes of it. -/
structure Reflects (s : MemoryAliasState) (bs : List MemoryAliasBinding) : Prop where
  ledger : IsLedger bs
  nextNumber : s.nextNumber = bs.length + 1
  bindings : ∀ a b, s.bindings.get? a = some b ↔ b ∈ bs ∧ b.aliasName = a
  byRevision : ∀ key a,
    s.aliasesByRevision.get? key = some a ↔ ∃ b ∈ bs, b.revisionKey = key ∧ b.aliasName = a
  active : ∀ m, s.activeByMemoryId.get? m = (lastOf bs m).map (·.aliasName)
  superseded : ∀ b ∈ bs, s.activeByMemoryId.get? b.memoryId ≠ some b.aliasName →
    b.aliasName ∈ s.invalidated

/-- Aliases of numbers up to the limit, none of them twice. -/
structure Listed (limit : Nat) (names : List String) : Prop where
  nodup : names.Nodup
  numbered : ∀ a ∈ names, ∃ i < limit, a = aliasText (i + 1)

section

variable {s : MemoryAliasState} {bs cs : List MemoryAliasBinding} {b c : MemoryAliasBinding}
  {m a : String}

theorem mem_invalidated_activate : a ∈ (s.activate b).invalidated ↔
      a ≠ b.aliasName ∧ (a ∈ s.invalidated ∨ s.activeByMemoryId.get? b.memoryId = some a) := by
  unfold MemoryAliasState.activate
  rw [mem_filter, and_comm, decide_eq_true_iff]
  apply and_congr_right
  intro hne
  split
  · rename_i previous hprevious
    rw [Option.filter_eq_some_iff] at hprevious
    rw [mem_insert_iff, hprevious.1, Option.some.injEq, eq_comm (a := a), or_comm]
  · rename_i hnone
    rw [or_iff_left]
    intro hactive
    rw [hactive] at hnone
    simp [hne] at hnone

theorem nodup_invalidated_activate (h : s.invalidated.Nodup) :
    (s.activate b).invalidated.Nodup := by
  apply Nodup.filter
  split
  · exact h.insert
  · exact h

theorem Reflects.activate (h : Reflects s bs) (hl : IsLedger (bs ++ [b])) :
    Reflects (s.activate b) (bs ++ [b]) := by
  obtain ⟨-, hname, hfresh, -⟩ := isLedger_append_singleton.mp hl
  have hnew : ∀ c ∈ bs, c.aliasName ≠ b.aliasName := by
    intro c hc heq
    have hcb := hl.eq_of_name (mem_append_left _ hc) (by simp) heq
    exact hfresh c hc (by rw [hcb])
  have hactive (m : String) : (s.activate b).activeByMemoryId.get? m =
      if m = b.memoryId then some b.aliasName else (lastOf bs m).map (·.aliasName) := by
    rw [MemoryAliasState.activate, OrderedMap.get?_set, h.active]
  refine ⟨hl, ?_, ?_, ?_, ?_, ?_⟩
  · change max s.nextNumber (aliasSortKey b.aliasName + 1) = _
    rw [hname, aliasSortKey_aliasText (Nat.succ_pos _), h.nextNumber, length_append,
      length_singleton]
    omega
  · intro a c
    rw [MemoryAliasState.activate, OrderedMap.get?_set]
    by_cases ha : a = b.aliasName
    · rw [if_pos ha, Option.some.injEq, mem_append, mem_singleton]
      constructor
      · rintro rfl
        exact ⟨.inr rfl, ha.symm⟩
      · rintro ⟨hc | rfl, hca⟩
        · exact absurd (hca.trans ha) (hnew c hc)
        · rfl
    · rw [if_neg ha, h.bindings, mem_append, mem_singleton]
      constructor
      · rintro ⟨hc, hca⟩
        exact ⟨.inl hc, hca⟩
      · rintro ⟨hc | rfl, hca⟩
        · exact ⟨hc, hca⟩
        · exact absurd hca.symm ha
  · intro key a
    rw [MemoryAliasState.activate, OrderedMap.get?_set]
    simp only [mem_append, mem_singleton]
    by_cases hkey : key = b.revisionKey
    · rw [if_pos hkey, Option.some.injEq]
      constructor
      · rintro rfl
        exact ⟨b, .inr rfl, hkey.symm, rfl⟩
      · rintro ⟨c, hc | rfl, hck, hca⟩
        · exact absurd (hck.trans hkey) (hfresh c hc)
        · exact hca
    · rw [if_neg hkey, h.byRevision]
      constructor
      · rintro ⟨c, hc, hck, hca⟩
        exact ⟨c, .inl hc, hck, hca⟩
      · rintro ⟨c, hc | rfl, hck, hca⟩
        · exact ⟨c, hc, hck, hca⟩
        · exact absurd hck.symm hkey
  · intro m
    rw [hactive, lastOf_append, lastOf_singleton]
    by_cases hm : m = b.memoryId
    · rw [if_pos hm, if_pos hm.symm]
      rfl
    · rw [if_neg hm, if_neg (Ne.symm hm)]
      rfl
  · intro c hc hne
    rw [hactive] at hne
    rw [mem_invalidated_activate]
    rw [mem_append, mem_singleton] at hc
    obtain hc | rfl := hc
    · refine ⟨hnew c hc, ?_⟩
      by_cases hold : s.activeByMemoryId.get? c.memoryId = some c.aliasName
      · by_cases hm : c.memoryId = b.memoryId
        · exact .inr (hm ▸ hold)
        · rw [if_neg hm, ← h.active] at hne
          exact absurd hold hne
      · exact .inl (h.superseded c hc hold)
    · rw [if_pos rfl] at hne
      exact absurd rfl hne

theorem Reflects.activateAll (h : Reflects s bs) (hl : IsLedger (bs ++ cs)) :
    Reflects (cs.foldl MemoryAliasState.activate s) (bs ++ cs) := by
  induction cs using reverseRecOn with
  | nil => simpa using h
  | append_singleton cs c ih =>
    rw [← append_assoc] at hl ⊢
    rw [foldl_append]
    exact (ih hl.of_append).activate hl

/-- Activation leaves an active alias invalidated only where it binds nothing new
to the alias's memory. -/
theorem Reflects.mem_invalidated_activateAll (h : Reflects s bs) (hl : IsLedger (bs ++ cs))
    (hlast : lastOf (bs ++ cs) m = some b) :
    b.aliasName ∈ (cs.foldl MemoryAliasState.activate s).invalidated ↔
      lastOf cs m = none ∧ b.aliasName ∈ s.invalidated := by
  induction cs using reverseRecOn generalizing b with
  | nil => simp [lastOf]
  | append_singleton cs c ih =>
    rw [← append_assoc] at hl hlast
    rw [lastOf_append, lastOf_singleton] at hlast
    rw [foldl_append, foldl_cons, foldl_nil, mem_invalidated_activate,
      lastOf_append, lastOf_singleton]
    have hreflects := h.activateAll hl.of_append
    by_cases hm : c.memoryId = m
    · rw [if_pos hm, Option.some_or, Option.some.injEq] at hlast
      rw [if_pos hm, Option.some_or, hlast]
      simp
    · rw [if_neg hm, Option.none_or] at hlast
      rw [if_neg hm, Option.none_or, ← ih hl.of_append hlast]
      obtain ⟨hb, hbm⟩ := lastOf_spec hlast
      have hname : b.aliasName ≠ c.aliasName := by
        intro heq
        have hbc := hl.eq_of_name (mem_append_left _ hb) (by simp) heq
        exact hm (by rw [← hbc, hbm])
      have hother : (cs.foldl MemoryAliasState.activate s).activeByMemoryId.get? c.memoryId ≠
          some b.aliasName := by
        rw [hreflects.active]
        intro heq
        obtain ⟨d, hd, hdname⟩ := Option.map_eq_some_iff.mp heq
        obtain ⟨hdmem, hdm⟩ := lastOf_spec hd
        have hdb := hreflects.ledger.eq_of_name hdmem hb hdname
        exact hm (by rw [← hdm, hdb, hbm])
      simp [hname, hother]

variable {limit : Nat}

theorem Listed.activateAll (h : Reflects s bs) (hl : IsLedger (bs ++ cs))
    (hs : Listed limit s.invalidated) (hlimit : (bs ++ cs).length ≤ limit) :
    Listed limit (cs.foldl MemoryAliasState.activate s).invalidated := by
  induction cs using reverseRecOn with
  | nil => exact hs
  | append_singleton cs c ih =>
    rw [← append_assoc] at hl hlimit
    have hreflects := h.activateAll hl.of_append
    have hprevious := ih hl.of_append (by rw [length_append] at hlimit; omega)
    rw [foldl_append]
    refine ⟨nodup_invalidated_activate hprevious.nodup, ?_⟩
    intro a ha
    obtain ⟨-, ha | ha⟩ := mem_invalidated_activate.mp ha
    · exact hprevious.numbered a ha
    · rw [hreflects.active] at ha
      obtain ⟨d, hd, rfl⟩ := Option.map_eq_some_iff.mp ha
      obtain ⟨i, hi, hname⟩ := hreflects.ledger.exists_number (lastOf_spec hd).1
      rw [length_append] at hlimit
      exact ⟨i, by omega, hname⟩

end

section

theorem parseBinding_asDict {b : MemoryAliasBinding} (h : b.Valid)
    (hname : (aliasNumber b.aliasName).isSome) : parseBinding (.obj b.asDict) = some b := by
  obtain ⟨hmemory, hrevision, hexpected⟩ := h
  have hget (key : String) : JsonValue.get? b.asDict key =
      if key = "alias" then some (.str b.aliasName)
      else if key = "memory_id" then some (.str b.memoryId)
      else if key = "revision" then some (.str b.revision)
      else if key = "expected_revision" then b.expectedRevision.map .str else none := by
    unfold MemoryAliasBinding.asDict
    rw [JsonValue.get?_append]
    simp only [JsonValue.get?_cons, JsonValue.get?_nil]
    cases b.expectedRevision with
    | none => split_ifs <;> rfl
    | some =>
      rw [JsonValue.get?_cons]
      split_ifs <;> rfl
  have hold : expectedOf (b.expectedRevision.map .str) = some b.expectedRevision := by
    cases b.expectedRevision <;> rfl
  simp [parseBinding, hget, textOf, hold, hname, hmemory, hrevision, hexpected]

variable {names : List String}

theorem invalidatedOf_map (hnodup : names.Nodup) (hnames : ∀ a ∈ names, (aliasNumber a).isSome) :
    invalidatedOf (names.map .str) = names := by
  unfold invalidatedOf
  rw [filterMap_map]
  have hall : ∀ a ∈ names, ((fun item => (textOf (some item)).filter fun text =>
      (aliasNumber text).isSome) ∘ JsonValue.str) a = some a := by
    intro a ha
    simp [textOf, Option.filter, hnames a ha]
  rw [filterMap_congr hall, filterMap_some, hnodup.dedup]

variable {s : MemoryAliasState} {bs cs : List MemoryAliasBinding}

theorem Reflects.parseItems (h : Reflects s bs) (hl : IsLedger (bs ++ cs)) : ∃ p : ParsedBindings,
      (cs.map fun b => JsonValue.obj b.asDict).foldlM s.parseItem {} = some p ∧ p.parsed = cs ∧
      (∀ a b, p.byAlias.get? a = some b → b ∈ cs ∧ b.aliasName = a) ∧
      ∀ key a, p.byRevision.get? key = some a → ∃ b ∈ cs, b.revisionKey = key ∧
        b.aliasName = a := by
  induction cs using reverseRecOn with
  | nil =>
    refine ⟨{}, rfl, rfl, ?_, ?_⟩
    · intro a b hb
      cases hb
    · intro key a ha
      cases ha
  | append_singleton cs c ih =>
    rw [← append_assoc] at hl
    obtain ⟨p, hp, hparsed, hbyAlias, hbyRevision⟩ := ih hl.of_append
    obtain ⟨-, hname, hfresh, hvalid⟩ := isLedger_append_singleton.mp hl
    have hnumber : (aliasNumber c.aliasName).isSome := by
      rw [hname, aliasNumber_aliasText (Nat.succ_pos _)]
      rfl
    have hunbound : (s.bindings.get? c.aliasName).or (p.byAlias.get? c.aliasName) = none := by
      rw [Option.eq_none_iff_forall_ne_some]
      intro d hd
      have hmem : d ∈ bs ++ cs ∧ d.aliasName = c.aliasName := by
        rw [mem_append]
        obtain hd | ⟨-, hd⟩ := Option.or_eq_some_iff.mp hd
        · exact ⟨.inl ((h.bindings _ _).mp hd).1, ((h.bindings _ _).mp hd).2⟩
        · exact ⟨.inr (hbyAlias _ _ hd).1, (hbyAlias _ _ hd).2⟩
      have hdc := hl.eq_of_name (mem_append_left _ hmem.1) (by simp) hmem.2
      exact hfresh d hmem.1 (by rw [hdc])
    have hunlisted :
        (s.aliasesByRevision.get? c.revisionKey).or (p.byRevision.get? c.revisionKey) = none := by
      rw [Option.eq_none_iff_forall_ne_some]
      intro a ha
      have hmem : ∃ d ∈ bs ++ cs, d.revisionKey = c.revisionKey := by
        simp only [mem_append]
        obtain ha | ⟨-, ha⟩ := Option.or_eq_some_iff.mp ha
        · obtain ⟨d, hd, hkey, -⟩ := (h.byRevision _ _).mp ha
          exact ⟨d, .inl hd, hkey⟩
        · obtain ⟨d, hd, hkey, -⟩ := hbyRevision _ _ ha
          exact ⟨d, .inr hd, hkey⟩
      obtain ⟨d, hd, hkey⟩ := hmem
      exact hfresh d hd hkey
    refine ⟨{ parsed := p.parsed ++ [c]
              byAlias := p.byAlias.set c.aliasName c
              byRevision := p.byRevision.set c.revisionKey c.aliasName }, ?_, ?_, ?_, ?_⟩
    · rw [map_append, foldlM_append, hp]
      simp [MemoryAliasState.parseItem, parseBinding_asDict hvalid hnumber, hunbound, hunlisted]
    · rw [hparsed]
    · intro a b hb
      rw [OrderedMap.get?_set] at hb
      rw [mem_append, mem_singleton]
      split_ifs at hb with ha
      · cases hb
        exact ⟨.inr rfl, ha.symm⟩
      · exact ⟨.inl (hbyAlias a b hb).1, (hbyAlias a b hb).2⟩
    · intro key a ha
      rw [OrderedMap.get?_set] at ha
      simp only [mem_append, mem_singleton]
      split_ifs at ha with hkey
      · cases ha
        exact ⟨c, .inr rfl, hkey.symm, rfl⟩
      · obtain ⟨d, hd, hdkey, hda⟩ := hbyRevision key a ha
        exact ⟨d, .inl hd, hdkey, hda⟩

theorem Listed.isSome (h : Listed limit names) {a : String}
    (ha : a ∈ names) : (aliasNumber a).isSome := by
  obtain ⟨i, -, rfl⟩ := h.numbered a ha
  rw [aliasNumber_aliasText (Nat.succ_pos i)]
  rfl

theorem Reflects.apply (h : Reflects s bs) (hl : IsLedger (bs ++ cs))
    (hnames : Listed limit names) :
    s.apply (deltaDict cs names) = (s.commit cs names, true) := by
  obtain ⟨p, hp, hparsed, -⟩ := h.parseItems hl
  have hinvalidated := invalidatedOf_map hnames.nodup fun a ha => hnames.isSome ha
  have hparse : s.parseDelta (deltaDict cs names) = some (cs, names) := by
    unfold MemoryAliasState.parseDelta deltaDict
    simp [JsonValue.get?_cons, isVersionOne, itemsOf, hp, hparsed, hinvalidated]
  rw [MemoryAliasState.apply, hparse]

end

section

variable {s : MemoryAliasState} {bs cs : List MemoryAliasBinding} {b : MemoryAliasBinding}
  {names : List String} {m : String} {limit : Nat}

section

variable (h : Reflects s bs)
include h

theorem Reflects.invalidate (names : List String) :
    Reflects { s with invalidated := names ∪ s.invalidated } bs where
  ledger := h.ledger
  nextNumber := h.nextNumber
  bindings := h.bindings
  byRevision := h.byRevision
  active := h.active
  superseded := by
    intro b hb hne
    rw [mem_union_iff]
    exact .inr (h.superseded b hb hne)

variable (hl : IsLedger (bs ++ cs))
include hl

theorem Reflects.commit :
    Reflects (s.commit cs names) (bs ++ cs) := (h.invalidate names).activateAll hl

/-- An accepted delta leaves the active alias of a memory invalidated only if it binds
nothing new to the memory. -/
theorem Reflects.mem_invalidated_commit
    (hlast : lastOf (bs ++ cs) m = some b) :
    b.aliasName ∈ (s.commit cs names).invalidated ↔
      lastOf cs m = none ∧ (b.aliasName ∈ names ∨ b.aliasName ∈ s.invalidated) := by
  have hmem := (h.invalidate names).mem_invalidated_activateAll hl hlast
  rw [mem_union_iff] at hmem
  exact hmem

theorem Listed.commit
    (hs : Listed limit s.invalidated) (hnames : Listed limit names)
    (hlimit : (bs ++ cs).length ≤ limit) : Listed limit (s.commit cs names).invalidated := by
  refine Listed.activateAll (h.invalidate names) hl ⟨hs.nodup.union names, ?_⟩ hlimit
  intro a ha
  obtain ha | ha := mem_union_iff.mp ha
  · exact hnames.numbered a ha
  · exact hs.numbered a ha

end

theorem Listed.mono {limit' : Nat} (h : Listed limit names) (hle : limit ≤ limit') :
    Listed limit' names := by
  refine ⟨h.nodup, ?_⟩
  intro a ha
  obtain ⟨i, hi, heq⟩ := h.numbered a ha
  exact ⟨i, by omega, heq⟩

theorem listed_nil (limit : Nat) : Listed limit [] := ⟨nodup_nil, fun _ h => by cases h⟩

theorem reflects_fresh : Reflects {} [] where
  ledger := isLedger_nil
  nextNumber := rfl
  bindings := by
    intro a b
    constructor
    · intro h
      cases h
    · rintro ⟨hb, -⟩
      cases hb
  byRevision := by
    intro key a
    constructor
    · intro h
      cases h
    · rintro ⟨b, hb, -⟩
      cases hb
  active := fun m => rfl
  superseded := fun b hb => by cases hb

end

end Cognis.Memory
