import Mathlib.Data.List.MinMax
import Mathlib.Data.List.Nodup
import Mathlib.Data.List.Perm.Basic

universe u v w

/-! Versions that are merged in the order they arrive: a merge takes the value of the later
version, or that of the earlier one where the later has none. -/

namespace LatestKnown

open List Option

variable {β : Type u} {ι : Type v} {α : Type w} [LinearOrder ι]

def mergeAll (merge : β → β → β) : List β → Option β
  | [] => none
  | first :: rest => some (rest.foldl merge first)

/-- The merge of versions with `P` keeps the later revision, and the value that is known at it. -/
structure Merges (merge : β → β → β) (P : β → Prop) (rev : β → ι) (value : β → Option α) :
    Prop where
  keeps : ∀ e i, P e → P i → P (merge e i)
  later : ∀ e i, P e → P i → rev (merge e i) = max (rev e) (rev i)
  known : ∀ e i, P e → P i → value (merge e i) =
    if rev e ≤ rev i then (value i).or (value e) else (value e).or (value i)

variable {merge : β → β → β} {P : β → Prop} {rev : β → ι} {value : β → Option α}
  {e first n : β} {vs p rest : List β} {a : α}

theorem foldl_keeps {Q : β → Prop} (hmerge : ∀ e i, Q e → Q i → Q (merge e i)) (hfirst : Q first)
    (hrest : ∀ v ∈ rest, Q v) : Q (rest.foldl merge first) := by
  induction rest generalizing first with
  | nil => exact hfirst
  | cons v rest ih =>
    apply ih (hmerge first v hfirst (hrest v mem_cons_self))
    intro x hx
    exact hrest x (mem_cons_of_mem v hx)

namespace Merges

variable (h : Merges merge P rev value)

include h

section

variable (hfirst : P first) (hrest : ∀ v ∈ rest, P v)

include hfirst hrest

theorem rev_le_foldl : ∀ v ∈ first :: rest, rev v ≤ rev (rest.foldl merge first) := by
  induction rest generalizing first with
  | nil =>
    intro v hv
    rw [mem_singleton.mp hv]
    exact le_rfl
  | cons x rest ih =>
    have hx := hrest x mem_cons_self
    have hnext := ih (h.keeps first x hfirst hx) fun v hv => hrest v (mem_cons_of_mem x hv)
    have hmerged := hnext _ mem_cons_self
    rw [h.later first x hfirst hx] at hmerged
    intro v hv
    rcases mem_cons.mp hv with rfl | htail
    · exact (le_max_left _ _).trans hmerged
    · rcases mem_cons.mp htail with rfl | hlater
      · exact (le_max_right _ _).trans hmerged
      · exact hnext v (mem_cons_of_mem _ hlater)

theorem value_foldl_of_newest (hn : n ∈ first :: rest)
    (hnewest : ∀ v ∈ first :: rest, rev v ≤ rev n)
    (hknown : ∀ v ∈ first :: rest, rev v = rev n → value v = some a) :
    value (rest.foldl merge first) = some a := by
  have htop : ∀ e i, (P e ∧ rev e ≤ rev n ∧ (rev e = rev n → value e = some a)) →
      (P i ∧ rev i ≤ rev n ∧ (rev i = rev n → value i = some a)) →
      P (merge e i) ∧ rev (merge e i) ≤ rev n ∧
        (rev (merge e i) = rev n → value (merge e i) = some a) := by
    rintro e i ⟨he, hle, hvalue⟩ ⟨hi, hle', hvalue'⟩
    refine ⟨h.keeps e i he hi, ?_, ?_⟩
    · rw [h.later e i he hi]
      exact max_le hle hle'
    · intro hrev
      rw [h.later e i he hi] at hrev
      rw [h.known e i he hi]
      by_cases hlater : rev e ≤ rev i
      · rw [max_eq_right hlater] at hrev
        rw [if_pos hlater, hvalue' hrev]
        rfl
      · rw [max_eq_left (le_of_not_ge hlater)] at hrev
        rw [if_neg hlater, hvalue hrev]
        rfl
  have hall := foldl_keeps htop
    ⟨hfirst, hnewest first mem_cons_self, hknown first mem_cons_self⟩
    fun v hv => ⟨hrest v hv, hnewest v (mem_cons_of_mem first hv),
      hknown v (mem_cons_of_mem first hv)⟩
  exact hall.2.2 (le_antisymm hall.2.1 (h.rev_le_foldl hfirst hrest n hn))

theorem value_foldl :
    (∀ a, value (rest.foldl merge first) = some a → ∃ v ∈ first :: rest, value v = some a) ∧
      (value (rest.foldl merge first) = none → ∀ v ∈ first :: rest, value v = none) := by
  induction rest generalizing first with
  | nil =>
    constructor
    · intro a ha
      exact ⟨first, mem_cons_self, ha⟩
    · intro hnone v hv
      rw [mem_singleton.mp hv]
      exact hnone
  | cons x rest ih =>
    have hx := hrest x mem_cons_self
    obtain ⟨hsome, hnone⟩ := ih (h.keeps first x hfirst hx)
      fun v hv => hrest v (mem_cons_of_mem x hv)
    have hmerged := h.known first x hfirst hx
    constructor
    · intro a ha
      obtain ⟨v, hv, hvalue⟩ := hsome a ha
      rcases mem_cons.mp hv with rfl | hlater
      · rw [hmerged] at hvalue
        split at hvalue
        · rcases or_eq_some_iff.mp hvalue with hlast | ⟨-, hheld⟩
          · exact ⟨x, mem_cons_of_mem _ mem_cons_self, hlast⟩
          · exact ⟨first, mem_cons_self, hheld⟩
        · rcases or_eq_some_iff.mp hvalue with hheld | ⟨-, hlast⟩
          · exact ⟨first, mem_cons_self, hheld⟩
          · exact ⟨x, mem_cons_of_mem _ mem_cons_self, hlast⟩
      · exact ⟨v, mem_cons_of_mem _ (mem_cons_of_mem _ hlater), hvalue⟩
    · intro hresult v hv
      have hall := hnone hresult
      have hfront := hall _ mem_cons_self
      rw [hmerged] at hfront
      have hboth : value first = none ∧ value x = none := by
        split at hfront
        · exact (or_eq_none_iff.mp hfront).symm
        · exact or_eq_none_iff.mp hfront
      rcases mem_cons.mp hv with rfl | htail
      · exact hboth.1
      · rcases mem_cons.mp htail with rfl | hlater
        · exact hboth.2
        · exact hall v (mem_cons_of_mem _ hlater)

theorem value_foldl_earlier (hearlier : ∀ v ∈ rest, rev v < rev first)
    (hvalue : value first = some a) : value (rest.foldl merge first) = some a := by
  induction rest generalizing first with
  | nil => exact hvalue
  | cons x rest ih =>
    have hx := hrest x mem_cons_self
    have hlt := hearlier x mem_cons_self
    have hrev : rev (merge first x) = rev first := by
      rw [h.later first x hfirst hx]
      exact max_eq_left hlt.le
    apply ih (h.keeps first x hfirst hx)
    · intro v hv
      exact hrest v (mem_cons_of_mem x hv)
    · intro v hv
      rw [hrev]
      exact hearlier v (mem_cons_of_mem x hv)
    · rw [h.known first x hfirst hx, if_neg (not_le.mpr hlt), hvalue]
      rfl

end

theorem value_newest_then (hP : ∀ v ∈ n :: e :: rest, P v)
    (hearlier : ∀ v ∈ e :: rest, rev v < rev n) (hnone : value n = none)
    (hvalue : value e = some a) :
    (mergeAll merge (n :: e :: rest)).map value = some (some a) := by
  have hn := hP n mem_cons_self
  have he := hP e (mem_cons_of_mem _ mem_cons_self)
  have hlt := hearlier e mem_cons_self
  have hrev : rev (merge n e) = rev n := by
    rw [h.later n e hn he]
    exact max_eq_left hlt.le
  change some (value (rest.foldl merge (merge n e))) = _
  rw [h.value_foldl_earlier (h.keeps n e hn he)]
  · intro v hv
    exact hP v (mem_cons_of_mem _ (mem_cons_of_mem _ hv))
  · intro v hv
    rw [hrev]
    exact hearlier v (mem_cons_of_mem _ hv)
  · rw [h.known n e hn he, if_neg (not_le.mpr hlt), hnone, hvalue]
    rfl

theorem value_mergeAll (hP : ∀ v ∈ vs, P v) (hp : p.Perm vs) (hne : vs ≠ []) :
    ∃ r, mergeAll merge p = some r ∧ (∀ a, value r = some a → ∃ v ∈ vs, value v = some a) ∧
      (value r = none → ∀ v ∈ vs, value v = none) := by
  cases p with
  | nil => exact absurd hp.nil_eq.symm hne
  | cons first rest =>
    have hall : ∀ v ∈ first :: rest, P v := fun v hv => hP v (hp.mem_iff.mp hv)
    obtain ⟨hsome, hnone⟩ := h.value_foldl (hall first mem_cons_self)
      fun v hv => hall v (mem_cons_of_mem first hv)
    refine ⟨rest.foldl merge first, rfl, ?_, ?_⟩
    · intro a ha
      obtain ⟨v, hv, hvalue⟩ := hsome a ha
      exact ⟨v, hp.mem_iff.mp hv, hvalue⟩
    · intro hresult v hv
      exact hnone hresult v (hp.mem_iff.mpr hv)

theorem value_mergeAll_of_newest (hP : ∀ v ∈ vs, P v) (hp : p.Perm vs) (hn : n ∈ vs)
    (hnewest : ∀ v ∈ vs, rev v ≤ rev n) (hknown : ∀ v ∈ vs, rev v = rev n → value v = some a) :
    (mergeAll merge p).map value = some (some a) := by
  cases p with
  | nil =>
    rw [← hp.nil_eq] at hn
    cases hn
  | cons first rest =>
    have hall : ∀ v ∈ first :: rest, v ∈ vs := fun v hv => hp.mem_iff.mp hv
    change some (value (rest.foldl merge first)) = _
    rw [h.value_foldl_of_newest (hP first (hall first mem_cons_self))
      (fun v hv => hP v (hall v (mem_cons_of_mem first hv))) (hp.mem_iff.mpr hn)
      (fun v hv => hnewest v (hall v hv)) (fun v hv => hknown v (hall v hv))]

end Merges

/-! Arrival orders. -/

def NewestDecides (rev : β → ι) (value : β → Option α) (vs : List β) : Prop :=
  ∀ n ∈ vs, (∀ v ∈ vs, rev v ≤ rev n) → value n ≠ none ∨
    ∀ v ∈ vs, ∀ w ∈ vs, ∀ a b, value v = some a → value w = some b → a = b

theorem exists_perm_cons_cons {n v : β} (hn : n ∈ vs) (hv : v ∈ vs) (hne : v ≠ n) :
    ∃ rest, (n :: v :: rest).Perm vs := by
  obtain ⟨front, back, rfl⟩ := append_of_mem hn
  have hfirst : (n :: (front ++ back)).Perm (front ++ n :: back) := perm_middle.symm
  have hmem : v ∈ front ++ back := by
    rcases mem_cons.mp (hfirst.mem_iff.mpr hv) with heq | hrest
    · exact absurd heq hne
    · exact hrest
  obtain ⟨front', back', hsplit⟩ := append_of_mem hmem
  refine ⟨front' ++ back', ?_⟩
  have hsecond : (v :: (front' ++ back')).Perm (front ++ back) := by
    rw [hsplit]
    exact perm_middle.symm
  exact (hsecond.cons n).trans hfirst

theorem Merges.orderFree_iff (h : Merges merge P rev value) (hP : ∀ v ∈ vs, P v)
    (hdistinct : (vs.map rev).Nodup) :
    (∀ p q : List β, p.Perm vs → q.Perm vs →
      (mergeAll merge p).map value = (mergeAll merge q).map value) ↔
        NewestDecides rev value vs := by
  have hstrict : ∀ n ∈ vs, (∀ v ∈ vs, rev v ≤ rev n) → ∀ v ∈ vs, v ≠ n → rev v < rev n := by
    intro n hn hnewest v hv hne
    apply lt_of_le_of_ne (hnewest v hv)
    intro heq
    exact hne (inj_on_of_nodup_map hdistinct hv hn heq)
  constructor
  · intro hfree n hn hnewest
    by_cases hnone : value n = none
    · right
      intro v hv w hw a b ha hb
      have hresult : ∀ x ∈ vs, ∀ c, value x = some c →
          ∃ p : List β, p.Perm vs ∧ (mergeAll merge p).map value = some (some c) := by
        intro x hx c hc
        have hne : x ≠ n := by
          rintro rfl
          rw [hnone] at hc
          cases hc
        obtain ⟨rest, hperm⟩ := exists_perm_cons_cons hn hx hne
        have hnodup : (n :: x :: rest).Nodup := hperm.nodup_iff.mpr (Nodup.of_map rev hdistinct)
        refine ⟨n :: x :: rest, hperm, h.value_newest_then ?_ ?_ hnone hc⟩
        · intro y hy
          exact hP y (hperm.mem_iff.mp hy)
        · intro y hy
          apply hstrict n hn hnewest y (hperm.mem_iff.mp (mem_cons_of_mem _ hy))
          rintro rfl
          exact (nodup_cons.mp hnodup).1 hy
      obtain ⟨p, hp, hpvalue⟩ := hresult v hv a ha
      obtain ⟨q, hq, hqvalue⟩ := hresult w hw b hb
      have hsame := hfree p q hp hq
      rw [hpvalue, hqvalue] at hsame
      exact some.inj (some.inj hsame)
    · exact .inl hnone
  · intro hdecides p q hp hq
    cases hmax : vs.argmax rev with
    | none =>
      have hnil : vs = [] := argmax_eq_none.mp hmax
      subst hnil
      rw [hp.eq_nil, hq.eq_nil]
    | some n =>
      have hn : n ∈ vs := argmax_mem hmax
      have hnewest : ∀ v ∈ vs, rev v ≤ rev n := fun v hv => le_of_mem_argmax hv hmax
      rcases hdecides n hn hnewest with hknown | hsame
      · obtain ⟨a, ha⟩ := ne_none_iff_exists'.mp hknown
        have hnever : ∀ v ∈ vs, rev v = rev n → value v = some a := by
          intro v hv heq
          rw [inj_on_of_nodup_map hdistinct hv hn heq]
          exact ha
        rw [h.value_mergeAll_of_newest hP hp hn hnewest hnever,
          h.value_mergeAll_of_newest hP hq hn hnewest hnever]
      · have hne : vs ≠ [] := ne_nil_of_mem hn
        obtain ⟨r, hr, hsome, hnone⟩ := h.value_mergeAll hP hp hne
        obtain ⟨r', hr', hsome', hnone'⟩ := h.value_mergeAll hP hq hne
        rw [hr, hr', map_some, map_some]
        congr 1
        cases ha : value r with
        | none =>
          cases hb : value r' with
          | none => rfl
          | some b =>
            obtain ⟨v, hv, hvalue⟩ := hsome' b hb
            rw [hnone ha v hv] at hvalue
            cases hvalue
        | some a =>
          obtain ⟨v, hv, hvalue⟩ := hsome a ha
          cases hb : value r' with
          | none =>
            rw [hnone' hb v hv] at hvalue
            cases hvalue
          | some b =>
            obtain ⟨w, hw, hvalue'⟩ := hsome' b hb
            rw [hsame v hv w hw a b hvalue hvalue']

end LatestKnown
