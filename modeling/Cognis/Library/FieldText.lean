import Mathlib.Data.List.Basic

universe u

/-! Texts that join fields with a separator, and numbers in such texts. -/

namespace FieldText

open List

variable {α : Type u}

theorem append_sep_inj {sep : α} {a a' b b' : List α} (hb : sep ∉ b) (hb' : sep ∉ b')
    (h : a ++ sep :: b = a' ++ sep :: b') : a = a' ∧ b = b' := by
  rcases append_eq_append_iff.mp h with ⟨c, hfront, hback⟩ | ⟨c, hfront, hback⟩
  · cases c with
    | nil =>
      rw [append_nil] at hfront
      exact ⟨hfront.symm, (List.cons.inj hback).2⟩
    | cons x c =>
      have hrest : b = c ++ sep :: b' := (List.cons.inj hback).2
      exact absurd (hrest ▸ mem_append_right c mem_cons_self) hb
  · cases c with
    | nil =>
      rw [append_nil] at hfront
      exact ⟨hfront, (List.cons.inj hback).2.symm⟩
    | cons x c =>
      have hrest : b' = c ++ sep :: b := (List.cons.inj hback).2
      exact absurd (hrest ▸ mem_append_right c mem_cons_self) hb'

theorem toList_natText (n : Nat) : (toString n).toList = Nat.toDigits 10 n := by
  rw [Nat.toString_eq_repr, Nat.toList_repr]

theorem natText_injective {m n : Nat} (h : toString m = toString n) : m = n := by
  have hdigits := congrArg String.toList h
  rw [toList_natText, toList_natText] at hdigits
  have hvalue := congrArg (fun digits => Nat.ofDigitChars 10 digits 0) hdigits
  simpa only [Nat.ofDigitChars_ten_toDigits] using hvalue

theorem isDigit_of_mem_natText {n : Nat} {c : Char} (h : c ∈ (toString n).toList) :
    c.isDigit = true := by
  rw [toList_natText] at h
  exact Nat.isDigit_of_mem_toDigits (by decide) (by decide) h

theorem toList_intText (n : Int) :
    (toString n).toList = if n < 0 then '-' :: (toString n.natAbs).toList
      else (toString n.natAbs).toList := by
  cases n with
  | ofNat n => rfl
  | negSucc n =>
    have hsign : ("-" ++ toString (n + 1)).toList = '-' :: (toString (n + 1)).toList := by
      rw [String.toList_append]
      rfl
    rw [if_pos (Int.negSucc_lt_zero n)]
    exact hsign

theorem isDigit_of_mem_intText {n : Int} {c : Char} (h : c ∈ (toString n).toList) :
    c = '-' ∨ c.isDigit = true := by
  rw [toList_intText] at h
  split_ifs at h
  · rcases mem_cons.mp h with hsign | hdigit
    · exact .inl hsign
    · exact .inr (isDigit_of_mem_natText hdigit)
  · exact .inr (isDigit_of_mem_natText h)

theorem intText_injective {m n : Int} (h : toString m = toString n) : m = n := by
  have hsign : ∀ k : Nat, '-' ∉ (toString k).toList := by
    intro k hmem
    exact absurd (isDigit_of_mem_natText hmem) (by decide)
  have htext := congrArg String.toList h
  rw [toList_intText, toList_intText] at htext
  split_ifs at htext with hm hn hn
  · have habs := natText_injective (String.toList_inj.mp (List.cons.inj htext).2)
    omega
  · exact absurd (htext ▸ mem_cons_self) (hsign n.natAbs)
  · exact absurd (htext ▸ mem_cons_self) (hsign m.natAbs)
  · have habs := natText_injective (String.toList_inj.mp htext)
    omega

end FieldText
