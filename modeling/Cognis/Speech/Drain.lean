import Cognis.Speech.Buffer

namespace Cognis.Speech

open Bool List PythonText

/-- The sentences taken from the buffer, and what stays in it. -/
structure Drained where
  texts : List Text
  buffer : Text
  inCode : Bool

def spoken (sentence : Text) : List Text :=
  if (stripMarkdownForTts sentence).isEmpty then [] else [stripMarkdownForTts sentence]

def Drained.after (d : Drained) (texts : List Text) : Drained :=
  { d with texts := texts ++ d.texts }

def drained (text : Text) (inCode : Bool) : Drained :=
  match _h : walk [] text inCode with
  | .open buffer inCode => { texts := [], buffer := buffer, inCode := inCode }
  | .found sentence remainder => (drained remainder false).after (spoken sentence)
termination_by text.length
decreasing_by exact walk_found_length ‹_›

def numbered (index : Nat) : List Text → List (Nat × Text)
  | [] => []
  | text :: texts => (index, text) :: numbered (index + 1) texts

variable {seen rest text sentence remainder buffer more : Text} {inCode inCode' : Bool}
  {c : Char} {index : Nat}

theorem drained_open (h : walk [] text inCode = .open buffer inCode') :
    drained text inCode = { texts := [], buffer := buffer, inCode := inCode' } := by
  unfold drained
  split
  · rename_i heq
    rw [h] at heq
    cases heq
    rfl
  · rename_i heq
    rw [h] at heq
    cases heq

theorem drained_found (h : walk [] text inCode = .found sentence remainder) :
    drained text inCode = (drained remainder false).after (spoken sentence) := by
  rw [drained]
  split
  · rename_i heq
    rw [h] at heq
    cases heq
  · rename_i heq
    rw [h] at heq
    cases heq
    rfl

theorem drained_congr {text' : Text} (h : walk [] text inCode = walk [] text' inCode') :
    drained text inCode = drained text' inCode' := by
  cases hwalk : walk [] text' inCode' with
  | found => rw [drained_found hwalk, drained_found (h.trans hwalk)]
  | «open» buffer code => rw [drained_open hwalk, drained_open (h.trans hwalk)]

theorem numbered_append (xs ys : List Text) :
    numbered index (xs ++ ys) = numbered index xs ++ numbered (index + xs.length) ys := by
  induction xs generalizing index with
  | nil => rfl
  | cons x xs ih =>
    simp only [cons_append, numbered, ih, length_cons]
    rw [Nat.add_assoc, Nat.add_comm 1]

/-- The loop of `feed` emits and leaves what the buffer makes. -/
theorem drain_eq (s : SentenceBuffer) : s.drain =
    ({ buffer := (drained s.buffer s.inCodeBlock).buffer
       inCodeBlock := (drained s.buffer s.inCodeBlock).inCode
       nextIndex := s.nextIndex + (drained s.buffer s.inCodeBlock).texts.length
       emittedSentences := s.emittedSentences ++ (drained s.buffer s.inCodeBlock).texts },
      numbered s.nextIndex (drained s.buffer s.inCodeBlock).texts) := by
  fun_induction SentenceBuffer.drain s with
  | case1 s buffer inCode h =>
    rw [drained_open h]
    simp [numbered]
  | case2 s sentence remainder h cleaned hempty ih =>
    have hspoken : spoken sentence = [] := if_pos hempty
    rw [drained_found h, hspoken, ih]
    rfl
  | case3 s sentence remainder h cleaned hempty t ready hdrain ih =>
    have hspoken : spoken sentence = [cleaned] := if_neg hempty
    rw [drained_found h, hspoken]
    rw [hdrain, Prod.mk.injEq] at ih
    obtain ⟨ht, hready⟩ := ih
    rw [ht, hready]
    simp only [Drained.after, singleton_append, numbered, length_cons, append_assoc]
    rw [Nat.add_assoc, Nat.add_comm 1]

theorem walk_nil : walk seen [] inCode = .open seen inCode := by
  unfold walk
  rfl

theorem walk_close (h : startsFence (c :: rest)) :
    walk seen (c :: rest) true = walk [] (rest.drop 2) false := by
  rw [walk, if_pos h, if_pos rfl]

theorem walk_enter (h : startsFence (c :: rest)) :
    walk seen (c :: rest) false = walk (seen ++ fence) (rest.drop 2) true := by
  rw [walk, if_pos h, if_neg Bool.false_ne_true]

section

variable (h : startsFence (c :: rest) = false)
include h

theorem walk_code :
    walk seen (c :: rest) true = walk (seen ++ [c]) rest true := by
  rw [walk, h, if_neg Bool.false_ne_true, if_pos rfl]

theorem walk_end (hends : endsSentence seen c rest) :
    walk seen (c :: rest) false = .found (seen ++ [c]) (rest.dropWhile isSpace) := by
  rw [walk, h, if_neg Bool.false_ne_true, if_neg Bool.false_ne_true, if_pos hends]

theorem walk_on (hends : endsSentence seen c rest = false) :
    walk seen (c :: rest) false = walk (seen ++ [c]) rest false := by
  rw [walk, h, if_neg Bool.false_ne_true, if_neg Bool.false_ne_true, hends,
    if_neg Bool.false_ne_true]

end

theorem startsFence_iff : startsFence text ↔ ∃ after, text = fence ++ after := by
  refine isPrefixOf_iff_prefix.trans ?_
  constructor
  · rintro ⟨after, h⟩
    exact ⟨after, h.symm⟩
  · rintro ⟨after, h⟩
    exact ⟨after, h.symm⟩

theorem startsFence_append (h : startsFence (c :: rest)) :
    startsFence (c :: (rest ++ more)) := by
  obtain ⟨after, hafter⟩ := startsFence_iff.mp h
  refine startsFence_iff.mpr ⟨after ++ more, ?_⟩
  rw [← cons_append, hafter, append_assoc]

theorem startsFence_cut (h : startsFence (c :: (rest ++ more)))
    (hnot : startsFence (c :: rest) = false) :
    c = '\x60' ∧ (rest = [] ∨ rest = ['\x60']) := by
  obtain ⟨after, hafter⟩ := startsFence_iff.mp h
  match rest with
  | [] => simp_all [fence]
  | [d] => simp_all [fence]
  | d :: e :: rest =>
    obtain ⟨rfl, rfl, rfl, -⟩ := hafter
    have hfence : startsFence ('\x60' :: '\x60' :: '\x60' :: rest) :=
      startsFence_iff.mpr ⟨rest, rfl⟩
    cases hnot

theorem startsFence_long (hlong : 2 ≤ rest.length) (hnot : startsFence (c :: rest) = false) :
    startsFence (c :: (rest ++ more)) = false := by
  cases hcut : startsFence (c :: (rest ++ more)) with
  | false => rfl
  | true =>
    obtain ⟨-, rfl | rfl⟩ := startsFence_cut hcut hnot
    · cases hlong
    · exact absurd hlong (by decide)

theorem split_fence (h : startsFence (c :: rest)) : c :: rest = fence ++ rest.drop 2 := by
  obtain ⟨after, hafter⟩ := startsFence_iff.mp h
  obtain ⟨rfl, rfl⟩ := hafter
  rfl

theorem drop_fence (h : startsFence (c :: rest)) :
    rest.drop 2 ++ more = (rest ++ more).drop 2 := by
  obtain ⟨after, hafter⟩ := startsFence_iff.mp h
  obtain ⟨-, rfl⟩ := hafter
  rfl

theorem endsSentence_cut (h : endsSentence seen c (rest ++ more))
    (hnot : endsSentence seen c rest = false) : rest = [] := by
  cases rest with
  | nil => rfl
  | cons =>
    unfold endsSentence at h hnot
    rw [cons_append, head?_cons] at h
    rw [head?_cons, h] at hnot
    cases hnot

/-- The last sentence that is found in the text leaves an empty buffer: the blanks behind it
were all there is. -/
inductive LeavesNothing : Text → Prop
  | last {text sentence : Text} (h : walk [] text false = .found sentence []) : LeavesNothing text
  | later {text sentence remainder : Text} (h : walk [] text false = .found sentence remainder)
      (hlater : LeavesNothing remainder) : LeavesNothing text

theorem not_leavesNothing_of_open (h : walk [] text false = .open buffer inCode) :
    ¬ LeavesNothing text := by
  intro hnothing
  cases hnothing with
  | last hfound => cases h.symm.trans hfound
  | later hfound _ => cases h.symm.trans hfound

theorem two_le_of_head {before tail : Text} (hrest : rest = before ++ c :: tail)
    (hhead : tail.head?.any isSpace) : 2 ≤ rest.length := by
  cases tail with
  | nil => cases hhead
  | cons =>
    rw [hrest, length_append, length_cons, length_cons]
    omega

theorem walk_append_found (h : walk seen rest inCode = .found sentence remainder) :
    ∃ before c tail, rest = before ++ c :: tail ∧ isTerminator c ∧
      tail.head?.any isSpace ∧ remainder = tail.dropWhile isSpace ∧ ∀ more,
        walk seen (rest ++ more) inCode = .found sentence ((tail ++ more).dropWhile isSpace) := by
  fun_induction walk seen rest inCode with
  | case1 => cases h
  | case2 seen c rest hfence ih =>
    obtain ⟨before, d, tail, hrest, hd, hhead, hremainder, hmore⟩ := ih h
    have hsplit := split_fence hfence
    refine ⟨fence ++ before, d, tail, ?_, hd, hhead, hremainder, ?_⟩
    · rw [hsplit, hrest, append_assoc]
    · intro more
      rw [cons_append, walk_close (startsFence_append hfence), ← drop_fence hfence]
      exact hmore more
  | case3 seen c rest inCode hfence hcode ih =>
    obtain ⟨before, d, tail, hrest, hd, hhead, hremainder, hmore⟩ := ih h
    have hsplit := split_fence hfence
    rw [not_eq_true] at hcode
    subst hcode
    refine ⟨fence ++ before, d, tail, ?_, hd, hhead, hremainder, ?_⟩
    · rw [hsplit, hrest, append_assoc]
    · intro more
      rw [cons_append, walk_enter (startsFence_append hfence), ← drop_fence hfence]
      exact hmore more
  | case4 seen c rest hfence ih =>
    rw [not_eq_true] at hfence
    obtain ⟨before, d, tail, hrest, hd, hhead, hremainder, hmore⟩ := ih h
    have hlong : 2 ≤ rest.length := two_le_of_head hrest hhead
    refine ⟨c :: before, d, tail, by rw [hrest, cons_append], hd, hhead, hremainder, ?_⟩
    intro more
    rw [cons_append, walk_code (startsFence_long hlong hfence)]
    exact hmore more
  | case5 seen c rest inCode hfence hcode hends =>
    rw [not_eq_true] at hfence hcode
    subst hcode
    cases h
    unfold endsSentence at hends
    rw [and_eq_true, and_eq_true] at hends
    refine ⟨[], c, rest, rfl, hends.1.1, hends.1.2, rfl, ?_⟩
    intro more
    cases rest with
    | nil => exact absurd hends.1.2 (by simp)
    | cons d rest =>
      have hd : isSpace d := by simpa using hends.1.2
      have hnot : startsFence (c :: (d :: rest ++ more)) = false := by
        cases hfence' : startsFence (c :: (d :: rest ++ more)) with
        | false => rfl
        | true =>
          obtain ⟨after, hafter⟩ := startsFence_iff.mp hfence'
          simp only [fence, cons_append, nil_append, List.cons.injEq] at hafter
          rw [hafter.2.1] at hd
          exact absurd hd (by decide)
      have hends' : endsSentence seen c (d :: rest ++ more) := by
        unfold endsSentence
        rw [and_eq_true, and_eq_true]
        exact ⟨⟨hends.1.1, by simpa using hd⟩, hends.2⟩
      rw [cons_append, walk_end hnot hends']
  | case6 seen c rest inCode hfence hcode hends ih =>
    rw [not_eq_true] at hfence hcode hends
    subst hcode
    obtain ⟨before, d, tail, hrest, hd, hhead, hremainder, hmore⟩ := ih h
    have hlong : 2 ≤ rest.length := two_le_of_head hrest hhead
    have hends' : ∀ more, endsSentence seen c (rest ++ more) = false := by
      intro more
      cases hcut : endsSentence seen c (rest ++ more) with
      | false => rfl
      | true =>
        rw [endsSentence_cut hcut hends] at hlong
        cases hlong
    refine ⟨c :: before, d, tail, by rw [hrest, cons_append], hd, hhead, hremainder, ?_⟩
    intro more
    rw [cons_append, walk_on (startsFence_long hlong hfence) (hends' more)]
    exact hmore more

theorem walk_short (h : rest = [] ∨ rest = ['\x60']) :
    walk seen rest inCode = .open (seen ++ rest) inCode := by
  obtain rfl | rfl := h
  · rw [walk_nil, append_nil]
  · have hfence : startsFence ['\x60'] = false := by decide
    have hends : endsSentence seen '\x60' [] = false := rfl
    cases inCode with
    | true => rw [walk_code hfence, walk_nil]
    | false => rw [walk_on hfence hends, walk_nil]

theorem walk_append_open (h : walk seen rest inCode = .open buffer false) (more : Text)
    (hseen : inCode = false →
      walk [] (seen ++ (rest ++ more)) false = walk seen (rest ++ more) false) :
    walk seen (rest ++ more) inCode = walk [] (buffer ++ more) false := by
  fun_induction walk seen rest inCode with
  | case1 =>
    cases h
    exact (hseen rfl).symm
  | case2 seen c rest hfence ih =>
    rw [cons_append, walk_close (startsFence_append hfence), ← drop_fence hfence]
    exact ih h fun _ => rfl
  | case3 seen c rest inCode hfence hcode ih =>
    rw [not_eq_true] at hcode
    subst hcode
    rw [cons_append, walk_enter (startsFence_append hfence), ← drop_fence hfence]
    apply ih h
    intro hfalse
    cases hfalse
  | case4 seen c rest hfence ih =>
    rw [not_eq_true] at hfence
    have hnot : startsFence (c :: (rest ++ more)) = false := by
      cases hcut : startsFence (c :: (rest ++ more)) with
      | false => rfl
      | true =>
        rw [walk_short (startsFence_cut hcut hfence).2] at h
        cases h
    rw [cons_append, walk_code hnot]
    apply ih h
    intro hfalse
    cases hfalse
  | case5 => cases h
  | case6 seen c rest inCode hfence hcode hends ih =>
    rw [not_eq_true] at hfence hcode hends
    subst hcode
    have hagain := hseen rfl
    cases hcut : startsFence (c :: (rest ++ more)) with
    | true =>
      rw [walk_short (startsFence_cut hcut hfence).2] at h
      cases h
      rw [← hagain, append_assoc, append_assoc]
      rfl
    | false =>
      cases hcut' : endsSentence seen c (rest ++ more) with
      | true =>
        have hlast := endsSentence_cut hcut' hends
        subst hlast
        rw [walk_nil] at h
        cases h
        rw [← hagain, append_assoc]
      | false =>
        rw [cons_append, walk_on hcut hcut'] at hagain ⊢
        apply ih h
        intro _
        rw [← hagain, append_assoc]
        rfl

def Drained.then (d e : Drained) : Drained := e.after d.texts

theorem dropWhile_append_of_ne {p : Char → Bool} (h : text.dropWhile p ≠ []) :
    (text ++ more).dropWhile p = text.dropWhile p ++ more := by
  rw [dropWhile_append]
  cases hrest : text.dropWhile p with
  | nil => exact absurd hrest h
  | cons => rfl

theorem dropWhile_append_of_eq {p : Char → Bool} (h : text.dropWhile p = []) :
    (text ++ more).dropWhile p = more.dropWhile p := by
  rw [dropWhile_append, h]
  rfl

theorem drained_append (text : Text) (h : (drained text false).inCode = false) :
    (∀ more, drained (text ++ more) false =
        (drained text false).then (drained ((drained text false).buffer ++ more) false)) ∨
      (drained text false).buffer = [] ∧ LeavesNothing text ∧ ∀ more, drained (text ++ more) false =
          (drained text false).then (drained (more.dropWhile isSpace) false) := by
  induction hlen : text.length using Nat.strongRecOn generalizing text with
  | ind n ih =>
  subst hlen
  cases hwalk : walk [] text false with
  | «open» buffer inCode =>
    left
    intro more
    rw [drained_open hwalk] at h ⊢
    subst h
    exact drained_congr (walk_append_open hwalk more fun _ => rfl)
  | found sentence remainder =>
    obtain ⟨before, c, tail, htext, hc, hhead, hremainder, hmore⟩ := walk_append_found hwalk
    have hlt : remainder.length < text.length := walk_found_length hwalk
    rw [drained_found hwalk] at h ⊢
    by_cases hempty : remainder = []
    · right
      rw [hempty] at hremainder ⊢
      have hnil : drained [] false = { texts := [], buffer := [], inCode := false } :=
        drained_open walk_nil
      refine ⟨by rw [hnil]; rfl, .last (hempty ▸ hwalk), ?_⟩
      · intro more
        rw [drained_found (hmore more), dropWhile_append_of_eq hremainder.symm, hnil]
        simp [Drained.then, Drained.after]
    · have hgrown : ∀ more, drained (text ++ more) false =
          (drained (remainder ++ more) false).after (spoken sentence) := by
        intro more
        rw [drained_found (hmore more), hremainder,
          dropWhile_append_of_ne (by rw [← hremainder]; exact hempty)]
      obtain hgoes | ⟨hbuffer, hnothing, hgoes⟩ := ih remainder.length hlt remainder h rfl
      · left
        intro more
        rw [hgrown, hgoes]
        simp [Drained.then, Drained.after]
      · right
        refine ⟨hbuffer, .later hwalk hnothing, ?_⟩
        · intro more
          rw [hgrown, hgoes]
          simp [Drained.then, Drained.after]

end Cognis.Speech
