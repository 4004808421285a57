import Mathlib.Data.List.DropRight
import Mathlib.Data.List.SplitBy

/-! Python's strings, as lists of their characters. -/

namespace PythonText

open List

abbrev Text : Type := List Char

/-- `str.isspace` of a character, which is `\s` of a pattern. -/
def isSpace (c : Char) : Bool :=
  let n := c.toNat
  (9 ≤ n && n ≤ 13) || (28 ≤ n && n ≤ 32) || n == 133 || n == 160 || n == 5760 ||
    (8192 ≤ n && n ≤ 8202) || n == 8232 || n == 8233 || n == 8239 || n == 8287 || n == 12288

/-- The characters at which `splitlines` ends a line. -/
def isLineEnd (c : Char) : Bool :=
  let n := c.toNat
  (10 ≤ n && n ≤ 13) || (28 ≤ n && n ≤ 30) || n == 133 || n == 8232 || n == 8233

def lstrip (text : Text) : Text := text.dropWhile isSpace

def rstrip (text : Text) : Text := text.rdropWhile isSpace

def strip (text : Text) : Text := rstrip (lstrip text)

/-- `str.strip` of given characters. -/
def stripOf (p : Char → Bool) (text : Text) : Text := (text.dropWhile p).rdropWhile p

/-- `str.split`. -/
def split (text : Text) : List Text := (text.splitOnP isSpace).filter (· ≠ [])

/-- `f"{n:,}"`, from the digits with the last one first. -/
def withCommas : Nat → Text → Text
  | _, [] => []
  | n, c :: cs =>
    if n ≠ 0 ∧ n % 3 = 0 then ',' :: c :: withCommas (n + 1) cs else c :: withCommas (n + 1) cs

def formatThousands (n : Nat) : Text := (withCommas 0 (toString n).toList.reverse).reverse

/-- `re.sub(r"[^..]+", "-", text)`; `inRun` says that the run has its dash. -/
def dashRuns (keep : Char → Bool) (inRun : Bool) : Text → Text
  | [] => []
  | c :: cs =>
    if keep c then c :: dashRuns keep false cs
    else if inRun then dashRuns keep true cs
    else '-' :: dashRuns keep true cs

/-- `str.splitlines`: `"\r\n"` ends one line, and the end of the text none. -/
def splitlines : Text → List Text
  | [] => []
  | '\r' :: '\n' :: text => [] :: splitlines text
  | c :: text =>
    if isLineEnd c then [] :: splitlines text
    else
      match splitlines text with
      | [] => [[c]]
      | line :: lines => (c :: line) :: lines

/-- `"\n".join(lines)`. -/
def joinLines (lines : List Text) : Text := ['\n'].intercalate lines

/-- `str.rfind` of a character: its last place, or -1. -/
def rfind (c : Char) : Text → Int
  | [] => -1
  | d :: text =>
    let later := rfind c text
    if 0 ≤ later then later + 1 else if d = c then 0 else -1

/-- The longest runs of whitespace and of anything else, which `\s+|[^\s]+` finds. -/
def words (text : Text) : List Text := text.splitBy fun c d => isSpace c == isSpace d

variable {text before after : Text} {c : Char}

theorem isSpace_of_isLineEnd (h : isLineEnd c) : isSpace c := by
  simp only [isLineEnd, isSpace, Bool.or_eq_true, Bool.and_eq_true, decide_eq_true_eq,
    beq_iff_eq] at h ⊢
  omega

theorem splitlines_cons_end (h : isLineEnd c) (hpair : c = '\r' → text.head? ≠ some '\n') :
    splitlines (c :: text) = [] :: splitlines text := by
  rw [splitlines, if_pos h]
  rintro rest rfl rfl
  exact hpair rfl rfl

theorem splitlines_cons_other (h : isLineEnd c = false) : splitlines (c :: text) =
    match splitlines text with
    | [] => [[c]]
    | line :: lines => (c :: line) :: lines := by
  rw [splitlines]
  · rw [h]
    rfl
  · rintro rest rfl rfl
    cases h

theorem count_newline_lt_length (h : isLineEnd c = false) :
    before.count '\n' < (splitlines (before ++ c :: after)).length := by
  induction before with
  | nil =>
    rw [nil_append, splitlines_cons_other h]
    split <;> simp
  | cons d before ih =>
    rw [cons_append]
    cases hd : isLineEnd d with
    | false =>
      have hne : d ≠ '\n' := by
        rintro rfl
        cases hd
      rw [splitlines_cons_other hd, count_cons_of_ne hne]
      cases hlines : splitlines (before ++ c :: after) with
      | nil =>
        rw [hlines] at ih
        cases ih
      | cons =>
        rw [hlines] at ih
        exact ih
    | true =>
      by_cases hpair : d = '\r' ∧ (before ++ c :: after).head? = some '\n'
      · obtain ⟨rfl, hhead⟩ := hpair
        cases before with
        | nil =>
          cases hhead
          cases h
        | cons e before =>
          cases hhead
          have hcrlf : splitlines ('\r' :: '\n' :: (before ++ c :: after)) =
              [] :: splitlines (before ++ c :: after) := rfl
          have hlf : splitlines ('\n' :: (before ++ c :: after)) =
              [] :: splitlines (before ++ c :: after) := splitlines_cons_end rfl (by simp)
          exact ih
      · rw [splitlines_cons_end hd (fun hr hhead => hpair ⟨hr, hhead⟩), length_cons]
        have hcount : (d :: before).count '\n' ≤ before.count '\n' + 1 := by
          rw [count_cons]
          split <;> omega
        omega

theorem lstrip_append_cons (h : isSpace c = false) :
    lstrip (before ++ c :: after) = lstrip before ++ c :: after := by
  induction before with
  | nil => simp [lstrip, h]
  | cons d before ih =>
    unfold lstrip at ih ⊢
    cases hd : isSpace d with
    | true => simpa [hd] using ih
    | false => simp [hd]

theorem rstrip_append_cons (h : isSpace c = false) :
    rstrip (before ++ c :: after) = before ++ c :: rstrip after := by
  have hreverse : lstrip (after.reverse ++ c :: before.reverse) =
      lstrip after.reverse ++ c :: before.reverse := lstrip_append_cons h
  unfold lstrip at hreverse
  unfold rstrip rdropWhile
  simp [hreverse]

theorem rstrip_cons (h : isSpace c = false) : rstrip (c :: after) = c :: rstrip after := by
  have hkeep : rstrip ([] ++ c :: after) = [] ++ c :: rstrip after := rstrip_append_cons h
  exact hkeep

theorem lstrip_eq_nil (h : ∀ d ∈ text, isSpace d) : lstrip text = [] :=
  dropWhile_eq_nil_iff.mpr h

theorem rstrip_eq_nil (h : ∀ d ∈ text, isSpace d) : rstrip text = [] :=
  rdropWhile_eq_nil_iff.mpr h

theorem strip_eq_self (h : ∀ d ∈ text, isSpace d = false) : strip text = text := by
  have hleft : lstrip text = text := by
    refine dropWhile_eq_self_iff.mpr ?_
    intro hpos
    simp [h _ (getElem_mem hpos)]
  rw [strip, hleft]
  refine rdropWhile_eq_self_iff.mpr ?_
  intro hne
  simp [h _ (getLast_mem hne)]

theorem exists_eq_append_strip (text : Text) :
    ∃ before after, text = before ++ (strip text ++ after) ∧
    (∀ d ∈ before, isSpace d) ∧ ∀ d ∈ after, isSpace d := by
  refine ⟨text.takeWhile isSpace, (lstrip text).rtakeWhile isSpace, ?_, ?_, ?_⟩
  · rw [strip, rstrip, rdropWhile_append_rtakeWhile, lstrip, takeWhile_append_dropWhile]
  · exact fun d hd => mem_takeWhile_imp hd
  · exact fun d hd => mem_rtakeWhile_imp hd

theorem head_lstrip (text : Text) : lstrip text = [] ∨ ∃ d rest, isSpace d = false ∧
    lstrip text = d :: rest := by
  cases hstrip : lstrip text with
  | nil => exact .inl rfl
  | cons d rest =>
    have hne : text.dropWhile isSpace ≠ [] := by
      intro hnil
      rw [lstrip, hnil] at hstrip
      cases hstrip
    have hhead := head_dropWhile_not isSpace hne
    have hd : (text.dropWhile isSpace).head hne = d := by
      simp only [show text.dropWhile isSpace = d :: rest from hstrip, head_cons]
    exact .inr ⟨d, rest, by rw [← hd]; exact hhead, rfl⟩

theorem strip_strip (text : Text) : strip (strip text) = strip text := by
  unfold strip
  have hlstrip : lstrip (rstrip (lstrip text)) = rstrip (lstrip text) := by
    obtain hnil | ⟨d, rest, hd, heq⟩ := head_lstrip text
    · rw [hnil]
      rfl
    · rw [heq, rstrip_cons hd]
      simp [lstrip, hd]
  rw [hlstrip]
  exact rdropWhile_idempotent isSpace _

theorem rfind_spec (c : Char) (text : Text) : (rfind c text = -1 ∧ c ∉ text) ∨
    ∃ before after, text = before ++ c :: after ∧ c ∉ after ∧ rfind c text = before.length := by
  induction text with
  | nil => exact .inl ⟨rfl, not_mem_nil⟩
  | cons d text ih =>
    obtain ⟨hnone, hnot⟩ | ⟨before, after, rfl, hnot, hfound⟩ := ih
    · by_cases hd : d = c
      · subst hd
        exact .inr ⟨[], text, rfl, hnot, by simp [rfind, hnone]⟩
      · left
        have hne : c ≠ d := fun h => hd h.symm
        exact ⟨by simp [rfind, hnone, hd], by simp [hne, hnot]⟩
    · right
      refine ⟨d :: before, after, rfl, hnot, ?_⟩
      simp [rfind, hfound]

def despace (text : Text) : Text := text.filter fun c => !isSpace c

@[simp] theorem despace_append : despace (before ++ after) = despace before ++ despace after :=
  filter_append _ _

theorem despace_eq_nil (h : ∀ d ∈ text, isSpace d) : despace text = [] := by
  refine filter_eq_nil_iff.mpr ?_
  intro d hd
  simp [h d hd]

@[simp] theorem despace_lstrip (text : Text) : despace (lstrip text) = despace text := by
  have hsplit : text = text.takeWhile isSpace ++ lstrip text :=
    takeWhile_append_dropWhile.symm
  have hblank : despace (text.takeWhile isSpace) = [] :=
    despace_eq_nil fun d hd => mem_takeWhile_imp hd
  rw [hsplit, despace_append, hblank, ← hsplit]
  rfl

@[simp] theorem despace_rstrip (text : Text) : despace (rstrip text) = despace text := by
  have hsplit : rstrip text ++ text.rtakeWhile isSpace = text :=
    rdropWhile_append_rtakeWhile
  have hblank : despace (text.rtakeWhile isSpace) = [] :=
    despace_eq_nil fun d hd => mem_rtakeWhile_imp hd
  have hall := congrArg despace hsplit
  rwa [despace_append, hblank, append_nil] at hall

@[simp] theorem despace_strip (text : Text) : despace (strip text) = despace text := by
  rw [strip, despace_rstrip, despace_lstrip]

theorem length_lstrip_le (text : Text) : (lstrip text).length ≤ text.length :=
  (dropWhile_suffix isSpace).length_le

theorem length_rstrip_le (text : Text) : (rstrip text).length ≤ text.length :=
  IsPrefix.length_le <| rdropWhile_prefix isSpace text

theorem length_strip_le (text : Text) : (strip text).length ≤ text.length :=
  (length_rstrip_le _).trans (length_lstrip_le _)

theorem strip_eq_nil_iff : strip text = [] ↔ ∀ d ∈ text, isSpace d := by
  constructor
  · intro h
    obtain ⟨before, after, heq, hbefore, hafter⟩ := exists_eq_append_strip text
    rw [h, nil_append] at heq
    rw [heq]
    exact forall_mem_append.mpr ⟨hbefore, hafter⟩
  · intro h
    rw [strip, lstrip_eq_nil h]
    rfl

end PythonText
