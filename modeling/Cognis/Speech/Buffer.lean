import Cognis.Library.PythonText
import Cognis.Library.Substitution

namespace Cognis.Speech

open List PythonText

section

open Substitution

/-- `^` of a multi-line pattern. -/
def startsLine (before : Option Char) : Bool := before == none || before == some '\n'

/-- `#{1,6}\s+` at the start of a text: the length of the match after its first character. -/
def headingLength (text : Text) : Option Nat :=
  let marks := (text.takeWhile (· == '#')).length
  let blanks := ((text.dropWhile (· == '#')).takeWhile isSpace).length
  if 1 ≤ marks ∧ marks ≤ 6 ∧ 0 < blanks then some (marks + blanks - 1) else none

def heading : Substitution.Matcher Char := fun before text =>
  if startsLine before then (headingLength text).map ([], ·) else none

/-- `\s*[-*+]\s+` -/
def bulletLength (text : Text) : Option Nat :=
  match text.dropWhile isSpace with
  | [] => none
  | c :: rest =>
    let blanks := (rest.takeWhile isSpace).length
    if (c = '-' ∨ c = '*' ∨ c = '+') ∧ 0 < blanks then
      some ((text.takeWhile isSpace).length + blanks)
    else none

def bullet : Substitution.Matcher Char := fun before text =>
  if startsLine before then (bulletLength text).map ([], ·) else none

/-- `\[([^\]]+)\]\([^)]+\)` -/
def link : Substitution.Matcher Char := fun _ text =>
  match text with
  | [] => none
  | c :: rest =>
    let label := rest.takeWhile (· != ']')
    match rest.dropWhile (· != ']') with
    | _ :: d :: more =>
      let target := more.takeWhile (· != ')')
      if c = '[' ∧ d = '(' ∧ 0 < label.length ∧ 0 < target.length ∧ target.length < more.length then
        some (label, label.length + target.length + 3)
      else none
    | _ => none

/-- `\*\*([^*]+)\*\*` -/
def bold : Substitution.Matcher Char := fun _ text =>
  match text with
  | c :: d :: rest =>
    let inner := rest.takeWhile (· != '*')
    if c = '*' ∧ d = '*' ∧ 0 < inner.length ∧ (rest.dropWhile (· != '*')).take 2 = ['*', '*'] then
      some (inner, inner.length + 3)
    else none
  | _ => none

def isEmphasis (c : Char) : Bool := c == '*' || c == '_'

/-- `(?<![*_])[*_]([^*_]+)[*_](?![*_])` -/
def italic : Substitution.Matcher Char := fun before text =>
  match text with
  | [] => none
  | c :: rest =>
    let inner := rest.takeWhile (!isEmphasis ·)
    match rest.dropWhile (!isEmphasis ·) with
    | [] => none
    | _ :: more =>
      if isEmphasis c = true ∧ before.all (!isEmphasis ·) = true ∧ 0 < inner.length ∧
          more.head?.all (!isEmphasis ·) = true then
        some (inner, inner.length + 1)
      else none

/-- A backtick, other characters, a backtick. -/
def inlineCode : Substitution.Matcher Char := fun _ text =>
  match text with
  | [] => none
  | c :: rest =>
    let inner := rest.takeWhile (· != '\x60')
    if c = '\x60' ∧ 0 < inner.length ∧ inner.length < rest.length then
      some (inner, inner.length + 1)
    else none

def stripMarkdownForTts (text : Text) : Text :=
  strip <| sub inlineCode none <| sub italic none <| sub bold none <| sub link none <|
    sub bullet none <| sub heading none text

variable {lead text : Text} {c : Char}

theorem not_emphasis_of_space (h : isSpace c) : isEmphasis c = false := by
  cases hemphasis : isEmphasis c with
  | false => rfl
  | true =>
    unfold isEmphasis at hemphasis
    rw [Bool.or_eq_true, beq_iff_eq, beq_iff_eq] at hemphasis
    obtain rfl | rfl := hemphasis
    · exact absurd h (by decide)
    · exact absurd h (by decide)

theorem ne_of_space {d : Char} (h : isSpace c) (hd : isSpace d = false) : c ≠ d := by
  intro heq
  rw [heq, hd] at h
  cases h

theorem strip_lead (h : ∀ c ∈ lead, isSpace c) : strip (lead ++ text) = strip text := by
  rw [strip, lstrip, dropWhile_append_of_pos h]
  rfl

/-- A blank before a match is like the start of the text, and no match starts with one. -/
structure IgnoresBlanks (m : Substitution.Matcher Char) : Prop where
  start : ∀ c rest before, isSpace c = true → m before (c :: rest) = none
  before : ∀ c text, isSpace c = true → m (some c) text = m none text

theorem IgnoresBlanks.sub_lead {m : Substitution.Matcher Char} (hm : IgnoresBlanks m)
    (h : ∀ c ∈ lead, isSpace c) : sub m none (lead ++ text) = lead ++ sub m none text := by
  rw [sub_append]
  · congr 1
    apply sub_congr
    cases hlast : lead.getLast? with
    | none => rfl
    | some c => exact hm.before c text (h c (mem_of_getLast? hlast))
  · intro tail htail hne before
    cases tail with
    | nil => exact absurd rfl hne
    | cons c tail =>
      have hmem : c ∈ lead := htail.subset mem_cons_self
      exact hm.start c (tail ++ text) before (h c hmem)

theorem ignoresBlanks_link : IgnoresBlanks link := by
  refine ⟨?_, fun _ _ _ => rfl⟩
  intro c rest before hc
  have hne : c ≠ '[' := ne_of_space hc (by decide)
  unfold link
  dsimp only
  split
  · rw [if_neg (fun hall => hne hall.1)]
  · rfl

theorem ignoresBlanks_bold : IgnoresBlanks bold := by
  refine ⟨?_, fun _ _ _ => rfl⟩
  intro c rest before hc
  have hne : c ≠ '*' := ne_of_space hc (by decide)
  unfold bold
  cases rest with
  | nil => rfl
  | cons =>
    dsimp only
    rw [if_neg (fun hall => hne hall.1)]

theorem ignoresBlanks_italic : IgnoresBlanks italic := by
  constructor
  · intro c rest before hc
    unfold italic
    dsimp only
    split
    · rfl
    · rw [not_emphasis_of_space hc]
      simp
  · intro c text hc
    unfold italic
    simp [not_emphasis_of_space hc]

theorem ignoresBlanks_inlineCode : IgnoresBlanks inlineCode := by
  refine ⟨?_, fun _ _ _ => rfl⟩
  intro c rest before hc
  have hne : c ≠ '\x60' := ne_of_space hc (by decide)
  unfold inlineCode
  dsimp only
  rw [if_neg (fun hall => hne hall.1)]

theorem headingLength_space (h : isSpace c) : headingLength (c :: text) = none := by
  have hne : (c == '#') = false := by simpa using ne_of_space h (by decide)
  unfold headingLength
  simp [hne]

def Calm (lead text : Text) : Prop :=
  lead = [] ∨ lead.getLast? = some '\n' ∨ headingLength text = none

theorem heading_lead (h : ∀ c ∈ lead, isSpace c) (hcalm : Calm lead text) :
    sub heading none (lead ++ text) = lead ++ sub heading none text := by
  rw [sub_append]
  · congr 1
    apply sub_congr
    unfold heading
    obtain rfl | hline | hnone := hcalm
    · rfl
    · rw [hline]
      rfl
    · rw [hnone]
      simp
  · intro tail htail hne before
    cases tail with
    | nil => exact absurd rfl hne
    | cons c =>
      have hmem : c ∈ lead := htail.subset mem_cons_self
      unfold heading
      rw [cons_append, headingLength_space (h c hmem)]
      simp

theorem bulletLength_lead (h : ∀ c ∈ lead, isSpace c) :
    bulletLength (lead ++ text) = (bulletLength text).map (lead.length + ·) := by
  unfold bulletLength
  rw [dropWhile_append_of_pos h, takeWhile_append_of_pos h]
  cases text.dropWhile isSpace with
  | nil => rfl
  | cons =>
    dsimp only
    split_ifs with hbullet
    · rw [length_append, Nat.add_assoc]
      rfl
    · rfl

theorem bullet_cons {n : Nat} {rest : Text} (h : bulletLength (c :: rest) = some n) :
    sub bullet none (c :: rest) = sub bullet (c :: rest.take n).getLast? (rest.drop n) := by
  have hmatch : bullet none (c :: rest) = some ([], n) := by
    unfold bullet
    rw [h]
    rfl
  rw [sub_cons_some hmatch, nil_append]

theorem bullet_lead (h : ∀ c ∈ lead, isSpace c) (text : Text) :
    sub bullet none (lead ++ text) = sub bullet none text ∨
      sub bullet none (lead ++ text) = lead ++ sub bullet none text := by
  cases hbullet : bulletLength text with
  | none =>
    right
    rw [sub_append]
    · congr 1
      apply sub_congr
      unfold bullet
      rw [hbullet]
      simp
    · intro tail htail _ before
      have htailSpace : ∀ c ∈ tail, isSpace c := fun c hc => h c (htail.subset hc)
      unfold bullet
      rw [bulletLength_lead htailSpace, hbullet]
      simp
  | some n =>
    left
    cases text with
    | nil => cases hbullet
    | cons d text =>
      cases lead with
      | nil => rfl
      | cons c lead =>
        have hlong : bulletLength (c :: (lead ++ d :: text)) = some ((c :: lead).length + n) := by
          rw [← cons_append, bulletLength_lead h, hbullet]
          rfl
        rw [cons_append, bullet_cons hlong, bullet_cons hbullet]
        have htake :
          (lead ++ d :: text).take ((c :: lead).length + n) = lead ++ d :: text.take n := by
          rw [length_cons, Nat.add_right_comm, Nat.add_assoc, take_length_add_append,
            take_succ_cons]
        have hdrop : (lead ++ d :: text).drop ((c :: lead).length + n) = text.drop n := by
          rw [length_cons, Nat.add_right_comm, Nat.add_assoc, drop_length_add_append,
            drop_succ_cons]
        rw [htake, hdrop]
        congr 1
        simp [getLast?_cons]

theorem ignoresBlanks_all {m₁ m₂ m₃ m₄ : Substitution.Matcher Char} (h₁ : IgnoresBlanks m₁)
    (h₂ : IgnoresBlanks m₂) (h₃ : IgnoresBlanks m₃) (h₄ : IgnoresBlanks m₄)
    (h : ∀ c ∈ lead, isSpace c) :
    sub m₄ none (sub m₃ none (sub m₂ none (sub m₁ none (lead ++ text)))) =
      lead ++ sub m₄ none (sub m₃ none (sub m₂ none (sub m₁ none text))) := by
  rw [h₁.sub_lead h, h₂.sub_lead h, h₃.sub_lead h, h₄.sub_lead h]

theorem stripMarkdown_lead (h : ∀ c ∈ lead, isSpace c) (hcalm : Calm lead text) :
    stripMarkdownForTts (lead ++ text) = stripMarkdownForTts text := by
  unfold stripMarkdownForTts
  rw [heading_lead h hcalm]
  obtain hgone | hkept := bullet_lead h (sub heading none text)
  · rw [hgone]
  · rw [hkept, ignoresBlanks_all ignoresBlanks_link ignoresBlanks_bold ignoresBlanks_italic
      ignoresBlanks_inlineCode h, strip_lead h]

end

/-- Three backticks. -/
def fence : Text := ['\x60', '\x60', '\x60']

def startsFence (text : Text) : Bool := fence.isPrefixOf text

def minMidstreamChars : Nat := 8

def isTerminator (c : Char) : Bool := c == '.' || c == '!' || c == '?'

inductive Extraction where
  | found (sentence remainder : Text)
  | open (buffer : Text) (inCodeBlock : Bool)
  deriving DecidableEq

/-- The end of a sentence at `c`, after the characters `seen` of the buffer. -/
def endsSentence (seen : Text) (c : Char) (rest : Text) : Bool :=
  isTerminator c && rest.head?.any isSpace &&
    minMidstreamChars ≤ (stripMarkdownForTts (seen ++ [c])).length

/-- `_extract_next_sentence` from a position, with the buffer before and after it. -/
def walk (seen : Text) : Text → Bool → Extraction
  | [], inCode => .open seen inCode
  | c :: rest, inCode =>
    if startsFence (c :: rest) then
      -- the closing fence discards the buffer up to it
      if inCode then walk [] (rest.drop 2) false
      else walk (seen ++ fence) (rest.drop 2) true
    else if inCode then walk (seen ++ [c]) rest true
    else if endsSentence seen c rest then .found (seen ++ [c]) (rest.dropWhile isSpace)
    else walk (seen ++ [c]) rest false
termination_by rest => rest.length
decreasing_by
  all_goals
    simp only [length_drop, length_cons]
    omega

structure SentenceBuffer where
  buffer : Text := []
  inCodeBlock : Bool := false
  nextIndex : Nat := 0
  emittedSentences : List Text := []

theorem walk_found_length {seen rest sentence remainder : Text} {inCode : Bool}
    (h : walk seen rest inCode = .found sentence remainder) : remainder.length < rest.length := by
  fun_induction walk seen rest inCode with
  | case1 => cases h
  | case2 _ c rest _ ih | case3 seen c rest _ _ _ ih =>
    have hlt := ih h
    rw [length_drop] at hlt
    rw [length_cons]
    omega
  | case4 seen c rest _ ih | case6 seen c rest _ _ _ _ ih =>
    have hlt := ih h
    rw [length_cons]
    omega
  | case5 seen c rest =>
    cases h
    have hle := length_dropWhile_le isSpace rest
    rw [length_cons]
    omega

/-- The loop of `feed`. -/
def SentenceBuffer.drain (s : SentenceBuffer) : SentenceBuffer × List (Nat × Text) :=
  match _h : walk [] s.buffer s.inCodeBlock with
  | .open buffer inCode => ({ s with buffer := buffer, inCodeBlock := inCode }, [])
  | .found sentence remainder =>
    let cleaned := stripMarkdownForTts sentence
    if cleaned.isEmpty then { s with buffer := remainder, inCodeBlock := false }.drain
    else
      let (t, ready) := SentenceBuffer.drain
        { buffer := remainder, inCodeBlock := false, nextIndex := s.nextIndex + 1,
          emittedSentences := s.emittedSentences ++ [cleaned] }
      (t, (s.nextIndex, cleaned) :: ready)
termination_by s.buffer.length
decreasing_by
  all_goals exact walk_found_length ‹_›

def SentenceBuffer.feed (s : SentenceBuffer) (token : Text) : SentenceBuffer × List (Nat × Text) :=
  if token.isEmpty then (s, [])
  else { s with buffer := s.buffer ++ token }.drain

def SentenceBuffer.flush (s : SentenceBuffer) : SentenceBuffer × Option (Nat × Text) :=
  if (strip s.buffer).isEmpty then ({ s with buffer := [] }, none)
  else
    let cleaned := stripMarkdownForTts s.buffer
    if cleaned.isEmpty then ({ s with buffer := [] }, none)
    else
      ({ s with buffer := [], nextIndex := s.nextIndex + 1,
                emittedSentences := s.emittedSentences ++ [cleaned] },
        some (s.nextIndex, cleaned))

def SentenceBuffer.feedAll (s : SentenceBuffer) : List Text → SentenceBuffer × List (Nat × Text)
  | [] => (s, [])
  | token :: tokens =>
    let (t, ready) := s.feed token
    let (u, more) := t.feedAll tokens
    (u, ready ++ more)

def midstream (tokens : List Text) : List (Nat × Text) := (SentenceBuffer.feedAll {} tokens).2

def sentences (tokens : List Text) : List (Nat × Text) :=
  midstream tokens ++ (SentenceBuffer.feedAll {} tokens).1.flush.2.toList

end Cognis.Speech
