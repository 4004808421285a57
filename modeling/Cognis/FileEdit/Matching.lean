import Cognis.Library.PythonText
import Cognis.Library.Substring

namespace Cognis.FileEdit

open List PythonText
open Substring (Occurs Overlapping count find replace replaceFirst)

def newlineOf (crlf : Bool) : Text := if crlf then ['\r', '\n'] else ['\n']

def detectNewline (text : Text) : Text := newlineOf (find ['\r', '\n'] text).isSome

def normalizeTextForNewline (text newline : Text) : Text :=
  let text := replace ['\r', '\n'] ['\n'] text
  if newline = ['\n'] then text else replace ['\n'] newline text

def decodeEscapedEditText (text : Text) : Text :=
  if ["\\n", "\\r", "\\t"].all fun sequence => find sequence.toList text = none then text
  else
    replace "\\r".toList ['\r'] (replace "\\t".toList ['\t'] (replace "\\n".toList ['\n']
      (replace "\\r\\n".toList ['\n'] text)))

/-- `str.splitlines(keepends=True)` -/
def splitlinesKeepends : Text → List Text
  | [] => []
  | '\r' :: '\n' :: text => ['\r', '\n'] :: splitlinesKeepends text
  | c :: text =>
    if isLineEnd c then [c] :: splitlinesKeepends text
    else
      match splitlinesKeepends text with
      | [] => [[c]]
      | line :: lines => (c :: line) :: lines

def lineStripped (line : Text) : Text := line.rdropWhile fun c => c == '\r' || c == '\n'

def isBlank (line : Text) : Bool := strip (lineStripped line) = []

def isIndent (c : Char) : Bool := c == ' ' || c == '\t'

def leadingIndent (line : Text) : Text := (lineStripped line).takeWhile isIndent

/-- `common` with as much cut off its end as makes it a prefix of the other text. -/
def cutToPrefix (common other : Text) : Text :=
  (common.inits.reverse.find? (·.isPrefixOf other)).getD []

def commonLeadingIndent (lines : List Text) : Text :=
  match (lines.filter (!isBlank ·)).map leadingIndent with
  | [] => []
  | first :: prefixes => prefixes.foldl cutToPrefix first

def normalizeBlockDedent (lines : List Text) : List Text × Text :=
  let baseIndent := commonLeadingIndent lines
  (lines.map fun line =>
    let stripped := lineStripped line
    rstrip (if !isBlank line && baseIndent.isPrefixOf stripped then stripped.drop baseIndent.length
      else stripped), baseIndent)

/-- `re.sub(r"[ \t]+", " ", text)`, where the character before may be in such a run. -/
def collapse : Bool → Text → Text
  | _, [] => []
  | within, c :: text =>
    if isIndent c then if within then collapse true text else ' ' :: collapse true text
    else c :: collapse false text

def normalizeHorizontalWhitespace (text : Text) : Text := collapse false text

def plainPunctuation (c : Char) : Char :=
  let n := c.toNat
  if (0x2010 ≤ n ∧ n ≤ 0x2015) ∨ n = 0x2212 then '-'
  else if 0x2018 ≤ n ∧ n ≤ 0x201b then Char.ofNat 39
  else if 0x201c ≤ n ∧ n ≤ 0x201f then Char.ofNat 34
  else if n = 0xa0 ∨ (0x2002 ≤ n ∧ n ≤ 0x200a) ∨ n = 0x202f ∨ n = 0x205f ∨ n = 0x3000 then ' '
  else c

def normalizePatchLineForMatch (text : Text) : Text :=
  (strip (lineStripped text)).map plainPunctuation

inductive WindowRule where
  | rstrip
  | dedent
  | trimmed
  | horizontalWhitespace
  | smartPunctuation
  deriving DecidableEq

/-- The fallback rules in the order in which they are tried. -/
def windowRules : List WindowRule :=
  [.rstrip, .dedent, .trimmed, .horizontalWhitespace, .smartPunctuation]

/-- The indents by which the lines of a replacement are adjusted. -/
structure Adjustment where
  oldBaseIndent : Text := []
  contentBaseIndent : Text := []
  lineIndentPairs : List (Text × Text) := []

def equalAfter (normalizer : Text → Text) (pattern candidate : List Text) : Option Adjustment :=
  if candidate.map normalizer = pattern.map normalizer then some {} else none

/-- Whether the rule takes the lines for the pattern, and with which indents. -/
def WindowRule.adjustment (pattern candidate : List Text) : WindowRule → Option Adjustment
  | .rstrip => equalAfter (fun line => PythonText.rstrip (lineStripped line)) pattern candidate
  | .dedent =>
    let (normalizedPattern, oldBaseIndent) := normalizeBlockDedent pattern
    let (normalizedCandidate, contentBaseIndent) := normalizeBlockDedent candidate
    if normalizedCandidate = normalizedPattern then some { oldBaseIndent, contentBaseIndent }
    else none
  | .trimmed =>
    (equalAfter (fun line => strip (lineStripped line)) pattern candidate).map fun _ =>
      { lineIndentPairs := (pattern.map leadingIndent).zip (candidate.map leadingIndent) }
  | .horizontalWhitespace => equalAfter (fun line =>
      PythonText.rstrip (normalizeHorizontalWhitespace (lineStripped line))) pattern candidate
  | .smartPunctuation => equalAfter normalizePatchLineForMatch pattern candidate

def hasTrailingNewline (text : Text) : Bool :=
  text.getLast?.any fun c => c == '\n' || c == '\r'

structure EditCandidate where
  text : Text
  startIndex : Nat
  endIndex : Nat
  adjustment : Adjustment
  preserveTrailingNewline : Bool

def windowAt (lines : List Text) (index width : Nat) : List Text := (lines.drop index).take width

def lineOffset (lines : List Text) (index : Nat) : Nat := (lines.take index).flatten.length

def findWindowMatches (content oldString : Text) (rule : WindowRule) : List EditCandidate :=
  let pattern := splitlinesKeepends oldString
  let lines := splitlinesKeepends content
  if pattern = [] ∨ lines.length < pattern.length then []
  else
    (range (lines.length - pattern.length + 1)).filterMap fun index =>
      (rule.adjustment pattern (windowAt lines index pattern.length)).map fun adjustment =>
        let text := (windowAt lines index pattern.length).flatten
        { text := text
          startIndex := lineOffset lines index
          endIndex := lineOffset lines index + text.length
          adjustment := adjustment
          preserveTrailingNewline := hasTrailingNewline text && !hasTrailingNewline oldString }

inductive EditRule where
  | exact
  | decoded
  | window (rule : WindowRule) (decoded : Bool)
  deriving DecidableEq

structure EditMatchResult where
  count : Nat
  matchedOld : Text := []
  candidates : List EditCandidate := []
  rule : Option EditRule := none
  decodeReplacementEscapes : Bool := false

def editMatchResultFromCandidates (candidates : List EditCandidate) (rule : WindowRule)
    (decoded : Bool) : EditMatchResult :=
  { count := candidates.length
    matchedOld := if let [candidate] := candidates then candidate.text else []
    candidates := candidates
    rule := some (.window rule decoded)
    decodeReplacementEscapes := decoded }

def findEditMatch (content oldString : Text) : EditMatchResult :=
  if oldString = [] then { count := 0 }
  else if count oldString content ≠ 0 then
    { count := count oldString content, matchedOld := oldString, rule := some .exact }
  else
    let decodedOld := decodeEscapedEditText oldString
    if decodedOld ≠ oldString ∧ count decodedOld content ≠ 0 then
      { count := count decodedOld content, matchedOld := decodedOld, rule := some .decoded
        decodeReplacementEscapes := true }
    else
      let variants := if decodedOld = oldString then [false] else [false, true]
      let textOf (decoded : Bool) := if decoded then decodedOld else oldString
      let tries := variants.flatMap fun decoded => windowRules.map fun rule => (rule, decoded)
      match tries.find? fun (rule, decoded) =>
          !(findWindowMatches content (textOf decoded) rule).isEmpty with
      | some (rule, decoded) =>
        editMatchResultFromCandidates (findWindowMatches content (textOf decoded) rule) rule decoded
      | none => { count := 0 }

def preserveCandidateTrailingNewline (candidate : EditCandidate) (replacement : Text) : Text :=
  if !candidate.preserveTrailingNewline || hasTrailingNewline replacement then replacement
  else if ['\r', '\n'].isSuffixOf candidate.text then replacement ++ ['\r', '\n']
  else if ['\n'].isSuffixOf candidate.text then replacement ++ ['\n']
  else replacement ++ ['\r']

def applyLineIndentPairs (replacement : Text) (pairs : List (Text × Text)) : Text :=
  let lines := splitlinesKeepends replacement
  if lines.length ≠ pairs.length then replacement
  else
    ((lines.zip pairs).map fun (line, oldIndent, contentIndent) =>
      if isBlank line || leadingIndent line == contentIndent then line
      else
        contentIndent ++ if oldIndent ≠ [] ∧ oldIndent.isPrefixOf line then
          line.drop oldIndent.length
        else line.dropWhile isIndent).flatten

def replacementAlreadyHasBaseIndent (replacement baseIndent : Text) : Bool :=
  if baseIndent = [] then true
  else
    let nonblank := (splitlines replacement).filter fun line => strip line ≠ []
    !nonblank.isEmpty && nonblank.all (baseIndent.isPrefixOf ·)

def replacementTextForCandidate (candidate : EditCandidate) (replacement : Text) : Text :=
  let adjustment := candidate.adjustment
  preserveCandidateTrailingNewline candidate <|
    if adjustment.lineIndentPairs ≠ [] then
      applyLineIndentPairs replacement adjustment.lineIndentPairs
    else if adjustment.oldBaseIndent = adjustment.contentBaseIndent then replacement
    else if replacementAlreadyHasBaseIndent replacement adjustment.contentBaseIndent
      then replacement
    else
      ((splitlinesKeepends replacement).map fun line =>
        if isBlank line then line
        else
          adjustment.contentBaseIndent ++
            if adjustment.oldBaseIndent ≠ [] ∧ adjustment.oldBaseIndent.isPrefixOf line then
              line.drop adjustment.oldBaseIndent.length
            else line).flatten

def replacementTextForMatch (result : EditMatchResult) (normalizedNew newline : Text) : Text :=
  if result.decodeReplacementEscapes then
    normalizeTextForNewline (decodeEscapedEditText normalizedNew) newline
  else normalizedNew

/-- `_apply_edit_match` of one occurrence. -/
def applyEditMatch (content : Text) (result : EditMatchResult) (replacement : Text) : Text :=
  match result.candidates with
  | [] => replaceFirst result.matchedOld replacement content
  | candidate :: _ =>
    content.take candidate.startIndex ++ replacementTextForCandidate candidate replacement ++
      content.drop candidate.endIndex

inductive EditError where
  | identical
  | notFound
  | ambiguous (count : Nat)
  | lineCount
  deriving DecidableEq

/-- The content after `handle_edit` of one occurrence, or its refusal. -/
def editText (content oldString newString : Text) : Except EditError Text :=
  let newline := detectNewline content
  let result := findEditMatch content (normalizeTextForNewline oldString newline)
  let replacement :=
    replacementTextForMatch result (normalizeTextForNewline newString newline) newline
  if oldString = newString then .error .identical
  else if result.count = 0 then .error .notFound
  else if 1 < result.count then .error (.ambiguous result.count)
  else if (result.candidates.take 1).any fun candidate =>
      candidate.adjustment.lineIndentPairs ≠ [] ∧
        (splitlinesKeepends replacement).length ≠ candidate.adjustment.lineIndentPairs.length then
    .error .lineCount
  else .ok (applyEditMatch content result replacement)

variable {content old : Text} {rule : WindowRule} {decoded : Bool} {candidate : EditCandidate}

/-- The rule takes this part of the content for the search text. -/
def EditRule.MatchesAt (content old : Text) (start stop : Nat) : EditRule → Prop
  | .exact => Occurs old content start ∧ stop = start + old.length
  | .decoded => Occurs (decodeEscapedEditText old) content start ∧
      stop = start + (decodeEscapedEditText old).length
  | .window rule decoded =>
    let pattern := splitlinesKeepends (if decoded then decodeEscapedEditText old else old)
    let lines := splitlinesKeepends content
    ∃ index, pattern ≠ [] ∧ index + pattern.length ≤ lines.length ∧
      (rule.adjustment pattern (windowAt lines index pattern.length)).isSome ∧
      start = lineOffset lines index ∧
      stop = start + (windowAt lines index pattern.length).flatten.length

/-- The text whose occurrences are counted before the lines are compared. -/
def soughtText (content old : Text) : Text :=
  if count old content ≠ 0 then old else decodeEscapedEditText old

theorem mem_findWindowMatches {start stop : Nat} : (EditRule.window rule decoded).MatchesAt content
      old start stop ↔ ∃ candidate ∈ findWindowMatches content
        (if decoded then decodeEscapedEditText old else old) rule,
      candidate.startIndex = start ∧ candidate.endIndex = stop := by
  unfold EditRule.MatchesAt findWindowMatches
  dsimp only
  generalize (if decoded then decodeEscapedEditText old else old) = text
  generalize splitlinesKeepends text = pattern
  generalize splitlinesKeepends content = lines
  constructor
  · rintro ⟨index, hpattern, hfits, hsome, hstart, hstop⟩
    obtain ⟨adjustment, hadjustment⟩ := Option.isSome_iff_exists.mp hsome
    rw [if_neg (by simp only [hpattern, false_or]; omega)]
    simp only [mem_filterMap, mem_range]
    refine ⟨_, ⟨index, by omega, by rw [hadjustment]; rfl⟩, hstart.symm, ?_⟩
    rw [hstop, hstart]
  · intro h
    split_ifs at h with hnone
    · simp at h
    · obtain ⟨candidate, hmem, hstart, hstop⟩ := h
      simp only [mem_filterMap, mem_range] at hmem
      obtain ⟨index, hindex, hcandidate⟩ := hmem
      obtain ⟨adjustment, hadjustment, rfl⟩ := Option.map_eq_some_iff.mp hcandidate
      rw [not_or] at hnone
      refine ⟨index, hnone.1, by omega, by rw [hadjustment]; rfl, hstart.symm, ?_⟩
      rw [← hstop, ← hstart]

/-- What a search that counts one match has found. -/
theorem findEditMatch_cases (h : (findEditMatch content old).count = 1) :
    (∃ rule text, (findEditMatch content old).rule = some rule ∧
      (findEditMatch content old).candidates = [] ∧ (findEditMatch content old).matchedOld = text ∧
      count text content = 1 ∧ text = soughtText content old ∧
      ∀ start stop, rule.MatchesAt content old start stop ↔
        Occurs text content start ∧ stop = start + text.length) ∨
    ∃ rule decoded candidate, (findEditMatch content old).rule = some (.window rule decoded) ∧
      (findEditMatch content old).candidates = [candidate] ∧
      findWindowMatches content (if decoded then decodeEscapedEditText old else old) rule =
        [candidate] ∧ count (soughtText content old) content = 0 := by
  generalize hresult : findEditMatch content old = result at h ⊢
  unfold findEditMatch at hresult
  split_ifs at hresult with hnil hexact
  · simp [← hresult] at h
  · left
    subst hresult
    exact ⟨.exact, old, rfl, rfl, rfl, h, (if_pos hexact).symm, fun _ _ => Iff.rfl⟩
  · dsimp only at hresult
    generalize (if decodeEscapedEditText old = old then [false] else [false, true]) = variants
      at hresult
    split_ifs at hresult with hdecoded
    · left
      subst hresult
      exact ⟨.decoded, _, rfl, rfl, rfl, h, (if_neg hexact).symm, fun _ _ => Iff.rfl⟩
    · right
      split at hresult
      · rename_i rule decoded _
        subst hresult
        obtain ⟨candidate, hcandidate⟩ := length_eq_one_iff.mp h
        refine ⟨rule, decoded, candidate, rfl, hcandidate, hcandidate, ?_⟩
        unfold soughtText
        rw [if_neg hexact]
        by_contra hcount
        by_cases hsame : decodeEscapedEditText old = old
        · rw [hsame] at hcount
          exact hexact hcount
        · exact hdecoded ⟨hsame, hcount⟩
      · simp [← hresult] at h

variable {new result : Text}

end Cognis.FileEdit
