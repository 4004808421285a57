import Mathlib.Data.Char
import Mathlib.Data.Prod.Lex
import Cognis.Library.PythonText
import Cognis.Library.Regex
import Cognis.Library.SortByKey

namespace Cognis.AnchoredOutput

open PythonText

/-- What an extraction rests on of the standard library. -/
structure Unicode where
  /-- `html.unescape` -/
  unescape : Text → Text
  /-- `unicodedata.normalize("NFKD", text)` -/
  nfkd : Text → Text

/-- An anchor of an earlier extraction: those of its fields that have the right type. -/
structure ExistingAnchor where
  anchor : Option Text := none
  label : Option Text := none
  kind : Option Text := none
  startLine : Option Int := none
  endLine : Option Int := none

structure Anchor where
  anchor : Text
  label : Text
  kind : Text
  startLine : Nat
  endLine : Nat
  deriving DecidableEq

structure Heading where
  line : Nat
  level : Nat
  title : Text
  deriving DecidableEq

section

open Regex

def space : Regex := .char isSpace

def hash : Regex := .char (· == '#')

/-- `^(?P<indent> {0,3})(?P<marks>#{1,6})(?!#)(?P<title>\s+.+?)\s*$` -/
def atxHeading : Regex :=
  let character := .char (· != '\n')
  .chain [.first, .group 1 (atMost (.char (· == ' ')) 3), .group 2 (.seq hash (atMost hash 5)),
    .notAhead hash, .group 3 (.chain [plus space, character, .many false character]),
    star space, .last]

/-- `^ {0,3}(?P<fence>\x60{3,}|~{3,})` -/
def markdownFence : Regex :=
  let marks (mark : Char) := .seq (times (.char (· == mark)) 3) (star (.char (· == mark)))
  .chain [.first, atMost (.char (· == ' ')) 3, .group 1 (.alt (marks '\x60') (marks '~'))]

/-- `<h(?P<level>[1-6])(?:\s[^>]*)?>(?P<title>.*?)</h(?P=level)>`, whatever the case -/
def htmlHeading : Regex :=
  let letter := .char fun c => c == 'h' || c == 'H'
  .chain [lit "<", letter, .group 1 (.char fun c => '1' ≤ c && c ≤ '6'),
    optional (.seq space (star (.char (· != '>')))), lit ">",
    .group 2 (.many false (.char fun _ => true)), lit "</", letter, .backref 1, lit ">"]

/-- `<[^>]+>` -/
def htmlTag : Regex := .chain [lit "<", plus (.char (· != '>')), lit ">"]

/-- `^(?P<marks>=+|-+)\s*$` -/
def setext : Regex :=
  .chain [.first, .group 1 (.alt (plus (.char (· == '='))) (plus (.char (· == '-')))), star space,
    .last]

/-- `\s+#+\s*$` -/
def closingMarks : Regex := .chain [plus space, plus hash, star space, .last]

/-- `[^a-zA-Z0-9]+` -/
def separators : Regex := plus (.char (!·.isAlphanum))

end

structure Scan where
  /-- The character and the length of the fence that is open. -/
  fence : Option (Char × Nat) := none
  fencedLines : List Nat := []
  headings : List Heading := []

def fenceOf (line : Text) : Option Text := (markdownFence.matchStart line).map (·.group 1)

def atxOf (line : Text) : Option (Nat × Text) :=
  (atxHeading.matchStart line).map fun place =>
    ((place.group 2).length, strip (closingMarks.sub (fun _ _ => []) (strip (place.group 3))))

def setextOf (previous : Option Text) (line : Text) : Option (Nat × Text) :=
  previous.bind fun above =>
    if strip line ≠ [] ∧ (setext.fullMatch line).isSome then
      let title := strip above
      if title ≠ [] ∧ fenceOf title = none then
        some (if (lstrip line).head? = some '=' then 1 else 2, title)
      else none
    else none

variable (x : Extraction) (u : Unicode) (heading : Heading) (maxLevel : Int)

def Scan.step (scan : Scan) (lineNo : Nat) (previous : Option Text) (line : Text) : Scan :=
  match fenceOf line, scan.fence with
  | some fence, none =>
    { scan with
      fence := fence.head?.map (·, fence.length)
      fencedLines := scan.fencedLines ++ [lineNo] }
  | some fence, some (char, length) =>
    { scan with
      fence :=
        if fence.head? = some char ∧ length ≤ fence.length then none else some (char, length)
      fencedLines := scan.fencedLines ++ [lineNo] }
  | none, some _ => { scan with fencedLines := scan.fencedLines ++ [lineNo] }
  | none, none =>
    match (atxOf line).filter fun (level, title) => (level : Int) ≤ maxLevel ∧ title ≠ [] with
    | some (level, title) =>
      { scan with headings := scan.headings ++ [⟨lineNo, level, title⟩] }
    | none =>
      match (setextOf previous line).filter fun (level, _) => (level : Int) ≤ maxLevel with
      | some (level, title) =>
        { scan with headings := scan.headings ++ [⟨lineNo - 1, level, title⟩] }
      | none => scan

def scanLines (maxLevel : Int) : Scan → Nat → Option Text → List Text → Scan
  | scan, _, _, [] => scan
  | scan, lineNo, previous, line :: lines =>
    scanLines maxLevel (scan.step maxLevel lineNo previous line) (lineNo + 1) (some line) lines

/-- The heading of a match of `htmlHeading`, if it is one and touches no fenced line. -/
def htmlHeadingOf (fencedLines : List Nat) (found : Regex.Place × Regex.Place) : Option Heading :=
  let level := ((found.2.group 1).head?.map fun c => c.toNat - '0'.toNat).getD 0
  let startLine := found.1.before.count '\n' + 1
  let endLine := found.2.before.count '\n' + 1
  let title := strip (htmlTag.sub (fun _ _ => []) (u.unescape (found.2.group 2)))
  if maxLevel < level then none
  else if (List.range' startLine (endLine + 1 - startLine)).any (· ∈ fencedLines) then none
  else if title = [] then none
  else some ⟨startLine, level, title⟩

def headingKey : ℕ ×ₗ (ℕ ×ₗ Text) :=
  toLex (heading.line, toLex (heading.level, heading.title))

def sortedHeadings (content : Text) : List Heading :=
  let scan := scanLines maxLevel {} 1 none (splitlines content)
  let html := (htmlHeading.finditer content).filterMap (htmlHeadingOf u maxLevel scan.fencedLines)
  SortByKey.sortBy headingKey (scan.headings ++ html)

/-- The loop that leaves out what it has seen and stops at the limit. -/
def dedupe (limit : Int) : List Heading → List Heading → List Heading
  | deduped, [] => deduped
  | deduped, heading :: headings =>
    if heading ∈ deduped then dedupe limit deduped headings
    else if limit ≤ (deduped ++ [heading]).length then deduped ++ [heading]
    else dedupe limit (deduped ++ [heading]) headings

/-- `[\x60*_~\[\](){}<>]` -/
def isMarkup (c : Char) : Bool := "\x60*_~[]()\x7b\x7d<>".toList.contains c

def slugifyHeading (title : Text) (index : Nat) : Text :=
  let normalized := (u.nfkd title).filter fun c => c.toNat < 128
  let normalized := (normalized.map fun c => if isMarkup c then ' ' else c).map Char.toLower
  let slug := separators.sub (fun _ _ => ['-']) normalized
  let slug := (slug.dropWhile (· == '-')).rdropWhile (· == '-')
  if slug = [] then "section-".toList ++ Nat.toDigits 10 index else slug

def candidateName (base : Text) : Nat → Text
  | 0 => base
  | n + 1 => base ++ '-' :: Nat.toDigits 10 (n + 2)

/-- The first candidate from `n` on that is not used, if the fuel suffices. -/
def firstUnused (base : Text) (used : List Text) : Nat → Nat → Text
  | 0, n => candidateName base n
  | fuel + 1, n =>
    if candidateName base n ∈ used then firstUnused base used fuel (n + 1) else candidateName base n

def uniqueAnchorName (base : Text) (used : List Text) : Text :=
  firstUnused base used used.length 0

/-- What stays the same in the loop over the headings. -/
structure Extraction where
  anchorPrefix : Text := "heading".toList
  kind : Text := "markdown_heading".toList
  existing : List ExistingAnchor := []
  /-- The number of lines of the content. -/
  total : Nat

def Extraction.existingNames : List Text :=
  x.existing.filterMap fun item => item.anchor.filter (· ≠ [])

def Extraction.existingSignatures : List (Text × Text × Int × Int) :=
  x.existing.filterMap fun item =>
    match item.kind, item.label, item.startLine, item.endLine with
    | some kind, some label, some startLine, some endLine => some (kind, label, startLine, endLine)
    | _, _, _, _ => none

def Extraction.endLine (later : List Heading) : Nat :=
  match later.find? fun next => next.level ≤ heading.level with
  | some next => next.line - 1
  | none => x.total

def Extraction.baseAnchor (index : Nat) : Text :=
  x.anchorPrefix ++ ':' :: slugifyHeading u heading.title index

def Extraction.isKnown (index endLine : Nat) : Bool :=
  x.existingSignatures.contains (x.kind, heading.title.take 120, heading.line, endLine) ||
    x.existingNames.contains (x.baseAnchor u heading index)

def Extraction.anchorsFrom (x : Extraction) (u : Unicode) :
    Nat → List Text → List Heading → List Anchor
  | _, _, [] => []
  | index, used, heading :: later =>
    let endLine := x.endLine heading later
    if x.isKnown u heading index endLine then x.anchorsFrom u (index + 1) used later
    else
      let name := uniqueAnchorName (x.baseAnchor u heading index) used
      { anchor := name
        label := heading.title.take 120
        kind := x.kind
        startLine := heading.line
        endLine := endLine } :: x.anchorsFrom u (index + 1) (name :: used) later

def limitedHeadings (maxAnchors maxLevel : Int) (content : Text) : List Heading :=
  dedupe maxAnchors [] (sortedHeadings u maxLevel content)

def markdownHeadingAnchors (content : Text) (existing : List ExistingAnchor)
    (anchorPrefix kind : Text) (maxAnchors maxLevel : Int) : List Anchor :=
  if content = [] ∨ maxAnchors ≤ 0 ∨ maxLevel ≤ 0 then []
  else
    let x : Extraction :=
      { anchorPrefix := anchorPrefix, kind := kind, existing := existing
        total := (splitlines content).length }
    x.anchorsFrom u 1 x.existingNames (limitedHeadings u maxAnchors maxLevel content)

end Cognis.AnchoredOutput
