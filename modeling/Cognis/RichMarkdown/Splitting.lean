import Cognis.Library.PythonText
import Cognis.Library.Regex

namespace Cognis.RichMarkdown

open PythonText

/-- What `urlsplit` returns. -/
structure SplitResult where
  scheme : Text
  netloc : Text
  path : Text
  query : Text
  fragment : Text

/-- The functions of `urllib.parse`; `urlsplit` gives nothing where it raises a `ValueError`. -/
structure UrlParse where
  urlsplit : Text → Option SplitResult
  quote : Text → String → Text
  urlunsplit : SplitResult → Text

def safePlainText (value : Text) : Text :=
  value.filter fun c => c == '\n' || c == '\t' || 32 ≤ c.toNat

variable (u : UrlParse) (line : Text) (maxLength : Nat) (text : Text)

def safeUrl (value : Text) : Option Text :=
  let text := strip (safePlainText value)
  if text = [] ∨ text.any isSpace then none
  else
    (u.urlsplit text).bind fun parsed =>
      let scheme := parsed.scheme.map Char.toLower
      if !(["http".toList, "https".toList].contains scheme) || parsed.netloc.isEmpty then none
      else if parsed.netloc.any fun c => 128 ≤ c.toNat then none
      else some (u.urlunsplit {
        scheme := scheme
        netloc := parsed.netloc
        path := u.quote parsed.path "/:@-._~!$&'*+,;=%"
        query := u.quote parsed.query "=&:@-._~!$'*+,;/?%"
        fragment := u.quote parsed.fragment "-._~!$&'*+,;=:@/?%" })

section

/-- Where a text that is too long is cut: at its last newline or blank, but not at its start. -/
def boundaryOf (remaining : Text) : Nat :=
  let window := remaining.take (maxLength + 1)
  let boundary := max (rfind '\n' window) (rfind ' ' window)
  if boundary ≤ 0 then maxLength else boundary.toNat

/-- The first rounds of the loop of `splitPlainText`, and nothing where it goes on after them. -/
def splitPlainFrom (maxLength : Nat) : Nat → Text → Option (List Text)
  | 0, _ => none
  | n + 1, remaining =>
    if remaining = [] then some []
    else if remaining.length ≤ maxLength then some [remaining]
    else
      let boundary := boundaryOf maxLength remaining
      (splitPlainFrom maxLength n (lstrip (remaining.drop boundary))).map
        (rstrip (remaining.take boundary) :: ·)

def splitPlainText : Option (List Text) :=
  splitPlainFrom maxLength (text.length + 1) (strip text)

open Regex in
/-- `!?\[((?:\\.|[^\]])*)\]\(([^)\s]+)\)` -/
def markdownLinkToken : Regex :=
  .chain [optional (lit "!"), lit "[",
    .group 1 (star (.alt (.seq (lit "\\") (.char (· != '\n'))) (.char (· != ']')))), lit "](",
    .group 2 (plus (.char fun c => c != ')' && !isSpace c)), lit ")"]

/-- The next link, after the words before it; `read` are the tokens and where they end. -/
def takeLink (read : List Text × Nat) (found : Regex.Place × Regex.Place) : List Text × Nat :=
  let (tokens, position) := read
  let (start, stop) := found
  let gap := (text.take start.before.length).drop position
  (tokens ++ words gap ++ [start.upTo stop], stop.before.length)

def markdownTokens : List Text :=
  let (tokens, position) := (markdownLinkToken.finditer text).foldl (takeLink text) ([], 0)
  tokens ++ words (text.drop position)

/-- `[token[i : i + size] for i in range(0, len(token), size)]` -/
def slices (size : Nat) (token : Text) : List Text :=
  (List.range ((token.length + size - 1) / size)).map fun i => (token.drop (i * size)).take size

def tokenParts (token : Text) : Option (List Text) :=
  if maxLength < token.length then
    match markdownLinkToken.fullMatch token with
    | some stop =>
      let label := if stop.group 1 = [] then "Link".toList else stop.group 1
      let omitted := splitPlainText maxLength (label ++ " (link omitted: too long)".toList)
      match safeUrl u (stop.group 2) with
      | some url => if url ≠ [] ∧ url.length ≤ maxLength then some [url] else omitted
      | none => omitted
    | none => some (slices maxLength token)
  else some [token]

def flush (chunks : List Text) (current : Text) : List Text :=
  if strip current = [] then chunks else chunks ++ [strip current]

def packPart (packed : List Text × Text) (part : Text) : List Text × Text :=
  let (chunks, current) := packed
  let candidate := current ++ part
  if candidate.length ≤ maxLength then (chunks, candidate)
  else (flush chunks current, lstrip part)

def splitMarkdownText : Option (List Text) :=
  ((markdownTokens text).mapM (tokenParts u maxLength)).map fun parts =>
    let (chunks, current) := parts.flatten.foldl (packPart maxLength) ([], [])
    flush chunks current

def stripBars : Text := (line.dropWhile (· == '|')).rdropWhile (· == '|')

def tableRowToPlain : Text :=
  " | ".toList.intercalate (((stripBars (strip line)).splitOn '|').map strip)

def packRows (header : Text) (rows : List Text) : List Text :=
  let (chunks, current) := rows.foldl (fun (chunks, current) row =>
      let candidate := current ++ '\n' :: row
      if candidate.length ≤ maxLength then (chunks, candidate)
      else (chunks ++ [current], header ++ '\n' :: row))
    ([], header)
  chunks ++ [current]

def splitMarkdownTable (lines : List Text) : Option (List Text) :=
  if lines.length < 2 then splitMarkdownText u maxLength (joinLines lines)
  else
    let header := joinLines (lines.take 2)
    let rows := lines.drop 2
    if maxLength < header.length ∨ rows.any (fun row => maxLength < header.length + row.length + 1)
    then
      let plain := (lines.filter fun line => strip line ≠ []).map tableRowToPlain
      splitPlainText maxLength (joinLines plain)
    else some (packRows maxLength header rows)

end

def backticks : Text := "\x60\x60\x60".toList

def isFence : Bool := backticks.isPrefixOf line

def splitCodeFence (lines : List Text) : Option (List Text) :=
  let opener := lines.headD backticks
  let body := lines.tail
  let body := if body.getLast?.any isFence then body.dropLast else body
  let overhead := opener.length + "\n\n\x60\x60\x60".length
  if maxLength ≤ overhead then splitPlainText maxLength (joinLines body)
  else
    (splitPlainText (maxLength - overhead) (joinLines body)).map fun parts =>
      parts.map fun part => opener ++ '\n' :: (part ++ '\n' :: backticks)

inductive BlockKind where
  | code
  | table
  | text
  deriving DecidableEq

def isRow : Bool := (lstrip line).head? == some '|'

def codeLines : List Text → List Text × List Text
  | [] => ([], [])
  | line :: lines =>
    if isFence line then ([line], lines)
    else (line :: (codeLines lines).1, (codeLines lines).2)

/-- The blocks of the first lines, at most `n` of them. -/
def blocksFrom : Nat → List Text → List (BlockKind × List Text)
  | 0, _ => []
  | _, [] => []
  | n + 1, line :: lines =>
    if isFence line then
      (.code, line :: (codeLines lines).1) :: blocksFrom n (codeLines lines).2
    else if isRow line then
      (.table, (line :: lines).takeWhile isRow) :: blocksFrom n ((line :: lines).dropWhile isRow)
    else
      let isText := fun line => !isFence line && !isRow line
      (.text, (line :: lines).takeWhile isText) :: blocksFrom n ((line :: lines).dropWhile isText)

def splitBlock : BlockKind × List Text → Option (List Text)
  | (.code, lines) => splitCodeFence maxLength lines
  | (.table, lines) => splitMarkdownTable u maxLength lines
  | (.text, lines) => splitMarkdownText u maxLength (joinLines lines)

def splitMarkdown : Option (List Text) :=
  let lines := splitlines text
  ((blocksFrom lines.length lines).mapM (splitBlock u maxLength)).map fun parts =>
    parts.flatten.filter (· ≠ [])

end Cognis.RichMarkdown
