import Cognis.Library.PythonText
import Cognis.Library.Regex

namespace Cognis.JsonUtils

open PythonText

inductive FieldValue where
  | text (value : Text)
  | int (value : Nat)
  /-- The float of some digits. -/
  | float (digits : Text)

/-- `json_codec`; `loads` gives nothing where it raises a `JSONDecodeError`. -/
structure JsonCodec where
  Value : Type
  loads : Text → Option Value
  /-- `isinstance(value, dict)` -/
  isDict : Value → Bool
  /-- A dict of its entries. -/
  ofFields : List (String × FieldValue) → Value

variable (k : JsonCodec) (field : String) (content : Text)

/-- `loads` of the text of an object. -/
def JsonCodec.loadsObject (text : Text) : Option k.Value :=
  (k.loads text).filter k.isDict

section

open Regex

def space : Regex := .char isSpace

/-- `\x60\x60\x60(?:json|JSON)?\s*\n?(.*?)\n?\s*\x60\x60\x60`, where `.` is every character -/
def codeFence : Regex :=
  .chain [lit "\x60\x60\x60", optional (.alt (lit "json") (lit "JSON")), star space,
    optional (lit "\n"), .group 1 (.many false (.char fun _ => true)), optional (lit "\n"),
    star space, lit "\x60\x60\x60"]

/-- `"field"\s*:\s*` -/
def fieldKey : Regex :=
  .chain [lit ("\"" ++ field ++ "\""), star space, lit ":", star space]

/-- `"field"\s*:\s*"([^"]*)"` -/
def quotedField : Regex :=
  .chain [fieldKey field, lit "\"", .group 1 (star (.char (· != '"'))), lit "\""]

/-- `"field"\s*:\s*([0-9]+(?:\.[0-9]+)?)` -/
def numericField : Regex :=
  let digits := plus (.char Char.isDigit)
  .chain [fieldKey field, .group 1 (.seq digits (optional (.seq (lit ".") digits)))]

/-- A character that Python takes for a small letter where it ignores the case. -/
def foldsTo (letter c : Char) : Bool :=
  c.toLower == letter || (letter == 'i' && (c.toNat == 0x130 || c.toNat == 0x131)) ||
    (letter == 's' && c.toNat == 0x17f) || (letter == 'k' && c.toNat == 0x212a)

/-- `(?:^|\n)\s*field\s*[:=]\s*["']?([^"',\n\x7d]+)`, whatever the case -/
def relaxedField : Regex :=
  .chain [.alt .first (lit "\n"), star space,
    .chain (field.toList.map fun letter => .char (foldsTo letter)), star space,
    .char fun c => c == ':' || c == '=', star space,
    optional (.char fun c => c == '"' || c == '\''),
    .group 1 (plus (.char fun c => !"\"',\n\x7d".toList.contains c))]

end

def firstGroup (pattern : Regex) (text : Text) : Option Text :=
  (pattern.search text).map fun found => found.2.group 1

def tryDirectParse : Option k.Value :=
  let cleaned := strip content
  match firstGroup codeFence cleaned with
  | some inner => k.loadsObject (strip inner)
  | none => k.loadsObject cleaned

/-- The number of characters up to the brace that closes the first one. -/
def matchBraces (depth : Int) (inString escapeNext : Bool) : Text → Option Nat
  | [] => none
  | c :: text =>
    if escapeNext then (matchBraces depth inString false text).map (· + 1)
    else if c = '\\' then (matchBraces depth inString inString text).map (· + 1)
    else if c = '"' then (matchBraces depth (!inString) false text).map (· + 1)
    else if inString then (matchBraces depth inString false text).map (· + 1)
    else if c = '\x7b' then (matchBraces (depth + 1) inString false text).map (· + 1)
    else if c = '\x7d' then
      if depth - 1 = 0 then some 1 else (matchBraces (depth - 1) inString false text).map (· + 1)
    else (matchBraces depth inString false text).map (· + 1)

def tryExtractJsonBlock : Option k.Value :=
  let block := content.dropWhile (· != '\x7b')
  (matchBraces 0 false false block).bind fun length => k.loadsObject (block.take length)

def commonFields : List String :=
  ["decision", "reasoning", "feedback", "workflow_id", "confidence", "reason"]

def coerceNumber (value : Text) : FieldValue :=
  if '.' ∈ value then .float value else .int (Nat.ofDigitChars 10 value 0)

def isQuote (c : Char) : Bool := c == '"' || c == '\''

def fieldOf (field : String) : Option FieldValue :=
  match firstGroup (quotedField field) content with
  | some value => some (.text value)
  | none =>
    match firstGroup (numericField field) content with
    | some value => some (coerceNumber value)
    | none =>
      (firstGroup (relaxedField field) content).map fun value =>
        .text (((strip value).dropWhile isQuote).rdropWhile isQuote)

def tryRegexFields : Option k.Value :=
  let fields := commonFields.filterMap fun field => (fieldOf content field).map (field, ·)
  if fields.isEmpty then none else some (k.ofFields fields)

inductive Method where
  | direct
  | jsonBlock
  | regexFields
  deriving DecidableEq

def extractJsonObject : Except String (Method × k.Value) :=
  if strip content = [] then .error "Empty content"
  else
    match tryDirectParse k content with
    | some value => .ok (.direct, value)
    | none =>
      match tryExtractJsonBlock k content with
      | some value => .ok (.jsonBlock, value)
      | none =>
        match tryRegexFields k content with
        | some value => .ok (.regexFields, value)
        | none => .error "Could not extract JSON object from LLM response"

/-- The dict that is returned. -/
def extracted : Option k.Value :=
  (extractJsonObject k content).toOption.map Prod.snd

end Cognis.JsonUtils
