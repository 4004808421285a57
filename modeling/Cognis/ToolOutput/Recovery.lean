import Cognis.Library.PythonText

namespace Cognis.ToolOutput

open PythonText

def isSafeAnchorChar (c : Char) : Bool := c.isAlphanum || "._:-".toList.contains c

/-- `_SAFE_ANCHOR_RE.sub("-", value.strip()).strip("-")[:120].rstrip("-")`. -/
def anchorName (value : Text) : Text :=
  let name := stripOf (· == '-') (dashRuns isSafeAnchorChar false (strip value))
  (name.take 120).rdropWhile (· == '-')

def maxInlineAnchors : Nat := 5

def formatRecoveryHint (repr : String → String) (callId : String) (anchorNames : List String)
    (anchorsAvailable legacy : Bool) : String :=
  let quoted := repr callId
  if legacy then
    let listing := "list_tool_output_anchors(call_id=" ++ quoted ++ ")"
    let calls :=
      ["read_tool_output(call_id=" ++ quoted ++ ")",
        "search_tool_output(call_id=" ++ quoted ++ ", pattern='error|timeout|keyword')"] ++
      match anchorNames with
      | name :: _ =>
        [listing, "read_tool_output_anchor(call_id=" ++ quoted ++ ", anchor=" ++ repr name ++ ")"]
      | [] => if anchorsAvailable then [listing] else []
    "Recover with call_id " ++ quoted ++ ": " ++ ", ".intercalate calls ++ "."
  else
    let hint := "Recover only if needed: read_tool_output(call_id=" ++ quoted ++ ")."
    if anchorNames ≠ [] then
      let remaining := anchorNames.length - maxInlineAnchors
      hint ++ " Anchors: " ++ ", ".intercalate (anchorNames.take maxInlineAnchors) ++
        (if 0 < remaining then ", +" ++ toString remaining ++ " more" else "") ++ "."
    else if anchorsAvailable then hint ++ " Anchors available."
    else hint

end Cognis.ToolOutput
