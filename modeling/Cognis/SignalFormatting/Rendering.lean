import Mathlib.Data.Prod.Lex
import Cognis.Library.Regex
import Cognis.Library.SortByKey
import Cognis.SignalFormatting.Chunking

namespace Cognis.SignalFormatting

open List Option PythonText

/-- What Python's strings know of characters. -/
structure CharacterData where
  isAlnum : Char → Bool
  isDigit : Char → Bool
  /-- `\d` of a pattern. -/
  isDecimal : Char → Bool

def Span.shift (span : Span) (offset : Nat) : Span :=
  { span with start := span.start + offset, stop := span.stop + offset }

def shiftSpans (spans : List Span) (offset : Nat) : List Span := spans.map (·.shift offset)

variable (r : Rendered) (u : CharacterData) (line text : Text)

def fullSpan (style : Style) (block : Bool) : List Span :=
  if text = [] then [] else [⟨0, text.length, style, block⟩]

def appendText (suffix : Text) : Rendered := { r with text := r.text ++ suffix }

def prefixRendered (lead : Text) : Rendered :=
  { text := lead ++ r.text, spans := shiftSpans r.spans lead.length }

def Rendered.append (s : Rendered) : Rendered :=
  { text := r.text ++ s.text, spans := r.spans ++ shiftSpans s.spans r.text.length }

def joinRendered (separator : Text) : List Rendered → Rendered
  | [] => ⟨[], []⟩
  | part :: parts => parts.foldl (fun joined part => (appendText joined separator).append part) part

def Style.rank : Style → Nat
  | .bold => 0
  | .italic => 1
  | .monospace => 2
  | .spoiler => 3
  | .strikethrough => 4

def mergeSpan (merged : List Span) (span : Span) : List Span :=
  if span.stop ≤ span.start then merged
  else
    match merged.getLast? with
    | some last =>
      if last.style = span.style ∧ last.block = span.block ∧ span.start ≤ last.stop then
        merged.dropLast ++ [{ span with start := last.start, stop := max last.stop span.stop }]
      else merged ++ [span]
    | none => merged ++ [span]

def mergeAdjacentSpans : Rendered :=
  let key (span : Span) : ℕ ×ₗ (ℕ ×ₗ ℕ) :=
    toLex (span.style.rank, toLex (span.start, span.stop))
  { r with spans := (SortByKey.sortBy key r.spans).foldl mergeSpan [] }

def canUseEmphasisDelimiter (previous : Option Char) (text : Text) (length : Nat) : Bool :=
  let next := text[length]?
  if length = 1 ∧ text.head? = some '_' ∧ previous.any u.isAlnum ∧ next.any u.isAlnum then false
  else if length = 1 ∧ text.head? = some '*' ∧ previous.any u.isDigit ∧ next.any u.isDigit then
    false
  else
    match next with
    | none => false
    | some c => !isSpace c && !(previous.any isSpace && ",.!?:;)]\x7d".toList.contains c)

def nextInlineToken (previous : Option Char) (text : Text) : Option (Style × Text) :=
  if "\x60".toList.isPrefixOf text then some (.monospace, "\x60".toList)
  else if "**".toList.isPrefixOf text ∧ canUseEmphasisDelimiter u previous text 2 then
    some (.bold, "**".toList)
  else if "~~".toList.isPrefixOf text then some (.strikethrough, "~~".toList)
  else if "||".toList.isPrefixOf text then some (.spoiler, "||".toList)
  else if text.head? = some '*' ∧ canUseEmphasisDelimiter u previous text 1 then
    some (.italic, "*".toList)
  else if text.head? = some '_' ∧ canUseEmphasisDelimiter u previous text 1 then
    some (.italic, "_".toList)
  else none

def findUnescaped (needle : Char) : Text → Option Nat
  | [] => none
  | [c] => if c ≠ '\\' ∧ c = needle then some 0 else none
  | c :: d :: text =>
    if c = '\\' then (findUnescaped needle text).map (· + 2)
    else if c = needle then some 0
    else (findUnescaped needle (d :: text)).map (· + 1)

def findLinkUrlEnd (depth : Nat) : Text → Option Nat
  | [] => none
  | [c] => if c = ')' ∧ depth = 0 then some 0 else none
  | c :: d :: text =>
    if c = '\\' then (findLinkUrlEnd depth text).map (· + 2)
    else if c = '(' then (findLinkUrlEnd (depth + 1) (d :: text)).map (· + 1)
    else if c = ')' then
      if depth = 0 then some 0 else (findLinkUrlEnd (depth - 1) (d :: text)).map (· + 1)
    else (findLinkUrlEnd depth (d :: text)).map (· + 1)

def linkAt : Option (Text × Text × Nat) :=
  match text with
  | '[' :: inner =>
    (findUnescaped ']' inner).bind fun labelEnd =>
      match inner.drop (labelEnd + 1) with
      | '(' :: target =>
        (findLinkUrlEnd 0 target).map fun urlEnd =>
          (inner.take labelEnd, strip (target.take urlEnd), labelEnd + urlEnd + 4)
      | _ => none
  | _ => none

def codeSpanAt : Option (Text × Nat) :=
  (findUnescaped '\x60' (text.drop 1)).map fun stop => ((text.drop 1).take stop, stop + 2)

def linkSuffix (url : Text) : Text :=
  if url = [] ∨ strip r.text = url then [] else " (".toList ++ url ++ ")".toList

/-- `_full_span` of an inline style, after what it is of. -/
def styled (style : Style) : Rendered :=
  { r with spans := r.spans ++ fullSpan r.text style false }

theorem length_drop_lt_cons (c : Char) (rest : Text) (n : Nat) :
    (rest.drop n).length < (c :: rest).length := by
  simp only [length_drop, length_cons]
  omega

variable {text : Text} {r : Rendered}

theorem labelOf_linkAt {label url : Text} {length : Nat}
    (h : linkAt text = some (label, url, length)) : label.length < text.length := by
  unfold linkAt at h
  split at h
  · obtain ⟨labelEnd, -, hrest⟩ := bind_eq_some_iff.mp h
    split at hrest
    · obtain ⟨urlEnd, -, heq⟩ := map_eq_some_iff.mp hrest
      obtain ⟨rfl, -⟩ := Prod.mk.inj heq
      rw [length_take, length_cons]
      omega
    · cases hrest
  · cases h

/-- `_parse_inline` from a place on: what comes before it, and what has been rendered. The result
has what is left of the text, and whether the delimiter was found. -/
def parseInline (u : CharacterData) (stop : Option Text) (done : Rendered)
    (previous : Option Char) : Text → Rendered × Text × Bool
  | [] => (done, [], stop.isNone)
  | c :: rest =>
    if stop.any (·.isPrefixOf (c :: rest)) then
      (done, (c :: rest).drop (stop.getD []).length, true)
    else if c = '\\' then
      match rest with
      | [] => (appendText done ['\\'], [], stop.isNone)
      | d :: rest' => parseInline u stop (appendText done [d]) (some d) rest'
    else
      match hlink : linkAt (c :: rest) with
      | some (label, url, length) =>
        let rendered := mergeAdjacentSpans (parseInline u none ⟨[], []⟩ none label).1
        parseInline u stop (done.append (appendText rendered (linkSuffix rendered url)))
          ((c :: rest).take length).getLast? (rest.drop (length - 1))
      | none =>
        match nextInlineToken u previous (c :: rest) with
        | none => parseInline u stop (appendText done [c]) (some c) rest
        | some (style, delimiter) =>
          match (if style = .monospace then codeSpanAt (c :: rest) else none) with
          | some (inner, length) =>
            parseInline u stop (done.append (styled ⟨inner, []⟩ .monospace))
              ((c :: rest).take length).getLast? (rest.drop (length - 1))
          | none =>
            let parsed := parseInline u (some delimiter) ⟨[], []⟩ delimiter.getLast?
              (rest.drop (delimiter.length - 1))
            if parsed.2.2 then
              let used := rest.length - parsed.2.1.length
              parseInline u stop (done.append (styled parsed.1 style))
                ((c :: rest).take (used + 1)).getLast? (rest.drop used)
            else parseInline u stop (appendText done [c]) (some c) rest
termination_by text => text.length
decreasing_by
  all_goals
    first
      | exact labelOf_linkAt hlink
      | exact length_drop_lt_cons _ _ _
      | simp only [length_cons]; omega

def renderInline (text : Text) : Rendered :=
  mergeAdjacentSpans (parseInline u none ⟨[], []⟩ none text).1

section

open Regex

def space : Regex := .char isSpace

def anyText : Regex := star (.char (· != '\n'))

/-- `^(#{1,6})\s+(.*)$` -/
def headingPattern : Regex :=
  let hash := .char (· == '#')
  .chain [.first, .group 1 (.seq hash (atMost hash 5)), plus space, .group 2 anyText, .last]

/-- `^\s*([-*_])(?:\s*\1){2,}\s*$` -/
def rulePattern : Regex :=
  let again := .seq (star space) (.backref 1)
  .chain [.first, star space, .group 1 (.char fun c => "-*_".toList.contains c), again, again,
    star again, star space, .last]

/-- `^(\s*)([-*+])\s+(.*)$` -/
def unorderedPattern : Regex :=
  .chain [.first, .group 1 (star space), .group 2 (.char fun c => "-*+".toList.contains c),
    plus space, .group 3 anyText, .last]

/-- `^(\s*)(\d+)\.\s+(.*)$` -/
def orderedPattern : Regex :=
  .chain [.first, .group 1 (star space), .group 2 (plus (.char u.isDecimal)), lit ".", plus space,
    .group 3 anyText, .last]

/-- `^\s*>\s?` -/
def quotePattern : Regex := .chain [.first, star space, lit ">", optional space]

end

def startsFence : Bool := "\x60\x60\x60".toList.isPrefixOf (lstrip line)

def indentOf : Nat := line.length - (lstrip line).length

def closesFence (indent : Nat) (candidate : Text) : Bool :=
  startsFence candidate && indentOf candidate ≤ indent

def isQuote : Bool := (lstrip line).head? == some '>'

/-- `str.strip("\n")` -/
def stripNewlines (text : Text) : Text := (text.dropWhile (· == '\n')).rdropWhile (· == '\n')

def renderFence (codeLines : List Text) : Rendered :=
  let codeText := stripNewlines (joinLines codeLines)
  ⟨codeText, fullSpan codeText .monospace true⟩

def renderHeading (title : Text) : Option Rendered :=
  let rendered := renderInline u (strip title)
  if rendered.text = [] then none else some (mergeAdjacentSpans (styled rendered .bold))

def renderQuoteLine : Rendered :=
  let body := ((quotePattern.matchStart line).map (·.after)).getD line
  prefixRendered (renderInline u body) "> ".toList

/-- An item of a list whose pattern has three groups; `mark` is put after the second. -/
def renderItem (mark : String) (place : Regex.Place) : Rendered :=
  prefixRendered (renderInline u (strip (place.group 3)))
    (place.group 1 ++ place.group 2 ++ mark.toList)

def itemsOf (pattern : Regex) : List Text → List Regex.Place
  | [] => []
  | line :: lines =>
    match pattern.matchStart line with
    | some place => place :: itemsOf pattern lines
    | none => []

def isParagraphLine : Bool :=
  let stripped := strip line
  !stripped.isEmpty && !startsFence line && (headingPattern.matchStart stripped).isNone &&
    (rulePattern.matchStart stripped).isNone && stripped.head? != some '>' &&
    (unorderedPattern.matchStart line).isNone && ((orderedPattern u).matchStart line).isNone

def renderLines (u : CharacterData) : List Text → List Rendered
  | [] => []
  | line :: lines =>
    let stripped := strip line
    if stripped = [] then renderLines u lines
    else if startsFence line then
      let codeLines := lines.takeWhile (!closesFence (indentOf line) ·)
      renderFence codeLines :: renderLines u (lines.drop (codeLines.length + 1))
    else
      match headingPattern.matchStart stripped with
      | some place => (renderHeading u (place.group 2)).toList ++ renderLines u lines
      | none =>
        if (rulePattern.matchStart stripped).isSome then renderLines u lines
        else if stripped.head? = some '>' then
          let quoted := lines.takeWhile isQuote
          joinRendered "\n".toList ((line :: quoted).map (renderQuoteLine u)) ::
            renderLines u (lines.drop quoted.length)
        else
          let items := itemsOf unorderedPattern (line :: lines)
          let numbered := itemsOf (orderedPattern u) (line :: lines)
          if items ≠ [] then
            joinRendered "\n".toList (items.map (renderItem u " ")) ::
              renderLines u (lines.drop (items.length - 1))
          else if numbered ≠ [] then
            joinRendered "\n".toList (numbered.map (renderItem u ". ")) ::
              renderLines u (lines.drop (numbered.length - 1))
          else
            let paragraph := lines.takeWhile (isParagraphLine u)
            renderInline u (joinLines ((line :: paragraph).map strip)) ::
              renderLines u (lines.drop paragraph.length)
termination_by lines => lines.length
decreasing_by
  all_goals
    simp only [length_drop, length_cons]
    omega

/-- `"\r\n"` and `"\r"` as `"\n"`. -/
def normalizeNewlines : Text → Text
  | [] => []
  | '\r' :: '\n' :: text => '\n' :: normalizeNewlines text
  | c :: text => (if c = '\r' then '\n' else c) :: normalizeNewlines text

def renderBlocks (content : Text) : Rendered :=
  let normalized := strip (normalizeNewlines content)
  if normalized = [] then ⟨[], []⟩
  else mergeAdjacentSpans
    (joinRendered "\n\n".toList (renderLines u (normalized.splitOn '\n')))

def Inside (r : Rendered) : Prop :=
  ∀ span ∈ r.spans, span.start < span.stop ∧ span.stop ≤ r.text.length

theorem inside_nil (text : Text) : Inside ⟨text, []⟩ := by
  intro span hspan
  cases hspan

theorem Inside.appendText (h : Inside r) (suffix : Text) :
    Inside (appendText r suffix) := by
  intro span hspan
  have hbounds := h span hspan
  simp only [SignalFormatting.appendText, length_append]
  omega

theorem Inside.append {s : Rendered} (hr : Inside r) (hs : Inside s) : Inside (r.append s) := by
  intro span hspan
  simp only [Rendered.append, length_append]
  obtain hspan | hspan := mem_append.mp hspan
  · have hbounds := hr span hspan
    omega
  · obtain ⟨inner, hinner, rfl⟩ := mem_map.mp hspan
    have hbounds := hs inner hinner
    simp only [Span.shift]
    omega

theorem Inside.prefixRendered (h : Inside r) (lead : Text) :
    Inside (prefixRendered r lead) := by
  have hlead : Inside (Rendered.append ⟨lead, []⟩ r) := (inside_nil lead).append h
  exact hlead

theorem mem_fullSpan {style : Style} {block : Bool} {span : Span}
    (h : span ∈ fullSpan text style block) : span.start < span.stop ∧ span.stop = text.length := by
  unfold fullSpan at h
  split at h
  · cases h
  · rename_i hne
    obtain rfl := mem_singleton.mp h
    exact ⟨length_pos_of_ne_nil hne, rfl⟩

theorem Inside.styled (h : Inside r) (style : Style) : Inside (styled r style) := by
  intro span hspan
  obtain hspan | hspan := mem_append.mp hspan
  · exact h span hspan
  · obtain ⟨hlt, hstop⟩ := mem_fullSpan hspan
    exact ⟨hlt, Nat.le_of_eq hstop⟩

theorem mergeSpan_inside {merged : List Span} {span : Span}
    (h : Inside ⟨text, merged⟩) (hstop : span.stop ≤ text.length) :
    Inside ⟨text, mergeSpan merged span⟩ := by
  unfold mergeSpan
  split
  · exact h
  · rename_i hlt
    have hspan : Inside ⟨text, merged ++ [span]⟩ := by
      intro other hother
      obtain hother | hother := mem_append.mp hother
      · exact h other hother
      · obtain rfl := mem_singleton.mp hother
        exact ⟨Nat.lt_of_not_le hlt, hstop⟩
    split
    · rename_i last hlast
      split
      · have hbounds := h last (mem_of_getLast? hlast)
        intro other hother
        obtain hother | hother := mem_append.mp hother
        · exact h other (dropLast_subset _ hother)
        · obtain rfl := mem_singleton.mp hother
          dsimp only at hbounds ⊢
          omega
      · exact hspan
    · exact hspan

theorem Inside.mergeAdjacentSpans (h : Inside r) : Inside (mergeAdjacentSpans r) := by
  unfold SignalFormatting.mergeAdjacentSpans
  dsimp only
  generalize hspans : SortByKey.sortBy (fun span : Span =>
    (toLex (span.style.rank, toLex (span.start, span.stop)) : ℕ ×ₗ (ℕ ×ₗ ℕ))) r.spans = spans
  have hsorted : ∀ span ∈ spans, span.stop ≤ r.text.length := by
    intro span hspan
    rw [← hspans, SortByKey.mem_sortBy] at hspan
    exact (h span hspan).2
  clear hspans
  have hmerged : ∀ merged, Inside ⟨r.text, merged⟩ →
      Inside ⟨r.text, spans.foldl mergeSpan merged⟩ := by
    induction spans with
    | nil => exact fun merged hmerged => hmerged
    | cons span spans ih =>
      intro merged hmerged
      exact ih (fun other hother => hsorted other (mem_cons_of_mem _ hother)) _
        (mergeSpan_inside hmerged (hsorted span mem_cons_self))
  exact hmerged [] (inside_nil _)

variable (u : CharacterData)

theorem parseInline_inside (stop : Option Text) {done : Rendered}
    (previous : Option Char) (text : Text) (h : Inside done) :
    Inside (parseInline u stop done previous text).1 := by
  fun_induction parseInline u stop done previous text with
  | case1 | case2 => exact h
  | case3 => exact h.appendText _
  | case4 _ _ _ _ _ _ ih | case6 _ _ _ _ _ _ _ _ _ ih | case9 _ _ _ _ _ _ _ _ _ _ _ _ _ _ _ ih =>
    exact ih (h.appendText _)
  | case5 _ _ _ _ _ _ _ _ _ _ _ rendered ihLabel ih =>
    have hlabel : Inside rendered := (ihLabel (inside_nil [])).mergeAdjacentSpans
    exact ih (h.append (hlabel.appendText _))
  | case7 _ _ _ _ _ _ _ _ _ _ _ inner _ _ ih =>
    exact ih (h.append ((inside_nil inner).styled _))
  | case8 _ _ _ _ _ _ _ _ style _ _ _ parsed _ _ ihInner ih =>
    have hparsed : Inside parsed.1 := ihInner (inside_nil [])
    exact ih (h.append (hparsed.styled style))

theorem renderInline_inside (text : Text) : Inside (renderInline u text) :=
  (parseInline_inside u none none text (inside_nil [])).mergeAdjacentSpans

theorem joinRendered_inside {separator : Text} {parts : List Rendered}
    (h : ∀ part ∈ parts, Inside part) : Inside (joinRendered separator parts) := by
  cases parts with
  | nil => exact inside_nil []
  | cons part parts =>
    obtain ⟨hpart, hparts⟩ := forall_mem_cons.mp h
    clear h
    induction parts generalizing part with
    | nil => exact hpart
    | cons next parts ih =>
      obtain ⟨hnext, hparts⟩ := forall_mem_cons.mp hparts
      exact ih _ ((hpart.appendText separator).append hnext) hparts

theorem renderFence_inside (codeLines : List Text) : Inside (renderFence codeLines) := by
  intro span hspan
  obtain ⟨hlt, hstop⟩ := mem_fullSpan hspan
  exact ⟨hlt, Nat.le_of_eq hstop⟩

theorem renderHeading_inside {u : CharacterData} {title : Text} {rendered : Rendered}
    (h : renderHeading u title = some rendered) : Inside rendered := by
  unfold renderHeading at h
  dsimp only at h
  split at h
  · cases h
  · cases h
    exact ((renderInline_inside u _).styled .bold).mergeAdjacentSpans

theorem renderLines_inside (lines : List Text) : ∀ block ∈ renderLines u lines, Inside block := by
  fun_induction renderLines u lines with
  | case1 => simp
  | case2 _ _ _ _ ih | case5 _ _ _ _ _ _ _ ih => exact ih
  | case3 _ _ _ _ _ codeLines ih =>
    exact forall_mem_cons.mpr ⟨renderFence_inside codeLines, ih⟩
  | case4 _ _ _ _ _ place _ ih =>
    intro block hblock
    obtain hblock | hblock := mem_append.mp hblock
    · exact renderHeading_inside (mem_toList.mp hblock)
    · exact ih block hblock
  | case6 _ _ _ _ _ _ _ _ quoted ih =>
    refine forall_mem_cons.mpr ⟨joinRendered_inside ?_, ih⟩
    intro part hpart
    obtain ⟨line, -, rfl⟩ := mem_map.mp hpart
    exact (renderInline_inside u _).prefixRendered _
  | case7 _ _ _ _ _ _ _ _ items _ ih | case8 _ _ _ _ _ _ _ _ _ numbered _ _ ih =>
    refine forall_mem_cons.mpr ⟨joinRendered_inside ?_, ih⟩
    intro part hpart
    obtain ⟨place, -, rfl⟩ := mem_map.mp hpart
    exact (renderInline_inside u _).prefixRendered _
  | case9 _ _ _ _ _ _ _ _ _ _ _ _ paragraph ih =>
    exact forall_mem_cons.mpr ⟨renderInline_inside u _, ih⟩

theorem renderBlocks_inside (content : Text) : Inside (renderBlocks u content) := by
  unfold renderBlocks
  dsimp only
  split
  · exact inside_nil []
  · exact (joinRendered_inside (renderLines_inside u _)).mergeAdjacentSpans

end Cognis.SignalFormatting
