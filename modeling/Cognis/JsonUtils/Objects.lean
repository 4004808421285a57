import Mathlib.Tactic.Linarith
import Cognis.JsonUtils.Extraction

namespace Cognis.JsonUtils

open Bool Option PythonText

variable {c : Char} {inner rest : Text}

/-- What is between the quotes of a string. -/
inductive StringBody : Text → Prop where
  | nil : StringBody []
  | char {c : Char} {s : Text} (hquote : c ≠ '"') (hslash : c ≠ '\\') :
      StringBody s → StringBody (c :: s)
  | escape {c : Char} {s : Text} : StringBody s → StringBody ('\\' :: c :: s)

/-- The characters of numbers and of names such as `true`. -/
def isScalar (c : Char) : Bool := c.isAlphanum || c == '-' || c == '+' || c == '.'

def isJsonBlank (c : Char) : Bool := c == ' ' || c == '\t' || c == '\n' || c == '\r'

inductive Part where
  | value
  | items
  | members

inductive JsonText : Part → Text → Prop where
  | scalar {s : Text} (h : ∀ c ∈ s, isScalar c = true) : JsonText .value s
  | string {s : Text} : StringBody s → JsonText .value ('"' :: (s ++ ['"']))
  | array {s : Text} : JsonText .items s → JsonText .value ('[' :: (s ++ [']']))
  | object {s : Text} : JsonText .members s → JsonText .value ('\x7b' :: (s ++ ['\x7d']))
  | noItems {s : Text} (h : ∀ c ∈ s, isJsonBlank c = true) : JsonText .items s
  | item {s v t : Text} (hs : ∀ c ∈ s, isJsonBlank c = true)
      (ht : ∀ c ∈ t, isJsonBlank c = true) : JsonText .value v → JsonText .items (s ++ (v ++ t))
  | items {s t : Text} : JsonText .items s → JsonText .items t → JsonText .items (s ++ ',' :: t)
  | noMembers {s : Text} (h : ∀ c ∈ s, isJsonBlank c = true) : JsonText .members s
  | member {s key t v : Text} (hs : ∀ c ∈ s, isJsonBlank c = true)
      (ht : ∀ c ∈ t, isJsonBlank c = true) : StringBody key → JsonText .items v →
      JsonText .members (s ++ ('"' :: (key ++ ['"']) ++ (t ++ ':' :: v)))
  | members {s t : Text} :
      JsonText .members s → JsonText .members t → JsonText .members (s ++ ',' :: t)

def ObjectText (text : Text) : Prop :=
  ∃ s, text = '\x7b' :: (s ++ ['\x7d']) ∧ JsonText .members s

def JsonCodec.Sound (k : JsonCodec) : Prop :=
  ∀ text value, k.loadsObject text = some value → ∃ s object t, text = s ++ (object ++ t) ∧
    (∀ c ∈ s, isJsonBlank c = true) ∧ (∀ c ∈ t, isJsonBlank c = true) ∧ ObjectText object

section

variable {s t : Text}

def Neutral (s : Text) : Prop :=
  ∀ depth : Int, 1 ≤ depth → ∀ rest, matchBraces depth false false (s ++ rest) =
    (matchBraces depth false false rest).map (· + s.length)

theorem Neutral.nil : Neutral [] := by
  intro depth _ rest
  simp

theorem Neutral.append (hs : Neutral s) (ht : Neutral t) : Neutral (s ++ t) := by
  intro depth hdepth rest
  rw [List.append_assoc, hs depth hdepth, ht depth hdepth, map_map, List.length_append]
  congr 1
  funext n
  simp only [Function.comp_apply]
  omega

/-- A character that is no brace, quote or backslash. -/
def isPlain (c : Char) : Bool := c != '\\' && c != '"' && c != '\x7b' && c != '\x7d'

theorem neutral_plain (h : ∀ c ∈ s, isPlain c) : Neutral s := by
  induction s with
  | nil => exact Neutral.nil
  | cons c s ih =>
    obtain ⟨hc, hs⟩ := List.forall_mem_cons.mp h
    have hone : Neutral [c] := by
      intro depth _ rest
      simp only [isPlain, and_eq_true, bne_iff_ne] at hc
      obtain ⟨⟨⟨hslash, hquote⟩, hopen⟩, hclose⟩ := hc
      simp [matchBraces, hslash, hquote, hopen, hclose]
    exact hone.append (ih hs)

theorem isPlain_of_isScalar (h : isScalar c) : isPlain c := by
  unfold isPlain
  simp only [and_eq_true, bne_iff_ne]
  refine ⟨⟨⟨?_, ?_⟩, ?_⟩, ?_⟩
  all_goals
    rintro rfl
    revert h
    decide

theorem isPlain_of_isJsonBlank (h : isJsonBlank c) : isPlain c := by
  unfold isPlain
  simp only [and_eq_true, bne_iff_ne]
  refine ⟨⟨⟨?_, ?_⟩, ?_⟩, ?_⟩
  all_goals
    rintro rfl
    revert h
    decide

theorem neutral_blank (h : ∀ c ∈ s, isJsonBlank c) : Neutral s :=
  neutral_plain fun c hc => isPlain_of_isJsonBlank (h c hc)

theorem matchBraces_string (h : StringBody s) (depth : Int) (rest : Text) :
    matchBraces depth true false (s ++ '"' :: rest) =
      (matchBraces depth false false rest).map (· + (s.length + 1)) := by
  induction h with
  | nil => simp [matchBraces]
  | char hquote hslash _ ih =>
    rw [List.cons_append, matchBraces]
    simp only [hquote, hslash, false_eq_true, if_false, if_true, ih, map_map,
      List.length_cons]
    congr 1
  | escape _ ih => simp [matchBraces, ih, Function.comp_def, Nat.add_assoc]

theorem neutral_string (h : StringBody s) : Neutral ('"' :: (s ++ ['"'])) := by
  intro depth _ rest
  rw [List.cons_append, List.append_assoc, matchBraces]
  simp [matchBraces_string h, Function.comp_def, Nat.add_assoc]

theorem neutral_braces (h : Neutral s) : Neutral ('\x7b' :: (s ++ ['\x7d'])) := by
  intro depth hdepth rest
  have hinner := h (depth + 1) (by omega) ('\x7d' :: rest)
  have hclose : matchBraces (depth + 1) false false ('\x7d' :: rest) =
      (matchBraces depth false false rest).map (· + 1) := by
    have hne : depth ≠ 0 := by omega
    simp [matchBraces, hne]
  rw [List.cons_append, List.append_assoc, matchBraces]
  simp only [hinner, hclose, List.singleton_append, List.length_cons, List.length_append,
    List.length_nil, false_eq_true, if_false, Char.reduceEq, if_true, map_map]
  congr 1
  funext n
  simp only [Function.comp_apply]
  omega

theorem neutral_one (h : isPlain c) : Neutral [c] :=
  neutral_plain fun d hd => by rwa [List.mem_singleton.mp hd]

theorem JsonText.neutral {part : Part} (h : JsonText part s) : Neutral s := by
  induction h with
  | scalar h => exact neutral_plain fun c hc => isPlain_of_isScalar (h c hc)
  | string h => exact neutral_string h
  | array _ ih => exact (neutral_one (by decide)).append (ih.append (neutral_one (by decide)))
  | object _ ih => exact neutral_braces ih
  | noItems h | noMembers h => exact neutral_blank h
  | item hs ht _ ih => exact (neutral_blank hs).append (ih.append (neutral_blank ht))
  | items _ _ ihs iht | members _ _ ihs iht =>
    exact ihs.append ((neutral_one (by decide)).append iht)
  | member hs ht hkey _ ih =>
    have hvalue : Neutral (':' :: _) := (neutral_one (by decide)).append ih
    exact (neutral_blank hs).append
      ((neutral_string hkey).append ((neutral_blank ht).append hvalue))

theorem ObjectText.matchBraces (h : ObjectText s) (rest : Text) :
    matchBraces 0 false false (s ++ rest) = some s.length := by
  obtain ⟨members, rfl, hmembers⟩ := h
  have hinner := hmembers.neutral 1 (le_refl 1) ('\x7d' :: rest)
  have hclose : JsonUtils.matchBraces 1 false false ('\x7d' :: rest) = some 1 := by
    simp [JsonUtils.matchBraces]
  rw [List.cons_append, List.append_assoc, JsonUtils.matchBraces]
  simp [hinner, hclose, Nat.add_comm]

theorem ObjectText.eq_of_isPrefix (hs : ObjectText s) (ht : ObjectText t) (h : s <+: t) :
    s = t := by
  obtain ⟨rest, rfl⟩ := h
  have hlong := ht.matchBraces []
  rw [List.append_nil, hs.matchBraces rest] at hlong
  have hlength := some.inj hlong
  rw [List.length_append] at hlength
  have hrest : rest = [] := List.length_eq_zero_iff.mp (by omega)
  rw [hrest, List.append_nil]

end

section

variable {s t : Text}

theorem isSpace_of_isJsonBlank (h : isJsonBlank c) : isSpace c := by
  simp only [isJsonBlank, or_eq_true, beq_iff_eq] at h
  obtain ((rfl | rfl) | rfl) | rfl := h
  all_goals decide

theorem ObjectText.exists_cons (h : ObjectText s) : ∃ rest, s = '\x7b' :: rest := by
  obtain ⟨members, rfl, -⟩ := h
  exact ⟨_, rfl⟩

theorem ObjectText.lstrip_append (h : ObjectText s) (before after : Text)
    (hbefore : ∀ c ∈ before, isSpace c) :
    lstrip (before ++ (s ++ after)) = s ++ after := by
  obtain ⟨rest, rfl⟩ := h.exists_cons
  rw [List.cons_append, lstrip_append_cons (by decide), lstrip_eq_nil hbefore, List.nil_append]

theorem ObjectText.strip_append (h : ObjectText s) {before after : Text}
    (hbefore : ∀ c ∈ before, isSpace c) (hafter : ∀ c ∈ after, isSpace c) :
    strip (before ++ (s ++ after)) = s := by
  rw [strip, h.lstrip_append before after hbefore]
  obtain ⟨members, rfl, -⟩ := h
  rw [← List.cons_append, List.append_assoc, List.singleton_append, rstrip_append_cons (by decide),
    rstrip_eq_nil hafter]

theorem JsonCodec.Sound.objectText {k : JsonCodec} (hk : k.Sound) {value : k.Value}
    (hs : strip s = s) (h : k.loadsObject s = some value) : ObjectText s := by
  obtain ⟨before, object, after, heq, hbefore, hafter, hobject⟩ := hk s value h
  have hstrip := hobject.strip_append (fun c hc => isSpace_of_isJsonBlank (hbefore c hc))
    (fun c hc => isSpace_of_isJsonBlank (hafter c hc))
  rw [← heq, hs] at hstrip
  rw [hstrip]
  exact hobject

end

section

def fence : Text := "\x60\x60\x60".toList

def tag : Text := "json".toList

variable {p q : Regex.Place}

theorem codeFence_spec (h : q ∈ codeFence.run p) :
    ∃ label blank inner blank' rest, p.after = fence ++ (label ++ (blank ++ (inner ++
        (blank' ++ (fence ++ rest))))) ∧
      (label = [] ∨ label = tag ∨ label = "JSON".toList) ∧ (∀ c ∈ blank, isSpace c) ∧
      (∀ c ∈ blank', isSpace c) ∧ q.group 1 = inner := by
  simp only [codeFence, Regex.chain, List.foldr_cons, List.foldr_nil, Regex.mem_run_seq,
    Regex.mem_run_lit, Regex.mem_run_optional, Regex.mem_run_group, Regex.mem_run_many_char,
    Regex.mem_run_alt, Regex.mem_run_empty, Regex.star, space] at h
  obtain ⟨opened, hopen, labelled, hlabel, h⟩ := h
  obtain ⟨blanked, ⟨blank, hblank, hblanked⟩, lined, hline, h⟩ := h
  obtain ⟨captured, ⟨read, ⟨inner, -, hinner⟩, rfl⟩, lined', hline', h⟩ := h
  obtain ⟨blanked', ⟨blank', hblank', hblanked'⟩, closed, hclose, rfl⟩ := h
  have hnewline : ∀ c ∈ "\n".toList, isSpace c :=
    List.all_eq_true.mp (by decide)
  obtain ⟨label, hlabels, htag⟩ : ∃ label, (label = [] ∨ label = tag ∨ label = "JSON".toList) ∧
      opened.Takes label labelled := by
    obtain (h | h) | rfl := hlabel
    · exact ⟨_, .inr (.inl rfl), h⟩
    · exact ⟨_, .inr (.inr rfl), h⟩
    · exact ⟨_, .inl rfl, Regex.Place.Takes.refl _⟩
  obtain ⟨newline, hnew, hlined⟩ : ∃ newline, (∀ c ∈ newline, isSpace c) ∧
      blanked.Takes newline lined := by
    obtain h | rfl := hline
    · exact ⟨_, hnewline, h⟩
    · exact ⟨[], by simp, Regex.Place.Takes.refl _⟩
  obtain ⟨newline', hnew', hlined'⟩ : ∃ newline, (∀ c ∈ newline, isSpace c) ∧
      Regex.Place.Takes { read with groups := (1, lined.upTo read) :: read.groups } newline
        lined' := by
    obtain h | rfl := hline'
    · exact ⟨_, hnewline, h⟩
    · exact ⟨[], by simp, Regex.Place.Takes.refl _⟩
  refine ⟨label, blank ++ newline, inner, newline' ++ blank', q.after, ?_, hlabels, ?_, ?_, ?_⟩
  · have hread : read.after = newline' ++ lined'.after := hlined'.after
    rw [hopen.after, htag.after, hblanked.after, hlined.after, hinner.after, hread,
      hblanked'.after, hclose.after]
    simp [fence]
  · exact List.forall_mem_append.mpr ⟨hblank, hnew⟩
  · exact List.forall_mem_append.mpr ⟨hnew', hblank'⟩
  · have hgroups : q.groups = (1, lined.upTo read) :: read.groups := by
      rw [hclose.groups, hblanked'.groups, hlined'.groups]
    rw [Regex.Place.group, hgroups]
    simp [hinner.upTo]

theorem codeFence_matches (h : p.after = fence ++ (tag ++ (inner ++
    (fence ++ rest)))) : codeFence.run p ≠ [] := by
  obtain ⟨opened, hopen, hopened⟩ := Regex.Place.exists_takes h
  obtain ⟨labelled, hlabel, hlabelled⟩ := Regex.Place.exists_takes hopened
  obtain ⟨read, hread, hrest⟩ := Regex.Place.exists_takes hlabelled
  obtain ⟨closed, hclose, -⟩ := Regex.Place.exists_takes
    (p := { read with groups := (1, labelled.upTo read) :: read.groups }) hrest
  have hmem : closed ∈ codeFence.run p := by
    simp only [codeFence, Regex.chain, List.foldr_cons, List.foldr_nil, Regex.mem_run_seq,
      Regex.mem_run_lit, Regex.mem_run_optional, Regex.mem_run_group, Regex.mem_run_many_char,
      Regex.mem_run_alt, Regex.mem_run_empty, Regex.star, space]
    refine ⟨opened, hopen, labelled, .inl (.inl hlabel), labelled,
      ⟨[], by simp, Regex.Place.Takes.refl _⟩, labelled, .inr rfl, _,
      ⟨read, ⟨inner, by simp, hread⟩, rfl⟩, _, .inr rfl, _,
      ⟨[], by simp, Regex.Place.Takes.refl _⟩, closed, hclose, rfl⟩
  exact List.ne_nil_of_mem hmem

end

section

variable {k : JsonCodec} {content before blank text blank' after : Text} {value : k.Value}

theorem extracted_eq (h : strip content ≠ []) : extracted k content =
    ((tryDirectParse k content).or (tryExtractJsonBlock k content)).or
      (tryRegexFields k content) := by
  unfold extracted extractJsonObject
  rw [if_neg h]
  cases tryDirectParse k content with
  | some => rfl
  | none =>
    cases tryExtractJsonBlock k content with
    | some => rfl
    | none =>
      cases tryRegexFields k content with
      | some | none => rfl

theorem extracted_iff_direct (h : strip content ≠ [])
    (hblock : tryExtractJsonBlock k content = some value) : extracted k content = some value ↔
      ∀ value', tryDirectParse k content = some value' → value' = value := by
  rw [extracted_eq h, hblock]
  cases tryDirectParse k content with
  | some | none => simp

theorem tryExtractJsonBlock_eq (after : Text) (hbefore : '\x7b' ∉ before)
    (htext : ObjectText text) (hvalue : k.loadsObject text = some value) :
    tryExtractJsonBlock k (before ++ (text ++ after)) = some value := by
  have hdrop : (before ++ (text ++ after)).dropWhile (· != '\x7b') = text ++ after := by
    have hskip : ∀ c ∈ before, (c != '\x7b') := by
      intro c hc
      rw [bne_iff_ne]
      rintro rfl
      exact hbefore hc
    obtain ⟨rest, rfl⟩ := htext.exists_cons
    rw [List.dropWhile_append_of_pos hskip]
    simp
  unfold tryExtractJsonBlock
  dsimp only
  rw [hdrop, htext.matchBraces after, bind_some, List.take_left', hvalue]
  rfl

def Unhidden (k : JsonCodec) (text : Text) (value : k.Value) : Prop :=
  ∀ inner value', firstGroup codeFence text = some inner →
    k.loadsObject (strip inner) = some value' → value' = value

theorem bare_extracted_iff (hk : k.Sound) (h : k.loadsObject (strip content) = some value) :
    extracted k content = some value ↔ Unhidden k (strip content) value := by
  have hobject := hk.objectText (strip_strip content) h
  have hne : strip content ≠ [] := by
    obtain ⟨rest, hrest⟩ := hobject.exists_cons
    rw [hrest]
    exact List.cons_ne_nil _ _
  obtain ⟨before, after, hcontent, hbefore, -⟩ := exists_eq_append_strip content
  have hbrace : '\x7b' ∉ before := by
    intro hmem
    have hspace := hbefore _ hmem
    revert hspace
    decide
  have hblock := tryExtractJsonBlock_eq after hbrace hobject h
  rw [← hcontent] at hblock
  rw [extracted_iff_direct hne hblock]
  unfold tryDirectParse Unhidden
  dsimp only
  cases firstGroup codeFence (strip content) with
  | some inner =>
    constructor
    · rintro hdirect inner' value' hinner
      cases hinner
      exact hdirect value'
    · intro hunhidden value'
      exact hunhidden inner value' rfl
  | none => simp [h]

def fenced (before blank text blank' after : Text) : Text :=
  before ++ (fence ++ (tag ++ (blank ++ (text ++ (blank' ++ (fence ++ after))))))

theorem strip_fenced (before blank text blank' after : Text) :
    strip (fenced before blank text blank' after) =
      fenced (lstrip before) blank text blank' (rstrip after) := by
  have hlstrip : lstrip (fenced before blank text blank' after) =
      fenced (lstrip before) blank text blank' after := lstrip_append_cons (by decide)
  have hlast (before after : Text) : fenced before blank text blank' after =
      (before ++ (fence ++ (tag ++ (blank ++ (text ++ (blank' ++ "\x60\x60".toList)))))) ++
        '\x60' :: after := by
    simp [fenced, fence]
  rw [strip, hlstrip, hlast, rstrip_append_cons (by decide), ← hlast]

structure Prose (text : Text) : Prop where
  noOpen : '\x7b' ∉ text
  noClose : '\x7d' ∉ text
  noFence : ¬ fence <:+: text

theorem Prose.lstrip (h : Prose text) : Prose (lstrip text) := by
  have hsuffix : PythonText.lstrip text <:+ text := List.dropWhile_suffix _
  exact ⟨fun hmem => h.noOpen (hsuffix.subset hmem), fun hmem => h.noClose (hsuffix.subset hmem),
    fun hfence => h.noFence (hfence.trans hsuffix.isInfix)⟩

theorem lstrip_captured {object : Text} (rest : Text) (hblank : ∀ c ∈ blank, isSpace c)
    (hinner : strip inner = object) (hobject : ObjectText object) :
    ∃ more, PythonText.lstrip (blank ++ (inner ++ rest)) = object ++ more := by
  obtain ⟨lead, trail, heq, hlead, -⟩ := exists_eq_append_strip inner
  rw [hinner] at heq
  have hstrip := hobject.lstrip_append (blank ++ lead) (trail ++ rest)
    (List.forall_mem_append.mpr ⟨hblank, hlead⟩)
  refine ⟨trail ++ rest, ?_⟩
  rw [heq, ← hstrip]
  simp

theorem fence_start {lead more : Text} (hprose : ¬ fence <:+: before)
    (h : lead ++ (fence ++ rest) = before ++ (fence ++ more)) (hle : lead.length ≤ before.length) :
    rest = more ∨ ∃ other, rest = '\x60' :: other := by
  obtain ⟨gap, rfl, hgap⟩ | ⟨gap, rfl, hgap⟩ := List.append_eq_append_iff.mp h
  · match gap, hgap with
    | [], hgap =>
      left
      simpa using hgap
    | [c], hgap =>
      right
      simp [fence] at hgap
      exact ⟨more, hgap.2⟩
    | [c, d], hgap =>
      right
      simp [fence] at hgap
      exact ⟨_, hgap.2.2⟩
    | c :: d :: e :: gap, hgap =>
      exfalso
      have heq : c = '\x60' ∧ d = '\x60' ∧ e = '\x60' := by
        simp [fence] at hgap
        tauto
      obtain ⟨rfl, rfl, rfl⟩ := heq
      exact hprose ⟨lead, gap, by simp [fence]⟩
  · have hnil : gap = [] := by
      rw [List.length_append] at hle
      exact List.length_eq_zero_iff.mp (by omega)
    subst hnil
    left
    simpa using hgap.symm

theorem fenced_search (before blank text blank' after : Text) :
    ∃ p q, codeFence.search (fenced before blank text blank' after) = some (p, q) ∧
      p.before.length ≤ before.length := by
  have hmatches : codeFence.run { before := before.reverse ++ [], after := fence ++ (tag ++
      ((blank ++ (text ++ blank')) ++ (fence ++ after))) } ≠ [] := codeFence_matches rfl
  obtain ⟨p, q, hsearch, hle⟩ := Regex.searchFrom_first hmatches
  have hsame : before ++ (fence ++ (tag ++ ((blank ++ (text ++ blank')) ++ (fence ++ after)))) =
      fenced before blank text blank' after := by
    simp [fenced]
  rw [hsame] at hsearch
  exact ⟨p, q, hsearch, by simpa using hle⟩

theorem fenced_captured (hk : k.Sound) (hprose : ¬ fence <:+: before)
    (hblank : ∀ c ∈ blank, isSpace c) (htext : ObjectText text)
    (hvalue : k.loadsObject text = some value) {value' : k.Value}
    (hinner : firstGroup codeFence (fenced before blank text blank' after) = some inner)
    (hvalue' : k.loadsObject (strip inner) = some value') : value' = value := by
  obtain ⟨⟨p, q⟩, hsearch, hgroup⟩ := map_eq_some_iff.mp hinner
  obtain ⟨htextOf, hmatch⟩ := Regex.searchFrom_spec hsearch
  have hfirst : p.before.length ≤ before.length := by
    obtain ⟨p', q', hsearch', hle⟩ := fenced_search before blank text blank' after
    obtain ⟨rfl, -⟩ := Prod.mk.inj (some.inj (hsearch.symm.trans hsearch'))
    simpa using hle
  obtain ⟨label, blanks, captured, blanks', rest, hafter, hlabel, hblanks, -, hcaptured⟩ :=
    codeFence_spec (List.mem_of_head? hmatch)
  obtain rfl : inner = captured := hgroup.symm.trans hcaptured
  have hobject := hk.objectText (strip_strip inner) hvalue'
  rw [Regex.Place.text, hafter, List.reverse_nil, List.nil_append] at htextOf
  have hstart := fence_start hprose htextOf (by simpa using hfirst)
  obtain ⟨trail, hlstrip⟩ := lstrip_captured (blanks' ++ (fence ++ rest)) hblanks rfl hobject
  obtain rfl | rfl | rfl := hlabel
  · -- Without a tag, what is captured would start with the `json` of the tag.
    exfalso
    obtain ⟨tail, htail⟩ := hobject.exists_cons
    rw [htail] at hlstrip
    obtain hmore | ⟨other, hmore⟩ := hstart
    all_goals
      rw [List.nil_append] at hmore
      rw [hmore] at hlstrip
      revert hlstrip
      simp [tag, PythonText.lstrip, isSpace]
  · obtain hmore | ⟨other, hmore⟩ := hstart
    · have hrest := List.append_cancel_left hmore
      have hobjects : strip inner ++ trail = text ++ (blank' ++ (fence ++ after)) := by
        rw [← hlstrip, hrest, htext.lstrip_append blank _ hblank]
      have hsame : strip inner = text := by
        have hprefix : strip inner <+: text ++ (blank' ++ (fence ++ after)) :=
          ⟨trail, hobjects⟩
        obtain h | h := List.prefix_or_prefix_of_prefix hprefix (List.prefix_append text _)
        · exact hobject.eq_of_isPrefix htext h
        · exact (htext.eq_of_isPrefix hobject h).symm
      rw [hsame, hvalue] at hvalue'
      exact (some.inj hvalue').symm
    · exact absurd hmore (by simp [tag])
  · exfalso
    obtain hmore | ⟨other, hmore⟩ := hstart
    · revert hmore
      simp [tag]
    · revert hmore
      simp

theorem fenced_extracted (hk : k.Sound) (hprose : Prose before)
    (hblank : ∀ c ∈ blank, isSpace c) (htext : strip text = text)
    (hvalue : k.loadsObject text = some value) :
    extracted k (fenced before blank text blank' after) = some value := by
  have hobject := hk.objectText htext hvalue
  have hstrip := strip_fenced before blank text blank' after
  have hne : strip (fenced before blank text blank' after) ≠ [] := by
    rw [hstrip]
    simp [fenced, fence]
  have hblock : tryExtractJsonBlock k (fenced before blank text blank' after) = some value := by
    have hbrace : '\x7b' ∉ before ++ (fence ++ (tag ++ blank)) := by
      have hspace : '\x7b' ∉ blank := by
        intro hmem
        have hspace := hblank _ hmem
        revert hspace
        decide
      simp [hprose.noOpen, hspace, fence, tag]
    have hfound := tryExtractJsonBlock_eq (blank' ++ (fence ++ after)) hbrace hobject hvalue
    simpa [fenced] using hfound
  rw [extracted_iff_direct hne hblock]
  intro value' hdirect
  unfold tryDirectParse at hdirect
  dsimp only at hdirect
  rw [hstrip] at hdirect
  cases hgroup : firstGroup codeFence (fenced (PythonText.lstrip before) blank text blank'
      (rstrip after)) with
  | some inner =>
    rw [hgroup] at hdirect
    exact fenced_captured hk hprose.lstrip.noFence hblank hobject hvalue hgroup hdirect
  | none =>
    obtain ⟨p, q, hsearch, -⟩ :=
      fenced_search (PythonText.lstrip before) blank text blank' (rstrip after)
    rw [firstGroup, hsearch] at hgroup
    cases hgroup

/-- A bare object is read unless the pattern of fences captures another one, and an object in a
fence always is. -/
theorem object_extracted_iff (hk : k.Sound) :
    (∀ content value, k.loadsObject (strip content) = some value →
      (extracted k content = some value ↔ Unhidden k (strip content) value)) ∧
    ∀ before blank text blank' after value, Prose before → Prose after →
      (∀ c ∈ blank, isSpace c) → (∀ c ∈ blank', isSpace c) → strip text = text →
      k.loadsObject text = some value →
      extracted k (fenced before blank text blank' after) = some value :=
  ⟨fun _ _ h => bare_extracted_iff hk h,
    fun _ _ _ _ _ _ hprose _ hblank _ htext hvalue =>
      fenced_extracted hk hprose hblank htext hvalue⟩

end

section

def hiddenText : Text := "\x7b\"a\": \"\x60\x60\x60json\x7b\x7d\x60\x60\x60\"\x7d".toList

def twoObjects : JsonCodec where
  Value := List (String × FieldValue)
  loads text :=
    if text = "\x7b\x7d".toList then some []
    else if text = hiddenText then
      some [("a", .text "\x60\x60\x60json\x7b\x7d\x60\x60\x60".toList)]
    else none
  isDict _ := true
  ofFields fields := fields

theorem twoObjects_sound : twoObjects.Sound := by
  intro text value h
  have htexts : text = "\x7b\x7d".toList ∨ text = hiddenText := by
    simp only [JsonCodec.loadsObject, twoObjects] at h
    split at h
    · exact .inl ‹_›
    · split at h
      · exact .inr ‹_›
      · cases h
  refine ⟨[], text, [], by simp, by simp, by simp, ?_⟩
  obtain rfl | rfl := htexts
  · exact ⟨[], by decide, .noMembers (by simp)⟩
  · have hstring {s : Text} (h : ∀ c ∈ s, c ≠ '"' ∧ c ≠ '\\') : StringBody s := by
      induction s with
      | nil => exact .nil
      | cons c s ih =>
        obtain ⟨⟨hquote, hslash⟩, hs⟩ := List.forall_mem_cons.mp h
        exact .char hquote hslash (ih hs)
    have hvalue : JsonText .value
        ('"' :: ("\x60\x60\x60json\x7b\x7d\x60\x60\x60".toList ++ ['"'])) :=
      .string (hstring (by simp))
    have hmember := JsonText.member (s := []) (t := []) (by simp) (by simp)
      (hstring (s := ['a']) (by simp))
        (.item (s := [' ']) (t := []) (by simp [isJsonBlank]) (by simp)
        hvalue)
    exact ⟨_, by decide, hmember⟩

theorem loadsObject_hiddenText : twoObjects.loadsObject hiddenText =
    some [("a", .text "\x60\x60\x60json\x7b\x7d\x60\x60\x60".toList)] := by
  have hne : hiddenText ≠ ['\x7b', '\x7d'] := by decide
  simp [JsonCodec.loadsObject, twoObjects, hne]

theorem hidden_object_not_extracted : ¬ ∀ k : JsonCodec, k.Sound → ∀ content value,
    k.loadsObject (strip content) = some value → extracted k content = some value := by
  intro h
  have hloads : twoObjects.loadsObject (strip hiddenText) =
      some [("a", .text "\x60\x60\x60json\x7b\x7d\x60\x60\x60".toList)] := by
    have hstrip : strip hiddenText = hiddenText := by decide
    rw [hstrip, loadsObject_hiddenText]
  have hextracted := h twoObjects twoObjects_sound hiddenText _ hloads
  have hgroup : firstGroup codeFence (strip hiddenText) = some "\x7b\x7d".toList := by
    decide +kernel
  have hempty : twoObjects.loadsObject (strip "\x7b\x7d".toList) = some [] := by
    have hstrip : strip "\x7b\x7d".toList = "\x7b\x7d".toList := by decide
    rfl
  have hsame := (bare_extracted_iff twoObjects_sound hloads).mp hextracted _ _ hgroup hempty
  cases hsame

theorem empty_object_extracted : (∀ value, twoObjects.loadsObject (strip "\x7b\x7d".toList) =
      some value → (extracted twoObjects "\x7b\x7d".toList = some value ↔
        Unhidden twoObjects (strip "\x7b\x7d".toList) value)) ∧
    extracted twoObjects (fenced "Here:".toList [] hiddenText ['\n'] []) =
      some [("a", .text "\x60\x60\x60json\x7b\x7d\x60\x60\x60".toList)] := by
  obtain ⟨hbare, hfenced⟩ := object_extracted_iff twoObjects_sound
  have hnone : Prose [] := ⟨by simp, by simp, by decide⟩
  have hprose : Prose "Here:".toList := ⟨by decide, by decide, by decide⟩
  refine ⟨fun value h => hbare _ value h, hfenced _ _ _ _ _ _ hprose hnone (by simp)
    (List.all_eq_true.mp (by decide)) (by decide) loadsObject_hiddenText⟩

end

end Cognis.JsonUtils
