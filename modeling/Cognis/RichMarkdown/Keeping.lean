import Cognis.RichMarkdown.Bounds

namespace Cognis.RichMarkdown

open List PythonText

section

open Regex

variable {p q : Place} {text gap after done before : Text} {links tokens acc : List Text} {n : Nat}

/-- Nothing that starts or ends with whitespace. -/
def Solid (text : Text) : Prop :=
  ∃ c mid d, isSpace c = false ∧ isSpace d = false ∧ text = c :: (mid ++ [d])

theorem local_markdownLinkToken : markdownLinkToken.Local := by
  simp [markdownLinkToken, chain, Regex.optional, lit, Regex.star, plus, Local]

theorem mem_run_markdownLinkToken (h : q ∈ markdownLinkToken.run p) : ∃ token, Solid token ∧
    p.after = token ++ q.after ∧ q.before = token.reverse ++ p.before := by
  obtain ⟨token, hafter, hbefore⟩ := leads_of_mem_run h
  refine ⟨token, ?_, hafter, hbefore⟩
  simp only [markdownLinkToken, chain, foldr_cons, foldr_nil, mem_run_seq, mem_run_lit,
    mem_run_optional, mem_run_empty] at h
  obtain ⟨opened, hopen, bracket, hbracket, label, hlabel, mid, hmid, target, htarget, h⟩ := h
  obtain ⟨_, hclose, rfl⟩ := h
  obtain ⟨inner, hinner, -⟩ := ((leads_of_mem_run hlabel).trans ⟨_, hmid.after, hmid.before⟩).trans
    (leads_of_mem_run htarget)
  have hrest : bracket.after = inner ++ ')' :: q.after := by
    rw [hinner, hclose.after]
    rfl
  have hall : opened.after = '[' :: (inner ++ ')' :: q.after) := by
    rw [hbracket.after, hrest]
    rfl
  obtain hmark | rfl := hopen
  · have htoken : token ++ q.after = ('!' :: (('[' :: inner) ++ [')'])) ++ q.after := by
      rw [← hafter, hmark.after, hall]
      simp
    exact ⟨'!', '[' :: inner, ')', by decide, by decide, append_cancel_right htoken⟩
  · have htoken : token ++ q.after = ('[' :: (inner ++ [')'])) ++ q.after := by
      rw [← hafter, hall]
      simp
    exact ⟨'[', inner, ')', by decide, by decide, append_cancel_right htoken⟩

def NoStart (gap after : Text) : Prop :=
  ∀ lead rest, gap = lead ++ rest → rest ≠ [] → ¬ markdownLinkToken.Starts (rest ++ after)

theorem NoStart.extend {c : Char} (h : NoStart gap (c :: after))
    (hc : ¬ markdownLinkToken.Starts (c :: after)) : NoStart (gap ++ [c]) after := by
  intro lead rest heq hne
  obtain ⟨last, d, rfl⟩ := (eq_nil_or_concat' rest).resolve_left hne
  rw [← append_assoc] at heq
  obtain ⟨hgap, hlast⟩ := append_inj' heq rfl
  obtain ⟨rfl, -⟩ := List.cons.inj hlast
  rw [append_assoc, singleton_append]
  cases last with
  | nil => exact hc
  | cons d last => exact h lead (d :: last) hgap (cons_ne_nil d last)

theorem not_starts_of_mem_words (h : NoStart gap after) {word : Text} (hword : word ∈ words gap) :
    ¬ markdownLinkToken.Starts word := by
  have hinfix : word <:+: gap := by
    have hmem := infix_of_mem_flatten hword
    rwa [words, flatten_splitBy] at hmem
  have hne : word ≠ [] := ne_nil_of_mem_splitBy hword
  obtain ⟨lead, rest, heq⟩ := hinfix
  intro hstarts
  have hmore : markdownLinkToken.Starts (word ++ (rest ++ after)) :=
    local_markdownLinkToken.starts_append hstarts
  rw [← append_assoc] at hmore
  exact h lead (word ++ rest) (by rw [← heq, append_assoc])
    (append_ne_nil_of_left_ne_nil hne rest) hmore

/-- The tokens make up the text, and every link is one of them. -/
structure Tokenized (gap after : Text) (links tokens : List Text) : Prop where
  all : tokens.flatten = gap ++ after
  whole : ∀ token ∈ links, token ∈ tokens
  others : ∀ token ∈ tokens, token ∈ links ∨ ¬ markdownLinkToken.Starts token

theorem Tokenized.link {token rest : Text} (h : Tokenized [] rest links tokens)
    (hgap : NoStart gap (token ++ rest)) :
    Tokenized gap (token ++ rest) (token :: links) (words gap ++ token :: tokens) where
  all := by
    rw [flatten_append, flatten_cons, h.all, words, flatten_splitBy, nil_append]
  whole other hother := by
    obtain rfl | hother := mem_cons.mp hother
    · simp
    · simp [h.whole other hother]
  others other hother := by
    obtain hother | hother := mem_append.mp hother
    · exact .inr (not_starts_of_mem_words hgap hother)
    · obtain rfl | hother := mem_cons.mp hother
      · exact .inl mem_cons_self
      · exact (h.others other hother).imp_left (mem_cons_of_mem token)

def matchTexts (found : List (Place × Place)) : List Text := found.map fun f => f.1.upTo f.2

theorem foldl_takeLink (acc : List Text) (htext : text = done ++ (gap ++ after))
    (hbefore : before.reverse = done ++ gap) (hgap : NoStart gap after) (hn : after.length < n) :
    ∃ front position, (markdownLinkToken.finditerFrom n before after).foldl (takeLink text)
      (acc, done.length) = (acc ++ front, position) ∧
        Tokenized gap after (matchTexts (markdownLinkToken.finditerFrom n before after))
          (front ++ words (text.drop position)) := by
  induction hm : after.length using Nat.strong_induction_on generalizing n before after gap done acc
  rename_i m ih
  obtain ⟨k, rfl⟩ : ∃ k, n = k + 1 := ⟨n - 1, by omega⟩
  by_cases hstarts : markdownLinkToken.Starts after
  · obtain ⟨q, hq⟩ := local_markdownLinkToken.exists_matchAt (p := { before, after }) hstarts
    obtain ⟨token, hsolid, hafter, hqbefore⟩ := mem_run_markdownLinkToken (mem_of_head? hq)
    dsimp only at hafter hqbefore
    obtain ⟨c, tail, hcons⟩ : ∃ c tail, after = c :: tail := by
      obtain ⟨c, mid, d, -, -, rfl⟩ := hsolid
      exact ⟨c, _, hafter⟩
    have hlt : q.after.length < after.length := by
      obtain ⟨c, mid, d, -, -, rfl⟩ := hsolid
      rw [hafter]
      simp
      omega
    have hgapOf : (text.take before.length).drop done.length = gap := by
      have hlength : before.length = (done ++ gap).length := by rw [← hbefore, length_reverse]
      rw [hlength, htext, ← append_assoc, take_left' rfl, drop_left' rfl]
    have htoken : Place.upTo { before, after } q = token := by
      rw [Place.upTo, hafter, length_append, Nat.add_sub_cancel, take_left' rfl]
    have hbefore' : q.before.reverse = ((done ++ gap) ++ token) ++ [] := by
      rw [hqbefore, reverse_append, hbefore]
      simp
    have hlength : q.before.length = ((done ++ gap) ++ token).length := by
      rw [← length_reverse, hbefore', append_nil]
    have htext' : text = ((done ++ gap) ++ token) ++ ([] ++ q.after) := by
      rw [htext, hafter]
      simp
    have hnone : NoStart [] q.after := by
      intro lead rest hnil hne
      exact absurd (append_eq_nil_iff.mp hnil.symm).2 hne
    obtain ⟨front, position, heq, htokens⟩ := ih q.after.length (by omega)
      (acc ++ words gap ++ [token]) htext' hbefore' hnone (show q.after.length < k by omega) rfl
    have hfound : markdownLinkToken.finditerFrom (k + 1) before after =
        ({ before, after }, q) :: markdownLinkToken.finditerFrom k q.before q.after := by
      rw [hcons] at hq hlt ⊢
      exact finditerFrom_cons_some hq hlt
    refine ⟨words gap ++ token :: front, position, ?_, ?_⟩
    · rw [hfound, foldl_cons]
      simp only [takeLink]
      rw [hgapOf, htoken, hlength, heq]
      simp
    · rw [hafter] at hgap
      have hall := htokens.link hgap
      rw [← hafter, ← htoken] at hall
      rw [hfound]
      simpa [matchTexts, htoken] using hall
  · have hmatch := local_markdownLinkToken.matchAt_eq_none (p := { before, after }) hstarts
    cases after with
    | nil =>
      have hdrop : text.drop done.length = gap := by rw [htext]; simp
      rw [finditerFrom_nil hmatch]
      refine ⟨[], done.length, by simp, ?_⟩
      rw [nil_append, hdrop]
      exact ⟨by rw [words, flatten_splitBy, append_nil], by simp [matchTexts],
        fun token htoken => .inr (not_starts_of_mem_words hgap htoken)⟩
    | cons c after =>
      rw [length_cons] at hn hm
      rw [finditerFrom_cons_none hmatch]
      have hbefore' : (c :: before).reverse = done ++ (gap ++ [c]) := by
        rw [reverse_cons, hbefore, append_assoc]
      have htext' : text = done ++ ((gap ++ [c]) ++ after) := by rw [htext]; simp
      obtain ⟨front, position, heq, htokens⟩ := ih after.length (by omega) acc htext' hbefore'
        (hgap.extend hstarts) (show after.length < k + 1 by omega) rfl
      exact ⟨front, position, heq, by rw [htokens.all]; simp, htokens.whole, htokens.others⟩

def linkTokens (text : Text) : List Text := matchTexts (markdownLinkToken.finditer text)

theorem tokenized_markdownTokens (text : Text) :
    Tokenized [] text (linkTokens text) (markdownTokens text) := by
  have hnone : NoStart [] text := by
    intro lead rest hnil hne
    exact absurd (append_eq_nil_iff.mp hnil.symm).2 hne
  have htext : text = [] ++ ([] ++ text) := rfl
  have hbefore : ([] : Text).reverse = [] ++ [] := rfl
  obtain ⟨front, position, heq, htokens⟩ :=
    foldl_takeLink [] htext hbefore hnone (Nat.lt_succ_self text.length)
  have hfold :
    (markdownLinkToken.finditer text).foldl (takeLink text) ([], 0) = (front, position) :=
    heq
  unfold markdownTokens
  rw [hfold]
  exact htokens

theorem solid_of_mem_linkTokens {token : Text} (h : token ∈ linkTokens text) : Solid token := by
  obtain ⟨⟨p, q⟩, hfound, rfl⟩ := mem_map.mp h
  obtain ⟨-, hmatch⟩ := finditer_spec hfound
  obtain ⟨token, hsolid, hafter, -⟩ := mem_run_markdownLinkToken (mem_of_head? hmatch)
  have htoken : p.upTo q = token := by
    rw [Place.upTo, hafter, length_append, Nat.add_sub_cancel, take_left' rfl]
  rwa [htoken]

end

section

variable {u : UrlParse} {maxLength : Nat} {text token : Text} {parts chunks : List Text}

theorem Solid.lstrip (h : Solid token) : lstrip token = token := by
  obtain ⟨c, mid, d, hc, -, rfl⟩ := h
  simp [PythonText.lstrip, hc]

theorem Solid.infix_strip (h : Solid token) (hin : token <:+: text) : token <:+: strip text := by
  obtain ⟨c, mid, d, hc, hd, rfl⟩ := h
  obtain ⟨before, after, rfl⟩ := hin
  have hlstrip : PythonText.lstrip (before ++ (c :: (mid ++ [d])) ++ after) =
      (PythonText.lstrip before ++ c :: mid) ++ d :: after := by
    have h : PythonText.lstrip (before ++ c :: (mid ++ d :: after)) =
        PythonText.lstrip before ++ c :: (mid ++ d :: after) := lstrip_append_cons hc
    simpa using h
  refine ⟨PythonText.lstrip before, rstrip after, ?_⟩
  rw [strip, hlstrip, rstrip_append_cons hd]
  simp

theorem despace_flush (chunks : List Text) (current : Text) :
    despace (flush chunks current).flatten = despace chunks.flatten ++ despace current := by
  unfold flush
  split
  · rename_i hblank
    rw [despace_eq_nil (strip_eq_nil_iff.mp hblank), append_nil]
  · simp

theorem despace_packPart (packed : List Text × Text) (part : Text) :
    despace (packPart maxLength packed part).1.flatten ++
        despace (packPart maxLength packed part).2 =
      despace packed.1.flatten ++ despace packed.2 ++ despace part := by
  unfold packPart
  dsimp only
  split
  · rw [despace_append, append_assoc]
  · rw [despace_flush, despace_lstrip]

theorem despace_foldl_packPart (maxLength : Nat) (parts : List Text) (packed : List Text × Text) :
    despace (parts.foldl (packPart maxLength) packed).1.flatten ++
        despace (parts.foldl (packPart maxLength) packed).2 =
      despace packed.1.flatten ++ despace packed.2 ++ despace parts.flatten := by
  induction parts generalizing packed with
  | nil => simp [despace]
  | cons part parts ih =>
    rw [foldl_cons, ih, despace_packPart, flatten_cons, despace_append, append_assoc]

def Holds (packed : List Text × Text) (token : Text) : Prop :=
  (∃ chunk ∈ packed.1, token <:+: chunk) ∨ token <:+: packed.2

theorem Solid.holds_flush (h : Solid token) {current : Text}
    (hpacked : Holds (chunks, current) token) :
    ∃ chunk ∈ flush chunks current, token <:+: chunk := by
  unfold flush
  obtain ⟨chunk, hchunk, hin⟩ | hin := hpacked
  · refine ⟨chunk, ?_, hin⟩
    split
    · exact hchunk
    · exact mem_append_left _ hchunk
  · have hstrip := h.infix_strip hin
    have hne : strip current ≠ [] := by
      intro hnil
      rw [hnil, infix_nil] at hstrip
      obtain ⟨c, mid, d, -, -, heq⟩ := h
      rw [heq] at hstrip
      cases hstrip
    rw [if_neg hne]
    exact ⟨strip current, by simp, hstrip⟩

variable {packed : List Text × Text}

theorem Solid.holds_packPart (h : Solid token) (part : Text)
    (hpacked : Holds packed token) : Holds (packPart maxLength packed part) token := by
  unfold packPart
  dsimp only
  split
  · exact hpacked.imp_right fun hin => hin.trans (prefix_append _ _).isInfix
  · exact .inl (h.holds_flush hpacked)

theorem Solid.holds_foldl (h : Solid token) (hpacked : Holds packed token ∨ token ∈ parts) :
    Holds (parts.foldl (packPart maxLength) packed) token := by
  induction parts generalizing packed with
  | nil => exact hpacked.resolve_right not_mem_nil
  | cons part parts ih =>
    refine ih ?_
    obtain hpacked | hmem := hpacked
    · exact .inl (h.holds_packPart part hpacked)
    · obtain rfl | hmem := mem_cons.mp hmem
      · left
        unfold packPart
        dsimp only
        split
        · exact .inr (suffix_append _ _).isInfix
        · rw [h.lstrip]
          exact .inr infix_rfl
      · exact .inr hmem

theorem fullMatch_eq_none (h : ¬ markdownLinkToken.Starts token) :
    markdownLinkToken.fullMatch token = none := by
  rw [Regex.fullMatch, not_not.mp h]
  rfl

theorem tokenParts_keeps (hlinks : ∀ token ∈ linkTokens text, token.length ≤ maxLength)
    (hmax : 1 ≤ maxLength) (htoken : token ∈ linkTokens text ∨ ¬ markdownLinkToken.Starts token) :
    ∃ parts, tokenParts u maxLength token = some parts ∧ parts.flatten = token ∧
      (token ∈ linkTokens text → token ∈ parts) := by
  unfold tokenParts
  split
  · obtain hlink | hnone := htoken
    · exact absurd (hlinks token hlink) (by omega)
    · rw [fullMatch_eq_none hnone]
      refine ⟨_, rfl, flatten_slices hmax token, fun hlink => ?_⟩
      exact absurd (hlinks token hlink) (by omega)
  · exact ⟨[token], rfl, by simp, fun _ => mem_singleton_self token⟩

theorem splitMarkdownText_keeps (hmax : 1 ≤ maxLength)
    (hlinks : ∀ token ∈ linkTokens text, token.length ≤ maxLength)
    (hparts : splitMarkdownText u maxLength text = some parts) :
    despace parts.flatten = despace text ∧
      ∀ token ∈ linkTokens text, ∃ part ∈ parts, token <:+: part := by
  have htokens := tokenized_markdownTokens text
  obtain ⟨pieces, hpieces, hall⟩ := exists_mapM (markdownTokens text)
    fun token htoken => tokenParts_keeps (u := u) hlinks hmax (htokens.others token htoken)
  have hflat : pieces.flatten.flatten = text := by
    have hsame : pieces.map flatten = markdownTokens text := by
      have heq : Forall₂ Eq (markdownTokens text) (pieces.map flatten) :=
        forall₂_map_right_iff.mpr (hall.imp fun _ _ h => h.1.symm)
      rw [forall₂_eq_eq_eq] at heq
      exact heq.symm
    rw [flatten_flatten, hsame, htokens.all, nil_append]
  rw [splitMarkdownText, hpieces, Option.map_some] at hparts
  cases hparts
  constructor
  · have hkept := despace_foldl_packPart maxLength pieces.flatten ([], [])
    rw [despace_flush, hkept, hflat]
    rfl
  · intro token htoken
    have hmem : token ∈ pieces.flatten := by
      obtain ⟨piece, hpiece, -, hkeep⟩ :=
        exists_of_mem_forall₂ hall.flip (htokens.whole token htoken)
      exact mem_flatten.mpr ⟨piece, hpiece, hkeep htoken⟩
    have hholds : Holds (pieces.flatten.foldl (packPart maxLength) ([], [])) token :=
      (solid_of_mem_linkTokens htoken).holds_foldl (.inr hmem)
    exact (solid_of_mem_linkTokens htoken).holds_flush hholds

end

section

variable {u : UrlParse} {maxLength : Nat} {text : Text} {lines parts : List Text}

theorem blocksFrom_text (h : ∀ line ∈ lines, isFence line = false ∧ isRow line = false) :
    blocksFrom lines.length lines = if lines = [] then [] else [(.text, lines)] := by
  cases lines with
  | nil => rfl
  | cons line rest =>
    obtain ⟨hfence, hrow⟩ := h line mem_cons_self
    let isText (line : Text) : Bool := !isFence line && !isRow line
    have hall : ∀ other ∈ line :: rest, isText other = true := by
      intro other hother
      obtain ⟨hfence, hrow⟩ := h other hother
      simp [isText, hfence, hrow]
    have htake := takeWhile_eq_self_iff.mpr hall
    have hdrop := dropWhile_eq_nil_iff.mpr hall
    rw [length_cons, blocksFrom, hfence, hrow]
    simp only [Bool.false_eq_true, if_false, cons_ne_nil]
    rw [htake, hdrop]
    cases rest.length <;> rfl

theorem splitMarkdown_text (h : ∀ line ∈ splitlines text, isFence line = false ∧ isRow line = false)
    (hsplit : splitMarkdown u maxLength text = some parts) (hmax : 1 ≤ maxLength) :
    splitMarkdownText u maxLength (joinLines (splitlines text)) = some parts := by
  rw [splitMarkdown, blocksFrom_text h] at hsplit
  split at hsplit
  · rename_i hnil
    rw [hnil]
    cases hsplit
    rfl
  · obtain ⟨chunks, hchunks, hwithin⟩ :=
      splitMarkdownText_within (u := u) hmax (joinLines (splitlines text))
    have hall : chunks.filter (· ≠ []) = chunks :=
      filter_eq_self.mpr fun chunk hchunk => decide_eq_true (hwithin chunk hchunk).1
    rw [mapM_cons, mapM_nil, splitBlock, hchunks] at hsplit
    have hparts : [chunks].flatten.filter (· ≠ []) = parts := Option.some.inj hsplit
    rw [hchunks, ← hparts, flatten_singleton, hall]

theorem despace_joinLines (lines : List Text) :
    despace (joinLines lines) = despace lines.flatten := by
  have hblank : despace ['\n'] = [] := by decide
  unfold joinLines
  induction lines with
  | nil => rfl
  | cons line lines ih =>
    cases lines with
    | nil => simp
    | cons =>
      rw [intercalate_cons_cons, despace_append, despace_append, hblank, ih]
      simp

theorem despace_splitlines (text : Text) : despace (splitlines text).flatten = despace text := by
  have hcons (c : Char) (text : Text) : despace (c :: text) = despace [c] ++ despace text :=
    show despace ([c] ++ text) = despace [c] ++ despace text from despace_append
  fun_induction splitlines text with
  | case1 => rfl
  | case2 text ih => simpa [despace, isSpace] using ih
  | case3 c text _ hc ih => simpa [despace, isSpace_of_isLineEnd hc] using ih
  | case4 c text _ _ hlines ih =>
    rw [hlines] at ih
    rw [hcons, ← ih]
    simp [despace]
  | case5 c text _ _ line lines hlines ih =>
    rw [hlines] at ih
    rw [hcons, ← ih, ← despace_append]
    rfl

/-- Splitting ends, with parts that are short, and of a section of text it keeps everything but
whitespace, and the links of the joined lines whole. -/
theorem splitMarkdown_keeps (u : UrlParse) (text : Text) (hmax : 1 ≤ maxLength) :
    ∃ parts, splitMarkdown u maxLength text = some parts ∧
      (∀ part ∈ parts, part ≠ [] ∧ part.length ≤ maxLength) ∧
      ((∀ line ∈ splitlines text, isFence line = false ∧ isRow line = false) →
        (∀ token ∈ linkTokens (joinLines (splitlines text)), token.length ≤ maxLength) →
        despace parts.flatten = despace text ∧
          ∀ token ∈ linkTokens (joinLines (splitlines text)), ∃ part ∈ parts, token <:+: part) := by
  obtain ⟨parts, hsplit, hwithin⟩ := splitMarkdown_within (u := u) hmax text
  refine ⟨parts, hsplit, hwithin, fun hlines hlinks => ?_⟩
  obtain ⟨hsame, hwhole⟩ := splitMarkdownText_keeps hmax hlinks
    (splitMarkdown_text hlines hsplit hmax)
  rw [despace_joinLines, despace_splitlines] at hsame
  exact ⟨hsame, hwhole⟩

/-- A link whose label has a carriage return before its newline. -/
def brokenLabel : Text := "See [a\r\nb](u) now".toList

/-- For texts without links that are too long. -/
def noUrls : UrlParse := ⟨fun _ => none, fun text _ => text, fun _ => []⟩

theorem splitMarkdown_keeps_brokenLabel : ∃ parts,
    splitMarkdown noUrls 10 brokenLabel = some parts ∧
      (∀ part ∈ parts, part ≠ [] ∧ part.length ≤ 10) ∧ despace parts.flatten = despace brokenLabel ∧
      ∀ token ∈ linkTokens (joinLines (splitlines brokenLabel)), ∃ part ∈ parts,
        token <:+: part := by
  obtain ⟨parts, hsplit, hwithin, hkeeps⟩ :=
    splitMarkdown_keeps noUrls brokenLabel (show 1 ≤ 10 by decide)
  obtain ⟨hsame, hlinks⟩ := hkeeps (by decide +kernel) (by decide +kernel)
  exact ⟨parts, hsplit, hwithin, hsame, hlinks⟩

theorem brokenLabel_broken : ¬ ∀ (u : UrlParse) (text : Text) (maxLength : Nat) (parts : List Text),
    1 ≤ maxLength → splitMarkdown u maxLength text = some parts →
    (∀ line ∈ splitlines text, isFence line = false ∧ isRow line = false) →
    (∀ token ∈ linkTokens text, token.length ≤ maxLength) →
    ∀ token ∈ linkTokens text, ∃ part ∈ parts, token <:+: part := by
  intro h
  have hsplit : splitMarkdown noUrls 20 brokenLabel = some ["See [a\nb](u) now".toList] := by
    decide +kernel
  have hwhole := h noUrls brokenLabel 20 _ (by decide) hsplit (by decide +kernel)
    (by decide +kernel)
  have hnot : ¬ ∀ token ∈ linkTokens brokenLabel,
      ∃ part ∈ ["See [a\nb](u) now".toList], token <:+: part := by
    decide +kernel
  exact hnot hwhole

end

end Cognis.RichMarkdown
