import Mathlib.Tactic.Linarith
import Cognis.RichMarkdown.Splitting

namespace Cognis.RichMarkdown

open List PythonText

variable {u : UrlParse} {maxLength n : Nat} {text remaining : Text} {lines parts : List Text}

def Within (maxLength : Nat) (parts : List Text) : Prop :=
  ∀ part ∈ parts, part ≠ [] ∧ part.length ≤ maxLength

theorem Within.append {more : List Text} (h : Within maxLength parts) (h' : Within maxLength more) :
    Within maxLength (parts ++ more) := forall_mem_append.mpr ⟨h, h'⟩

theorem exists_mapM {α β : Type} {f : α → Option β} {P : α → β → Prop} (as : List α)
    (h : ∀ a ∈ as, ∃ b, f a = some b ∧ P a b) :
    ∃ bs, as.mapM f = some bs ∧ Forall₂ P as bs := by
  induction as with
  | nil => exact ⟨[], rfl, .nil⟩
  | cons a as ih =>
    obtain ⟨b, hb, hP⟩ := h a mem_cons_self
    obtain ⟨bs, hbs, hall⟩ := ih fun a' ha' => h a' (mem_cons_of_mem a ha')
    exact ⟨b :: bs, by rw [mapM_cons, hb, hbs]; rfl, .cons hP hall⟩

theorem exists_of_mem_forall₂ {α β : Type} {P : α → β → Prop} {as : List α} {bs : List β} {b : β}
    (h : Forall₂ P as bs) (hb : b ∈ bs) : ∃ a ∈ as, P a b := by
  induction h with
  | nil => cases hb
  | cons hhead _ ih =>
    obtain rfl | hb := mem_cons.mp hb
    · exact ⟨_, mem_cons_self, hhead⟩
    · obtain ⟨a, ha, hP⟩ := ih hb
      exact ⟨a, mem_cons_of_mem _ ha, hP⟩

section

theorem rfind_lt (c : Char) (text : Text) : rfind c text < max 1 text.length := by
  obtain ⟨hnone, -⟩ | ⟨before, after, rfl, -, hfound⟩ := rfind_spec c text
  · omega
  · rw [hfound, length_append, length_cons]
    omega

theorem boundaryOf_bounds (hmax : 1 ≤ maxLength) (remaining : Text) :
    1 ≤ boundaryOf maxLength remaining ∧ boundaryOf maxLength remaining ≤ maxLength := by
  have hlength : (remaining.take (maxLength + 1)).length ≤ maxLength + 1 := length_take_le _ _
  have hnewline := rfind_lt '\n' (remaining.take (maxLength + 1))
  have hblank := rfind_lt ' ' (remaining.take (maxLength + 1))
  unfold boundaryOf
  dsimp only
  split
  · omega
  · omega

def Unindented (text : Text) : Prop := ∀ c ∈ text.head?, isSpace c = false

theorem unindented_lstrip (text : Text) : Unindented (lstrip text) := by
  intro c hc
  obtain hnil | ⟨d, rest, hd, heq⟩ := head_lstrip text
  · rw [hnil] at hc
    cases hc
  · rw [heq] at hc
    cases hc
    exact hd

theorem unindented_strip (text : Text) : Unindented (strip text) := by
  obtain hnil | ⟨d, rest, hd, heq⟩ := head_lstrip text
  · intro c hc
    rw [strip, hnil] at hc
    cases hc
  · intro c hc
    rw [strip, heq, rstrip_cons hd] at hc
    cases hc
    exact hd

theorem rstrip_take_ne_nil {boundary : Nat} (hunindented : Unindented remaining)
    (hne : remaining ≠ [])
    (hboundary : 1 ≤ boundary) : rstrip (remaining.take boundary) ≠ [] := by
  obtain ⟨c, rest, rfl⟩ := exists_cons_of_ne_nil hne
  have hc := hunindented c rfl
  obtain ⟨k, rfl⟩ : ∃ k, boundary = k + 1 := ⟨boundary - 1, by omega⟩
  rw [take_succ_cons, rstrip_cons hc]
  exact cons_ne_nil _ _

theorem splitPlainFrom_spec (hmax : 1 ≤ maxLength) (hn : remaining.length < n)
    (hunindented : Unindented remaining) :
      ∃ parts, splitPlainFrom maxLength n remaining = some parts ∧
      Within maxLength parts ∧ despace parts.flatten = despace remaining := by
  induction n generalizing remaining with
  | zero => omega
  | succ n ih =>
    unfold splitPlainFrom
    by_cases hnil : remaining = []
    · rw [if_pos hnil, hnil]
      exact ⟨[], rfl, by simp [Within], rfl⟩
    · by_cases hfits : remaining.length ≤ maxLength
      · rw [if_neg hnil, if_pos hfits]
        refine ⟨[remaining], rfl, ?_, by simp⟩
        intro part hpart
        obtain rfl := mem_singleton.mp hpart
        exact ⟨hnil, hfits⟩
      · rw [if_neg hnil, if_neg hfits]
        obtain ⟨hone, hle⟩ := boundaryOf_bounds hmax remaining
        dsimp only
        have hshorter : (lstrip (remaining.drop (boundaryOf maxLength remaining))).length < n := by
          have hstrip := length_lstrip_le (remaining.drop (boundaryOf maxLength remaining))
          rw [length_drop] at hstrip
          omega
        obtain ⟨parts, hparts, hwithin, hsame⟩ := ih hshorter (unindented_lstrip _)
        rw [hparts]
        refine ⟨_, rfl, ?_, ?_⟩
        · refine forall_mem_cons.mpr ⟨⟨rstrip_take_ne_nil hunindented hnil hone, ?_⟩, hwithin⟩
          have hstrip := length_rstrip_le (remaining.take (boundaryOf maxLength remaining))
          have htake := length_take_le (boundaryOf maxLength remaining) remaining
          omega
        · rw [flatten_cons, despace_append, hsame, despace_rstrip, despace_lstrip,
            ← despace_append, take_append_drop]

theorem splitPlainText_spec (hmax : 1 ≤ maxLength) (text : Text) :
    ∃ parts, splitPlainText maxLength text = some parts ∧
      Within maxLength parts ∧ despace parts.flatten = despace text := by
  have hlength := length_strip_le text
  have hspec := splitPlainFrom_spec (n := text.length + 1) hmax (by omega) (unindented_strip text)
  rwa [despace_strip] at hspec

end

section

theorem flatten_slices {size : Nat} (hsize : 1 ≤ size) (token : Text) :
    (slices size token).flatten = token := by
  have htake (k : Nat) : ((range k).map fun i => (token.drop (i * size)).take size).flatten =
      token.take (k * size) := by
    induction k with
    | zero => simp
    | succ k ih =>
      rw [range_succ, map_append, flatten_append, ih, Nat.succ_mul, take_add]
      simp
  have hlong : token.length ≤ (token.length + size - 1) / size * size := by
    have hdiv := Nat.div_add_mod (token.length + size - 1) size
    have hmod := Nat.mod_lt (token.length + size - 1) (show 0 < size by omega)
    rw [Nat.mul_comm] at hdiv
    omega
  rw [slices, htake, take_of_length_le hlong]

theorem length_le_of_mem_slices {size : Nat} {token part : Text} (h : part ∈ slices size token) :
    part.length ≤ size := by
  obtain ⟨i, -, rfl⟩ := mem_map.mp h
  exact length_take_le _ _

theorem tokenParts_spec (hmax : 1 ≤ maxLength) (token : Text) :
    ∃ parts, tokenParts u maxLength token = some parts ∧
      ∀ part ∈ parts, part.length ≤ maxLength := by
  unfold tokenParts
  split
  · split
    · rename_i stop _
      dsimp only
      obtain ⟨omitted, homitted, hwithin, -⟩ := splitPlainText_spec hmax
        ((if stop.group 1 = [] then "Link".toList else stop.group 1) ++
          " (link omitted: too long)".toList)
      rw [homitted]
      have hparts : ∃ parts, some omitted = some parts ∧ ∀ part ∈ parts, part.length ≤ maxLength :=
        ⟨omitted, rfl, fun part hpart => (hwithin part hpart).2⟩
      cases safeUrl u (stop.group 2) with
      | none => exact hparts
      | some url =>
        dsimp only
        split
        · rename_i hfits
          exact ⟨[url], rfl, fun part hpart => by rw [mem_singleton.mp hpart]; exact hfits.2⟩
        · exact hparts
    · exact ⟨_, rfl, fun part hpart => length_le_of_mem_slices hpart⟩
  · exact ⟨[token], rfl, fun part hpart => by rw [mem_singleton.mp hpart]; omega⟩

theorem within_flush {chunks : List Text} {current : Text} (hchunks : Within maxLength chunks)
    (hcurrent : current.length ≤ maxLength) : Within maxLength (flush chunks current) := by
  unfold flush
  split
  · exact hchunks
  · rename_i hne
    refine hchunks.append ?_
    intro part hpart
    obtain rfl := mem_singleton.mp hpart
    exact ⟨hne, (length_strip_le current).trans hcurrent⟩

/-- What holds of the chunks and the current one after any parts. -/
def PackedWithin (maxLength : Nat) (packed : List Text × Text) : Prop :=
  Within maxLength packed.1 ∧ packed.2.length ≤ maxLength

variable {packed : List Text × Text}

theorem packPart_within {part : Text} (h : PackedWithin maxLength packed)
    (hpart : part.length ≤ maxLength) :
    PackedWithin maxLength (packPart maxLength packed part) := by
  unfold packPart
  dsimp only
  split
  · rename_i hfits
    exact ⟨h.1, hfits⟩
  · exact ⟨within_flush h.1 h.2, (length_lstrip_le part).trans hpart⟩

theorem foldl_packPart_within (h : PackedWithin maxLength packed)
    (hparts : ∀ part ∈ parts, part.length ≤ maxLength) :
    PackedWithin maxLength (parts.foldl (packPart maxLength) packed) := by
  induction parts generalizing packed with
  | nil => exact h
  | cons part parts ih =>
    obtain ⟨hpart, hrest⟩ := forall_mem_cons.mp hparts
    exact ih (packPart_within h hpart) hrest

theorem splitMarkdownText_within (hmax : 1 ≤ maxLength) (text : Text) :
    ∃ parts, splitMarkdownText u maxLength text = some parts ∧ Within maxLength parts := by
  obtain ⟨tokens, htokens, hall⟩ := exists_mapM (markdownTokens text)
    fun token _ => tokenParts_spec (u := u) hmax token
  have hparts : ∀ part ∈ tokens.flatten, part.length ≤ maxLength := by
    intro part hpart
    obtain ⟨parts, hmem, hpart⟩ := mem_flatten.mp hpart
    obtain ⟨token, -, hspec⟩ := exists_of_mem_forall₂ hall hmem
    exact hspec part hpart
  have hempty : PackedWithin maxLength ([], []) := ⟨by simp [Within], by simp⟩
  have hpacked := foldl_packPart_within hempty hparts
  exact ⟨_, by rw [splitMarkdownText, htokens, Option.map_some], within_flush hpacked.1 hpacked.2⟩

end

section

theorem packRows_within {header : Text} {rows : List Text} (hne : header ≠ [])
    (hheader : header.length ≤ maxLength)
    (hrows : ∀ row ∈ rows, header.length + row.length + 1 ≤ maxLength) :
    Within maxLength (packRows maxLength header rows) := by
  have hstep (packed : List Text × Text) (hpacked : Within maxLength (packed.1 ++ [packed.2])) :
      let after := rows.foldl (fun packed row =>
        let candidate := packed.2 ++ '\n' :: row
        if candidate.length ≤ maxLength then (packed.1, candidate)
        else (packed.1 ++ [packed.2], header ++ '\n' :: row)) packed
      Within maxLength (after.1 ++ [after.2]) := by
    induction rows generalizing packed with
    | nil => exact hpacked
    | cons row rows ih =>
      obtain ⟨hrow, hrest⟩ := forall_mem_cons.mp hrows
      obtain ⟨chunks, current⟩ := packed
      obtain ⟨hchunks, hcurrent⟩ := forall_mem_append.mp hpacked
      apply ih hrest
      dsimp only
      split
      · rename_i hfits
        refine Within.append hchunks fun part hpart => ?_
        obtain rfl := mem_singleton.mp hpart
        exact ⟨by simp, hfits⟩
      · refine Within.append (Within.append hchunks hcurrent) fun part hpart => ?_
        obtain rfl := mem_singleton.mp hpart
        refine ⟨by simp, ?_⟩
        rw [length_append, length_cons]
        omega
  refine hstep ([], header) fun part hpart => ?_
  obtain rfl := mem_singleton.mp hpart
  exact ⟨hne, hheader⟩

theorem splitMarkdownTable_within (hmax : 1 ≤ maxLength) (lines : List Text)
    (hlines : ∀ line ∈ lines, line ≠ []) :
    ∃ parts, splitMarkdownTable u maxLength lines = some parts ∧ Within maxLength parts := by
  unfold splitMarkdownTable
  split
  · exact splitMarkdownText_within hmax _
  · rename_i hlength
    dsimp only
    split
    · obtain ⟨parts, hparts, hwithin, -⟩ := splitPlainText_spec hmax
        (joinLines ((lines.filter fun line => strip line ≠ []).map tableRowToPlain))
      exact ⟨parts, hparts, hwithin⟩
    · rename_i hfits
      rw [not_or, any_eq_true] at hfits
      have hheader : joinLines (lines.take 2) ≠ [] := by
        obtain _ | ⟨first, _ | ⟨second, rest⟩⟩ := lines
        · exact absurd Nat.zero_lt_two hlength
        · exact absurd Nat.one_lt_two hlength
        · simp [joinLines, intercalate, intersperse]
      refine ⟨_, rfl, packRows_within hheader (by omega) ?_⟩
      intro row hrow
      by_contra hlong
      exact hfits.2 ⟨row, hrow, decide_eq_true (by omega)⟩

theorem splitCodeFence_within (hmax : 1 ≤ maxLength) (lines : List Text) :
    ∃ parts, splitCodeFence maxLength lines = some parts ∧ Within maxLength parts := by
  unfold splitCodeFence
  dsimp only
  split
  · obtain ⟨parts, hparts, hwithin, -⟩ := splitPlainText_spec hmax _
    exact ⟨parts, hparts, hwithin⟩
  · have hpositive : 1 ≤ maxLength -
        ((lines.headD backticks).length + "\n\n\x60\x60\x60".length) := by omega
    obtain ⟨parts, hparts, hwithin, -⟩ := splitPlainText_spec hpositive _
    rw [hparts]
    refine ⟨_, rfl, fun part hpart => ?_⟩
    obtain ⟨piece, hpiece, rfl⟩ := mem_map.mp hpart
    obtain ⟨-, hlength⟩ := hwithin piece hpiece
    have hoverhead : "\n\n\x60\x60\x60".length = 5 := rfl
    have hfence : backticks.length = 3 := rfl
    refine ⟨by simp, ?_⟩
    simp only [length_append, length_cons]
    omega

def RowsOnly (block : BlockKind × List Text) : Prop :=
  block.1 = .table → ∀ line ∈ block.2, line ≠ []

theorem ne_nil_of_isRow {line : Text} (h : isRow line = true) : line ≠ [] := by
  rintro rfl
  cases h

theorem blocksFrom_rowsOnly (n : Nat) (lines : List Text) :
    ∀ block ∈ blocksFrom n lines, RowsOnly block := by
  induction n generalizing lines with
  | zero => simp [blocksFrom]
  | succ n ih =>
    cases lines with
    | nil => simp [blocksFrom]
    | cons =>
      unfold blocksFrom
      split
      · exact forall_mem_cons.mpr ⟨fun h => (by cases h), ih _⟩
      · split
        · refine forall_mem_cons.mpr ⟨fun _ row hrow => ?_, ih _⟩
          exact ne_nil_of_isRow (mem_takeWhile_imp hrow)
        · exact forall_mem_cons.mpr ⟨fun h => (by cases h), ih _⟩

theorem splitBlock_within (hmax : 1 ≤ maxLength) {block : BlockKind × List Text}
    (hblock : RowsOnly block) :
    ∃ parts, splitBlock u maxLength block = some parts ∧ Within maxLength parts := by
  obtain ⟨kind, lines⟩ := block
  cases kind with
  | code => exact splitCodeFence_within hmax lines
  | table => exact splitMarkdownTable_within hmax lines (hblock rfl)
  | text => exact splitMarkdownText_within hmax _

theorem splitMarkdown_within (hmax : 1 ≤ maxLength) (text : Text) :
    ∃ parts, splitMarkdown u maxLength text = some parts ∧ Within maxLength parts := by
  obtain ⟨blocks, hblocks, hall⟩ := exists_mapM
    (blocksFrom (splitlines text).length (splitlines text))
    fun block hblock => splitBlock_within (u := u) hmax (blocksFrom_rowsOnly _ _ block hblock)
  refine ⟨_, by rw [splitMarkdown, hblocks, Option.map_some], fun part hpart => ?_⟩
  obtain ⟨parts, hmem, hpart⟩ := mem_flatten.mp (mem_of_mem_filter hpart)
  obtain ⟨block, -, hwithin⟩ := exists_of_mem_forall₂ hall hmem
  exact hwithin part hpart

end

end Cognis.RichMarkdown
