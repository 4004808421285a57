import Mathlib.Data.List.Sort
import Cognis.Library.PythonText

namespace Cognis.FileSearch

open List PythonText

def maxLineLength : Nat := 2000

def maxMatches : Nat := 500

structure GrepOptions where
  contextLines : Nat
  maxPerFile : Nat

structure FileMatch where
  lineNumber : Nat
  display : Text
  isMatch : Bool
  deriving DecidableEq

structure Scan where
  fileMatches : List FileMatch := []
  emittedLines : List Nat := []
  matchCount : Nat := 0

def display (line : Text) : Text :=
  line.take maxLineLength ++ if maxLineLength < line.length then "...".toList else []

variable (regex : Text → Bool) (options : GrepOptions) (lines : List Text)

def window (index : Nat) : List Nat :=
  let start := index - options.contextLines
  range' start (min lines.length (index + options.contextLines + 1) - start)

/-- The lines of the window that are not emitted; it has no line twice. -/
def emit (s : Scan) (index : Nat) : Scan :=
  let fresh := (window options lines index).filter (!s.emittedLines.contains ·)
  { fileMatches := s.fileMatches ++ fresh.map fun i =>
      { lineNumber := i + 1, display := display (lines.getD i []), isMatch := i = index }
    emittedLines := s.emittedLines ++ fresh
    matchCount := s.matchCount + 1 }

def scanFrom : List Nat → Scan → Scan
  | [], s => s
  | index :: indices, s =>
    if !regex (lines.getD index []) then scanFrom indices s
    else if options.maxPerFile ≤ s.matchCount ∨ maxMatches ≤ s.matchCount then s
    else scanFrom indices (emit options lines s index)

/-- `_grep_python_file_matches` of the lines of a file. -/
def grepPythonFileMatches : List FileMatch :=
  (scanFrom regex options lines (range lines.length) {}).fileMatches

def matchCount (fileMatches : List FileMatch) : Nat := fileMatches.countP (·.isMatch)

/-- `_grep_with_python_sync`: the results and the total of matches, from the total so far. -/
def grepWithPython : List (String × List Text) → Nat → List (String × List FileMatch) × Nat
  | [], total => ([], total)
  | (path, lines) :: files, total =>
    let fileMatches := grepPythonFileMatches regex options lines
    let total := total + matchCount fileMatches
    let later := if maxMatches ≤ total then ([], total) else grepWithPython files total
    (if fileMatches = [] then later.1 else (path, fileMatches) :: later.1, later.2)

/-- The paths, before they are sorted and cut. -/
def formatFilesWithMatches (results : List (String × List FileMatch)) : List String :=
  (results.filter (·.2.any (·.isMatch))).map (·.1)

def formatCountResults (results : List (String × List FileMatch)) : List (String × Nat) :=
  (results.filter (·.2.any (·.isMatch))).map fun r => (r.1, matchCount r.2)

/-- The files for which `_format_grep_results` says that more matches may exist,
unless one file is the target. -/
def truncationHints (results : List (String × List FileMatch)) : List String :=
  (results.filter (options.maxPerFile ≤ matchCount ·.2)).map (·.1)

/-- The matching lines that are reported. -/
def reported : List Nat :=
  ((range lines.length).filter fun i => regex (lines.getD i [])).take
    (min options.maxPerFile maxMatches)

/-- The line is at most so far from one of the matches. -/
def Near (context : Nat) (found : List Nat) (i : Nat) : Prop :=
  ∃ m ∈ found, m ≤ i + context ∧ i ≤ m + context

/-- The line is one of the matches, and none of them comes shortly before it. -/
def Leads (context : Nat) (found : List Nat) (i : Nat) : Prop :=
  i ∈ found ∧ ∀ m ∈ found, m < i → m + context < i

instance (context : Nat) (found : List Nat) : DecidablePred (Near context found) :=
  fun i => inferInstanceAs (Decidable (∃ m ∈ found, m ≤ i + context ∧ i ≤ m + context))

instance (context : Nat) (found : List Nat) : DecidablePred (Leads context found) :=
  fun i => inferInstanceAs (Decidable (i ∈ found ∧ ∀ m ∈ found, m < i → m + context < i))

/-- What is emitted for a line, from the lines that matched. -/
def entry (found : List Nat) (i : Nat) : FileMatch where
  lineNumber := i + 1
  display := display (lines.getD i [])
  isMatch := Leads options.contextLines found i

variable {regex options lines} {found indices : List Nat} {m : Nat} {s : Scan}

theorem scanFrom_eq : scanFrom regex options lines indices s =
    ((indices.filter fun i => regex (lines.getD i [])).take
      (min options.maxPerFile maxMatches - s.matchCount)).foldl (emit options lines) s := by
  induction indices generalizing s with
  | nil => simp [scanFrom]
  | cons index indices ih =>
    unfold scanFrom
    rw [filter_cons]
    cases regex (lines.getD index []) with
    | false => simpa using ih
    | true =>
      rw [if_neg (by decide), if_pos rfl]
      by_cases hfull : options.maxPerFile ≤ s.matchCount ∨ maxMatches ≤ s.matchCount
      · have hzero : min options.maxPerFile maxMatches - s.matchCount = 0 := by omega
        simp [hfull, hzero]
      · obtain ⟨k, hk⟩ : ∃ k, min options.maxPerFile maxMatches - s.matchCount = k + 1 :=
          ⟨min options.maxPerFile maxMatches - s.matchCount - 1, by omega⟩
        have hrest : min options.maxPerFile maxMatches -
            (emit options lines s index).matchCount = k := by
          change _ - (s.matchCount + 1) = k
          omega
        rw [if_neg hfull, ih, hk, hrest, take_succ_cons, foldl_cons]

/-- What is near to the matches found so far is emitted. -/
structure Scanned (options : GrepOptions) (lines : List Text) (found : List Nat) (s : Scan) :
    Prop where
  emitted : s.emittedLines = (range lines.length).filter (Near options.contextLines found)
  entries : s.fileMatches = s.emittedLines.map (entry options lines found)

theorem near_append {context i : Nat} : Near context (found ++ [m]) i ↔
    Near context found i ∨ m ≤ i + context ∧ i ≤ m + context := by
  simp [Near, or_and_right, exists_or]

/-- What a further match adds comes after all that is emitted. -/
theorem filter_near_append (hlast : ∀ d ∈ found, d < m) :
    (range lines.length).filter (Near options.contextLines (found ++ [m])) =
      (range lines.length).filter (Near options.contextLines found) ++
        (window options lines m).filter (¬ Near options.contextLines found ·) := by
  apply Pairwise.eq_of_mem_iff (r := (· < ·))
  · exact pairwise_lt_range.filter _
  · refine pairwise_append.mpr ⟨pairwise_lt_range.filter _, (pairwise_lt_range' 1).filter _, ?_⟩
    intro i hi j hj
    simp only [mem_filter, window, mem_range'_1, decide_eq_true_eq] at hi hj
    obtain ⟨-, d, hd, hdi, hid⟩ := hi
    have hfar : ¬ (d ≤ j + options.contextLines ∧ j ≤ d + options.contextLines) :=
      fun h => hj.2 ⟨d, hd, h⟩
    have hless := hlast d hd
    omega
  · intro i
    simp only [mem_append, mem_filter, mem_range, window, mem_range'_1, near_append,
      decide_eq_true_eq]
    by_cases hnear : Near options.contextLines found i
    · simp [hnear]
    · simp only [hnear, false_or, and_false, not_false_eq_true, and_true]
      omega

theorem leads_append (hlast : ∀ d ∈ found, d < m) {i : Nat} :
    Leads options.contextLines (found ++ [m]) i ↔
      if Near options.contextLines found i then Leads options.contextLines found i else i = m := by
  simp only [Leads, mem_append, mem_singleton, or_imp, forall_and, forall_eq]
  split_ifs with hnear
  · obtain ⟨d, hd, hdi, hid⟩ := hnear
    have hless := hlast d hd
    constructor
    · rintro ⟨hi | rfl, hall, -⟩
      · exact ⟨hi, hall⟩
      · have hfar := hall d hd
        omega
    · rintro ⟨hi, hall⟩
      have hbefore := hlast i hi
      exact ⟨.inl hi, hall, by omega⟩
  · constructor
    · rintro ⟨hi | rfl, -⟩
      · exact absurd ⟨i, hi, by omega, by omega⟩ hnear
      · rfl
    · rintro rfl
      refine ⟨.inr rfl, fun x hx _ => ?_, by omega⟩
      by_contra hclose
      exact hnear ⟨x, hx, by omega, by omega⟩

theorem Scanned.emit (h : Scanned options lines found s) (hlast : ∀ d ∈ found, d < m) :
    Scanned options lines (found ++ [m]) (emit options lines s m) := by
  have hfresh : (window options lines m).filter (!s.emittedLines.contains ·) =
      (window options lines m).filter (¬ Near options.contextLines found ·) := by
    apply filter_congr
    intro i hi
    have hin : i < lines.length := by
      simp only [window, mem_range'_1] at hi
      omega
    rw [h.emitted, contains_eq_mem]
    simp [hin]
  constructor
  · rw [filter_near_append hlast, ← h.emitted, ← hfresh]
    rfl
  · change s.fileMatches ++ _ = (s.emittedLines ++ _).map _
    rw [map_append, h.entries]
    congr 1
    · apply map_congr_left
      intro i hi
      rw [h.emitted, mem_filter, decide_eq_true_eq] at hi
      simp only [entry, leads_append hlast, if_pos hi.2]
    · rw [hfresh]
      apply map_congr_left
      intro i hi
      have hfar := of_decide_eq_true (mem_filter.mp hi).2
      simp only [entry, leads_append hlast, if_neg hfar]

theorem scanned_foldl (h : found.Pairwise (· < ·)) :
    Scanned options lines found (found.foldl (emit options lines) {}) := by
  induction found using reverseRecOn with
  | nil => exact ⟨by simp [Near], rfl⟩
  | append_singleton found m ih =>
    rw [pairwise_append] at h
    rw [foldl_append]
    exact (ih h.1).emit fun d hd => h.2.2 d hd m (mem_singleton_self m)

theorem pairwise_reported : (reported regex options lines).Pairwise (· < ·) :=
  ((pairwise_lt_range.filter _).sublist (take_sublist _ _))

theorem grep_eq : grepPythonFileMatches regex options lines = ((range lines.length).filter
    (Near options.contextLines (reported regex options lines))).map
      (entry options lines (reported regex options lines)) := by
  have hscanned :
    Scanned options lines _ _ := scanned_foldl (@pairwise_reported regex options lines)
  rw [← hscanned.emitted, ← hscanned.entries]
  unfold grepPythonFileMatches
  rw [scanFrom_eq]
  rfl

/-- No match is in the context of an earlier one. -/
def Apart (context : Nat) (found : List Nat) : Prop :=
  ∀ a ∈ found, ∀ b ∈ found, a < b → a + context < b

theorem mem_near_reported : ∀ i ∈ reported regex options lines, i ∈ (range lines.length).filter
    (Near options.contextLines (reported regex options lines)) := by
  intro i hi
  exact mem_filter.mpr ⟨(mem_filter.mp (mem_of_mem_take hi)).1,
    decide_eq_true ⟨i, hi, by omega, by omega⟩⟩

theorem matchCount_eq_iff : matchCount (grepPythonFileMatches regex options lines) =
    (reported regex options lines).length ↔
      Apart options.contextLines (reported regex options lines) := by
  have hin := @mem_near_reported regex options lines
  have hsorted := @pairwise_reported regex options lines
  rw [grep_eq]
  generalize reported regex options lines = found at hin hsorted ⊢
  have hsame : ((range lines.length).filter (Near options.contextLines found)).filter
      (Leads options.contextLines found) = found.filter (Leads options.contextLines found) := by
    apply Pairwise.eq_of_mem_iff (r := (· < ·))
    · exact (pairwise_lt_range.filter _).filter _
    · exact hsorted.filter _
    · intro i
      rw [mem_filter, @mem_filter _ _ found, decide_eq_true_eq]
      exact ⟨fun h => ⟨h.2.1, h.2⟩, fun h => ⟨hin i h.1, h.2⟩⟩
  rw [matchCount, countP_map, countP_eq_length_filter]
  change (((range lines.length).filter _).filter (Leads options.contextLines found)).length = _ ↔ _
  rw [hsame, ← countP_eq_length_filter, countP_eq_length]
  simp only [decide_eq_true_eq]
  exact ⟨fun h a ha b hb hless => (h b hb).2 a ha hless,
    fun h b hb => ⟨hb, fun a ha hless => h a ha b hb hless⟩⟩

theorem grep_eq_nil_iff :
    grepPythonFileMatches regex options lines = [] ↔ reported regex options lines = [] := by
  constructor
  · intro h
    rw [grep_eq, map_eq_nil_iff] at h
    refine eq_nil_iff_forall_not_mem.mpr fun i hi => ?_
    have hnear := mem_near_reported i hi
    rw [h] at hnear
    exact not_mem_nil hnear
  · intro h
    simp [grep_eq, h, Near]

def counts (results : List (String × List FileMatch)) : List (String × Nat) :=
  results.map fun r => (r.1, matchCount r.2)

theorem any_isMatch (fileMatches : List FileMatch) :
    fileMatches.any (·.isMatch) = decide (0 < matchCount fileMatches) := by
  rw [matchCount, Bool.eq_iff_iff, any_eq_true, decide_eq_true_eq, countP_pos_iff]

section

variable (results : List (String × List FileMatch))

theorem formatFilesWithMatches_eq :
    formatFilesWithMatches results = ((counts results).filter (0 < ·.2)).map (·.1) := by
  simp [formatFilesWithMatches, counts, filter_map, any_isMatch, Function.comp_def]

theorem formatCountResults_eq :
    formatCountResults results = (counts results).filter (0 < ·.2) := by
  simp [formatCountResults, counts, filter_map, any_isMatch, Function.comp_def]

theorem truncationHints_eq :
    truncationHints options results =
      ((counts results).filter (options.maxPerFile ≤ ·.2)).map (·.1) := by
  simp [truncationHints, counts, filter_map, Function.comp_def]

end

/-- The files that have matches and the total, where a file has so many of them. -/
def tally (size : List Text → Nat) : List (String × List Text) → Nat → List (String × Nat) × Nat
  | [], total => ([], total)
  | (path, lines) :: files, total =>
    let total := total + size lines
    let later := if maxMatches ≤ total then ([], total) else tally size files total
    (if size lines = 0 then later.1 else (path, size lines) :: later.1, later.2)

theorem grepWithPython_counts {files : List (String × List Text)}
    (h : ∀ f ∈ files, Apart options.contextLines (reported regex options f.2)) (total : Nat) :
    (counts (grepWithPython regex options files total).1,
        (grepWithPython regex options files total).2) =
      tally (fun lines => (reported regex options lines).length) files total := by
  induction files generalizing total with
  | nil => rfl
  | cons f files ih =>
    have hcount := matchCount_eq_iff.mpr (h f mem_cons_self)
    have hrest := ih fun g hg => h g (mem_cons_of_mem _ hg)
    simp only [grepWithPython, tally, hcount, grep_eq_nil_iff, length_eq_zero_iff, ← hrest]
    split_ifs <;> simp [counts, hcount]

/-- The lines around the reported ones are emitted, each once and in ascending order; the matches
among them are flagged and counted exactly if none is in the context of an earlier one, and where
that holds in every file, what is found, counted and hinted at does not depend on the context. -/
theorem grep_flags_iff (regex : Text → Bool) (options : GrepOptions) (lines : List Text) :
    (grepPythonFileMatches regex options lines).map (·.lineNumber) = ((range lines.length).filter
        (Near options.contextLines (reported regex options lines))).map (· + 1) ∧
    ((∀ e ∈ grepPythonFileMatches regex options lines,
        e.isMatch ↔ e.lineNumber - 1 ∈ reported regex options lines) ↔
      Apart options.contextLines (reported regex options lines)) ∧
    ((grepPythonFileMatches regex options lines).countP (·.isMatch) =
        (reported regex options lines).length ↔
      Apart options.contextLines (reported regex options lines)) ∧
    ∀ files : List (String × List Text),
      (∀ f ∈ files, Apart options.contextLines (reported regex options f.2)) →
      let found := grepWithPython regex options files 0
      let plain := grepWithPython regex { options with contextLines := 0 } files 0
      formatFilesWithMatches found.1 = formatFilesWithMatches plain.1 ∧
        formatCountResults found.1 = formatCountResults plain.1 ∧
        truncationHints options found.1 = truncationHints options plain.1 ∧ found.2 = plain.2 := by
  refine ⟨by rw [grep_eq, map_map]; rfl, ?_, matchCount_eq_iff, ?_⟩
  · have hin := @mem_near_reported regex options lines
    rw [grep_eq]
    generalize reported regex options lines = found at hin ⊢
    simp only [forall_mem_map, entry, Nat.add_sub_cancel, decide_eq_true_eq]
    constructor
    · intro h a ha b hb hless
      exact ((h b (hin b hb)).mpr hb).2 a ha hless
    · intro h i _
      exact ⟨And.left, fun hi => ⟨hi, fun d hd hless => h d hd i hi hless⟩⟩
  · intro files hapart
    let plain : GrepOptions := { options with contextLines := 0 }
    have hplain : ∀ f ∈ files, Apart plain.contextLines (reported regex plain f.2) :=
      fun _ _ _ _ _ _ hless => hless
    obtain ⟨hcounts, htotal⟩ := Prod.mk.inj ((grepWithPython_counts hapart 0).trans
      (grepWithPython_counts hplain 0).symm)
    refine ⟨?_, ?_, ?_, htotal⟩
    · rw [formatFilesWithMatches_eq, hcounts, ← formatFilesWithMatches_eq]
    · rw [formatCountResults_eq, hcounts, ← formatCountResults_eq]
    · rw [truncationHints_eq, hcounts, ← truncationHints_eq]

/-- Of two adjacent lines that match, only the first is flagged with a line of context. -/
theorem second_match_unflagged : let options : GrepOptions := ⟨1, 10⟩
    let lines := ["a".toList, "a".toList]
    ¬ ∀ e ∈ grepPythonFileMatches (· == "a".toList) options lines,
      e.isMatch ↔ e.lineNumber - 1 ∈ reported (· == "a".toList) options lines := by
  decide

end Cognis.FileSearch
