import Cognis.Library.PythonText
import Cognis.Library.Reassembly

namespace Cognis.JsonStream

open List PythonText Reassembly

structure JSONDecodeError where
  msg : String
  pos : Nat

/-- `json_codec`: `msgspec`, and the decoder of the standard library where that refuses a text. -/
structure JsonCodec where
  Value : Type
  loads : Text → Except JSONDecodeError Value
  /-- `isinstance(value, dict)`. -/
  isDict : Value → Bool
  /-- `existing_object != incoming_object`. -/
  differ : Value → Value → Bool

variable (k : JsonCodec)

def parseJsonObject (raw : Text) : Option k.Value :=
  let raw := strip raw
  if raw.isEmpty then none
  else
    match k.loads raw with
    | .error _ => none
    | .ok parsed => if k.isDict parsed then some parsed else none

variable (existing incoming : Text)

/-- Nested values and delimiters, recognized before the guesses at replays. -/
def isStructuralContinuation : Bool :=
  if (parseJsonObject k incoming).isNone &&
      incoming.any (fun c => !"\x7b\x7d[],: \t\r\n".toList.contains c) then false
  else
    let combined := strip (existing ++ incoming)
    if !(['\x7b'].isPrefixOf combined) then false
    else
      match k.loads combined with
      | .error e => e.pos == combined.length &&
          ["Expecting value", "Expecting property name enclosed in double quotes",
            "Expecting ',' delimiter"].contains e.msg
      | .ok parsed => k.isDict parsed

structure IncrementalJsonMergeResult where
  merged : Text
  emitted : Text
  replaced : Bool := false
  deriving DecidableEq

def isCorrectedReplay : Bool :=
  match parseJsonObject k existing, parseJsonObject k incoming with
  | none, some _ => existing.length ≤ incoming.length
  | some existingObject, some incomingObject => k.differ existingObject incomingObject
  | _, none => false

/-- `range(n, 0, -1)`. -/
def overlaps (n : Nat) : List Nat := ((range n).map (· + 1)).reverse

def longestOverlap : Option Nat :=
  (overlaps (min existing.length incoming.length)).find? fun overlap =>
    (incoming.take overlap).isSuffixOf existing

def mergeIncrementalJsonFragment : IncrementalJsonMergeResult :=
  if incoming.isEmpty then { merged := existing, emitted := [] }
  else if existing.isEmpty then { merged := incoming, emitted := incoming }
  else if existing.isPrefixOf incoming then
    { merged := incoming, emitted := incoming.drop existing.length }
  else if isStructuralContinuation k existing incoming then
    { merged := existing ++ incoming, emitted := incoming }
  else if incoming.isPrefixOf existing then { merged := existing, emitted := [] }
  else if isCorrectedReplay k existing incoming then
    { merged := incoming, emitted := incoming, replaced := true }
  else
    match longestOverlap existing incoming with
    | some overlap =>
      { merged := existing ++ incoming.drop overlap, emitted := incoming.drop overlap }
    | none => { merged := existing ++ incoming, emitted := incoming }

def streamed (fragments : List Text) : Text × Text :=
  reassemble (fun existing incoming =>
    let result := mergeIncrementalJsonFragment k existing incoming
    (result.merged, result.emitted)) fragments

def Innocent : Prop :=
  incoming = [] ∨ existing = [] ∨ ¬ existing <+: incoming ∧
    (isStructuralContinuation k existing incoming = true ∨
      ¬ incoming <+: existing ∧ isCorrectedReplay k existing incoming = false ∧
        ∀ n, 0 < n → n ≤ incoming.length → ¬ incoming.take n <:+ existing)

variable {k} {existing incoming : Text}

theorem mem_overlaps {n overlap : Nat} : overlap ∈ overlaps n ↔ 0 < overlap ∧ overlap ≤ n := by
  unfold overlaps
  simp only [mem_reverse, mem_map, mem_range]
  constructor
  · rintro ⟨m, hm, rfl⟩
    omega
  · rintro ⟨hpos, hle⟩
    exact ⟨overlap - 1, by omega, by omega⟩

theorem longestOverlap_none : longestOverlap existing incoming = none ↔
    ∀ n, 0 < n → n ≤ incoming.length → ¬ incoming.take n <:+ existing := by
  unfold longestOverlap
  rw [find?_eq_none]
  constructor
  · intro hnone n hpos hle hsuffix
    have hshort := hsuffix.length_le
    rw [length_take] at hshort
    apply hnone n (mem_overlaps.mpr ⟨hpos, by omega⟩)
    exact isSuffixOf_iff_suffix.mpr hsuffix
  · intro hnone n hn hfound
    obtain ⟨hpos, hle⟩ := mem_overlaps.mp hn
    exact hnone n hpos (by omega) (isSuffixOf_iff_suffix.mp hfound)

theorem longestOverlap_some {overlap : Nat} (h : longestOverlap existing incoming = some overlap) :
    0 < overlap ∧ overlap ≤ incoming.length := by
  obtain ⟨hpos, hle⟩ := mem_overlaps.mp (mem_of_find?_eq_some h)
  exact ⟨hpos, by omega⟩

theorem merge_of_innocent (h : Innocent k existing incoming) :
    (mergeIncrementalJsonFragment k existing incoming).merged = existing ++ incoming ∧
      (mergeIncrementalJsonFragment k existing incoming).emitted = incoming := by
  unfold mergeIncrementalJsonFragment
  split_ifs with hempty hfirst hrestart hcontinues hreplay hcorrected
  · rw [List.isEmpty_iff.mp hempty, append_nil]
    exact ⟨rfl, rfl⟩
  · rw [List.isEmpty_iff.mp hfirst]
    exact ⟨rfl, rfl⟩
  · rcases h with hnil | hnil | ⟨hno, -⟩
    · exact absurd (List.isEmpty_iff.mpr hnil) hempty
    · exact absurd (List.isEmpty_iff.mpr hnil) hfirst
    · exact (hno <| isPrefixOf_iff_prefix.mp hrestart).elim
  · exact ⟨rfl, rfl⟩
  all_goals
    have hplain : ¬ incoming <+: existing ∧ isCorrectedReplay k existing incoming = false ∧
        ∀ n, 0 < n → n ≤ incoming.length → ¬ incoming.take n <:+ existing := by
      rcases h with hnil | hnil | ⟨-, hstructural | hrest⟩
      · exact absurd (List.isEmpty_iff.mpr hnil) hempty
      · exact absurd (List.isEmpty_iff.mpr hnil) hfirst
      · exact absurd hstructural hcontinues
      · exact hrest
  · exact (hplain.1 <| isPrefixOf_iff_prefix.mp hreplay).elim
  · rw [hplain.2.1] at hcorrected
    cases hcorrected
  · rw [longestOverlap_none.mpr hplain.2.2]
    exact ⟨rfl, rfl⟩

theorem merge_of_guilty (h : ¬ Innocent k existing incoming) :
    (mergeIncrementalJsonFragment k existing incoming).merged.length <
      existing.length + incoming.length := by
  have hincoming : incoming ≠ [] := fun hnil => h (.inl hnil)
  have hexisting : existing ≠ [] := fun hnil => h (.inr (.inl hnil))
  have hpos := length_pos_iff.mpr hincoming
  have hpos' := length_pos_iff.mpr hexisting
  unfold mergeIncrementalJsonFragment
  rw [if_neg fun hc => hincoming (List.isEmpty_iff.mp hc),
    if_neg fun hc => hexisting (List.isEmpty_iff.mp hc)]
  split_ifs with hrestart hcontinues hreplay hcorrected
  · change incoming.length < _
    omega
  · exfalso
    apply h
    refine .inr (.inr ⟨?_, .inl hcontinues⟩)
    intro hstart
    exact hrestart <| isPrefixOf_iff_prefix.mpr hstart
  · change existing.length < _
    omega
  · change incoming.length < _
    omega
  · cases hoverlap : longestOverlap existing incoming with
    | some overlap =>
      obtain ⟨hsome, hle⟩ := longestOverlap_some hoverlap
      rw [length_append, length_drop]
      omega
    | none =>
      exfalso
      apply h
      refine .inr (.inr ⟨?_, .inr ⟨?_, ?_, longestOverlap_none.mp hoverlap⟩⟩)
      · intro hstart
        exact hrestart <| isPrefixOf_iff_prefix.mpr hstart
      · intro hstart
        exact hreplay <| isPrefixOf_iff_prefix.mpr hstart
      · exact Bool.not_eq_true _ ▸ hcorrected

/-- The fragments of a stream come to their text exactly if none is taken for a replay. -/
theorem streamed_exact_iff (k : JsonCodec) (fragments : List Text) :
    streamed k fragments = (fragments.flatten, fragments.flatten) ↔
      ∀ before fragment, before ++ [fragment] <+: fragments →
        Innocent k before.flatten fragment := by
  have hloses : Loses (fun existing incoming =>
      ((mergeIncrementalJsonFragment k existing incoming).merged,
        (mergeIncrementalJsonFragment k existing incoming).emitted)) (Innocent k) := by
    constructor
    · intro existing incoming h
      obtain ⟨hmerged, hemitted⟩ := merge_of_innocent h
      rw [hmerged, hemitted]
    · intro existing incoming h
      exact merge_of_guilty h
  exact hloses.exact_iff fragments

def doubledLetter : List Text := ["\x7b\"a\":\"x".toList, "x\"\x7d".toList]

/-- The decoder's replies to the object and to its two parts. -/
def objectCodec : JsonCodec where
  Value := Unit
  loads := fun raw =>
    if raw = doubledLetter.flatten then .ok ()
    else if raw = "x\"\x7d".toList then .error ⟨"Expecting value", 0⟩
    else .error ⟨"Unterminated string starting at", 5⟩
  isDict := fun _ => true
  differ := fun _ _ => false

/-- The second letter is taken for a replay of the first. -/
theorem doubled_letter_lost :
    (parseJsonObject objectCodec doubledLetter.flatten).isSome = true ∧
      (∀ fragment ∈ doubledLetter, fragment ≠ []) ∧
      streamed objectCodec doubledLetter ≠ (doubledLetter.flatten, doubledLetter.flatten) := by
  decide

end Cognis.JsonStream
