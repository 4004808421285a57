import Cognis.Speech.Stream

namespace Cognis.Speech

open List Option PythonText

def splitFence : Text → Option (Text × Text)
  | [] => none
  | c :: rest =>
    if startsFence (c :: rest) then some ([], rest.drop 2)
    else (splitFence rest).map fun parts => (c :: parts.1, parts.2)

variable {text before after : Text}

theorem splitFence_eq (h : splitFence text = some (before, after)) :
    text = before ++ (fence ++ after) := by
  induction text generalizing before with
  | nil => cases h
  | cons c rest ih =>
    unfold splitFence at h
    split_ifs at h with hfence
    · cases h
      exact split_fence hfence
    · obtain ⟨⟨before', after'⟩, hrest, heq⟩ := map_eq_some_iff.mp h
      cases heq
      rw [ih hrest, cons_append]

theorem splitFence_lt (h : splitFence text = some (before, after)) :
    after.length < text.length := by
  have hlength := congrArg length (splitFence_eq h)
  simp only [length_append, fence, length_cons, length_nil] at hlength
  omega

def outsideFences (text : Text) : List Text :=
  match _h : splitFence text with
  | none => [text]
  | some (before, inside) =>
    match _h' : splitFence inside with
    | none => [before]
    | some (_, after) => before :: outsideFences after
termination_by text.length
decreasing_by exact Nat.lt_trans (splitFence_lt ‹_›) (splitFence_lt ‹_›)

def endsInCode (text : Text) : Bool :=
  match _h : splitFence text with
  | none => false
  | some (_, inside) =>
    match _h' : splitFence inside with
    | none => true
    | some (_, after) => endsInCode after
termination_by text.length
decreasing_by exact Nat.lt_trans (splitFence_lt ‹_›) (splitFence_lt ‹_›)

variable {seen text before inside after first code : Text} {c : Char}

theorem splitFence_suffix (first : Text)
    (h : splitFence (first ++ (before ++ (fence ++ inside))) = some (first ++ before, inside)) :
    splitFence (before ++ (fence ++ inside)) = some (before, inside) := by
  induction first with
  | nil => exact h
  | cons c first ih =>
    rw [cons_append, splitFence] at h
    split_ifs at h with hfence
    · cases h
    · obtain ⟨⟨before', after'⟩, hrest, heq⟩ := map_eq_some_iff.mp h
      cases heq
      exact ih hrest

theorem walk_inside (h : splitFence inside = some (code, after)) :
    walk seen inside true = walk [] after false := by
  induction inside generalizing seen code with
  | nil => cases h
  | cons c rest ih =>
    unfold splitFence at h
    split_ifs at h with hfence
    · cases h
      exact walk_close hfence
    · rw [Bool.not_eq_true] at hfence
      obtain ⟨⟨code', after'⟩, hrest, heq⟩ := map_eq_some_iff.mp h
      cases heq
      rw [walk_code hfence]
      exact ih hrest

theorem walk_unclosed (h : splitFence inside = none) :
    walk seen inside true = .open (seen ++ inside) true := by
  induction inside generalizing seen with
  | nil => rw [walk_nil, append_nil]
  | cons c rest ih =>
    unfold splitFence at h
    split_ifs at h with hfence
    rw [Bool.not_eq_true] at hfence
    rw [walk_code hfence, ih (map_eq_none_iff.mp h), append_assoc, singleton_append]

theorem dropWhile_fence (before inside : Text) : (before ++ (fence ++ inside)).dropWhile isSpace =
    before.dropWhile isSpace ++ (fence ++ inside) := by
  rw [dropWhile_append]
  split_ifs with hempty
  · rw [List.isEmpty_iff.mp hempty]
    rfl
  · rfl

theorem endsSentence_fence : endsSentence seen c (before ++ (fence ++ inside)) =
    endsSentence seen c before := by
  cases before with
  | nil =>
    unfold endsSentence
    have hblank : isSpace '\x60' = false := by decide
    simp [fence, hblank]
  | cons => rfl

theorem walk_before (seen : Text)
    (h : splitFence (before ++ (fence ++ inside)) = some (before, inside)) :
    (∃ sentence remainder, walk seen before false = .found sentence remainder ∧
      walk seen (before ++ (fence ++ inside)) false =
        .found sentence (remainder ++ (fence ++ inside)) ∧
      splitFence (remainder ++ (fence ++ inside)) = some (remainder, inside)) ∨
    (∃ buffer, walk seen before false = .open buffer false) ∧
      walk seen (before ++ (fence ++ inside)) false =
        walk (seen ++ before ++ fence) inside true := by
  induction before generalizing seen with
  | nil =>
    refine .inr ⟨⟨seen, walk_nil⟩, ?_⟩
    rw [append_nil]
    exact walk_enter (startsFence_iff.mpr ⟨inside, rfl⟩)
  | cons c before ih =>
    have hfence : startsFence (c :: (before ++ (fence ++ inside))) = false := by
      cases hstarts : startsFence (c :: (before ++ (fence ++ inside))) with
      | false => rfl
      | true =>
        rw [cons_append, splitFence, if_pos hstarts] at h
        cases h
    have hnot : startsFence (c :: before) = false := by
      cases hstarts : startsFence (c :: before) with
      | false => rfl
      | true =>
        rw [startsFence_append hstarts] at hfence
        cases hfence
    have hrest : splitFence (before ++ (fence ++ inside)) = some (before, inside) :=
      splitFence_suffix [c] h
    cases hends : endsSentence seen c before with
    | true =>
      left
      refine ⟨seen ++ [c], before.dropWhile isSpace, walk_end hnot hends, ?_, ?_⟩
      · rw [cons_append, walk_end hfence (endsSentence_fence.trans hends), dropWhile_fence]
      · apply splitFence_suffix (before.takeWhile isSpace)
        rw [← append_assoc, takeWhile_append_dropWhile]
        exact hrest
    | false =>
      rw [cons_append, walk_on hnot hends, walk_on hfence (endsSentence_fence.trans hends)]
      obtain hfound | ⟨hopen, hinside⟩ := ih (seen ++ [c]) hrest
      · exact .inl hfound
      · refine .inr ⟨hopen, ?_⟩
        rw [hinside, append_assoc seen, singleton_append]

@[simp] theorem Drained.after_after (d : Drained) (xs ys : List Text) :
    (d.after xs).after ys = d.after (ys ++ xs) := by
  simp [Drained.after]

section

variable (h : splitFence (before ++ (fence ++ inside)) = some (before, inside))
include h

theorem drained_closed
    (hinside : splitFence inside = some (code, after)) :
    drained (before ++ (fence ++ inside)) false =
      (drained after false).after (drained before false).texts := by
  induction hlen : before.length using Nat.strongRecOn generalizing before with
  | ind n ih =>
    subst hlen
    obtain ⟨sentence, remainder, hfound, hwhole, hsplit⟩ | ⟨⟨buffer, hopen⟩, hwhole⟩ :=
      walk_before [] h
    · have hrest := ih remainder.length (walk_found_length hfound) hsplit rfl
      rw [drained_found hwhole, drained_found hfound, hrest, Drained.after_after]
      rfl
    · rw [walk_inside hinside] at hwhole
      rw [drained_open hopen, drained_congr hwhole]
      rfl

theorem drained_unclosed
    (hinside : splitFence inside = none) :
    (drained (before ++ (fence ++ inside)) false).texts = (drained before false).texts ∧
      (drained (before ++ (fence ++ inside)) false).inCode := by
  induction hlen : before.length using Nat.strongRecOn generalizing before with
  | ind n ih =>
    subst hlen
    obtain ⟨sentence, remainder, hfound, hwhole, hsplit⟩ | ⟨⟨buffer, hopen⟩, hwhole⟩ :=
      walk_before [] h
    · obtain ⟨htexts, hcode⟩ := ih remainder.length (walk_found_length hfound) hsplit rfl
      rw [drained_found hwhole, drained_found hfound]
      refine ⟨?_, hcode⟩
      simp only [Drained.after]
      rw [htexts]
    · rw [walk_unclosed hinside] at hwhole
      rw [drained_open hopen, drained_open hwhole]
      exact ⟨rfl, rfl⟩

end

theorem walk_plain (h : splitFence text = none) (hwalk : walk seen text false = .open before true) :
    False := by
  induction text generalizing seen with
  | nil =>
    rw [walk_nil] at hwalk
    cases hwalk
  | cons c rest ih =>
    unfold splitFence at h
    split_ifs at h with hfence
    rw [Bool.not_eq_true] at hfence
    cases hends : endsSentence seen c rest with
    | true =>
      rw [walk_end hfence hends] at hwalk
      cases hwalk
    | false =>
      rw [walk_on hfence hends] at hwalk
      exact ih (map_eq_none_iff.mp h) hwalk

theorem splitFence_drop (first : Text) (h : splitFence (first ++ text) = none) :
    splitFence text = none := by
  induction first with
  | nil => exact h
  | cons c first ih =>
    rw [cons_append, splitFence] at h
    split_ifs at h
    exact ih (map_eq_none_iff.mp h)

theorem drained_plain (h : splitFence text = none) : (drained text false).inCode = false := by
  induction hlen : text.length using Nat.strongRecOn generalizing text with
  | ind n ih =>
    subst hlen
    cases hwalk : walk [] text false with
    | «open» buffer code =>
      rw [drained_open hwalk]
      cases code with
      | false => rfl
      | true => exact (walk_plain h hwalk).elim
    | found sentence remainder =>
      obtain ⟨before, c, tail, htext, -, -, hremainder, -⟩ := walk_append_found hwalk
      have hsplit : splitFence remainder = none := by
        apply splitFence_drop (before ++ c :: tail.takeWhile isSpace)
        rw [hremainder, append_assoc, cons_append, takeWhile_append_dropWhile, ← htext]
        exact h
      rw [drained_found hwalk]
      exact ih remainder.length (walk_found_length hwalk) hsplit rfl

theorem outside_plain (h : splitFence text = none) :
    outsideFences text = [text] ∧ endsInCode text = false := by
  rw [outsideFences, endsInCode]
  split
  · exact ⟨rfl, rfl⟩
  · rename_i heq
    rw [h] at heq
    cases heq

theorem outside_unclosed (h : splitFence text = some (before, inside))
    (hinside : splitFence inside = none) :
    outsideFences text = [before] ∧ endsInCode text := by
  rw [outsideFences, endsInCode]
  split
  · rename_i heq
    rw [h] at heq
    cases heq
  · rename_i heq
    rw [h] at heq
    cases heq
    split
    · exact ⟨rfl, rfl⟩
    · rename_i heq
      rw [hinside] at heq
      cases heq

theorem outside_closed (h : splitFence text = some (before, inside))
    (hinside : splitFence inside = some (code, after)) :
    outsideFences text = before :: outsideFences after ∧ endsInCode text = endsInCode after := by
  rw [outsideFences, endsInCode]
  split
  · rename_i heq
    rw [h] at heq
    cases heq
  · rename_i heq
    rw [h] at heq
    cases heq
    split
    · rename_i heq
      rw [hinside] at heq
      cases heq
    · rename_i heq
      rw [hinside] at heq
      cases heq
      exact ⟨rfl, rfl⟩

/-- The sentences of a text are those of its parts outside the fences, and it is left in code
exactly if its last fence opens a block. -/
theorem drained_fences (text : Text) : (drained text false).texts =
        (outsideFences text).flatMap (fun part => (drained part false).texts) ∧
      (drained text false).inCode = endsInCode text := by
  induction hlen : text.length using Nat.strongRecOn generalizing text with
  | ind n ih =>
    subst hlen
    cases hsplit : splitFence text with
    | none =>
      obtain ⟨hparts, hends⟩ := outside_plain hsplit
      rw [hparts, hends, flatMap_singleton]
      exact ⟨rfl, drained_plain hsplit⟩
    | some parts =>
      obtain ⟨before, inside⟩ := parts
      have hcut : splitFence (before ++ (fence ++ inside)) = some (before, inside) := by
        rw [← splitFence_eq hsplit]
        exact hsplit
      have htext : drained text false = drained (before ++ (fence ++ inside)) false := by
        rw [← splitFence_eq hsplit]
      cases hinside : splitFence inside with
      | none =>
        obtain ⟨hparts, hends⟩ := outside_unclosed hsplit hinside
        rw [hparts, hends, flatMap_singleton, htext]
        exact drained_unclosed hcut hinside
      | some parts =>
        obtain ⟨code, after⟩ := parts
        obtain ⟨hparts, hends⟩ := outside_closed hsplit hinside
        have hlt : after.length < text.length :=
          Nat.lt_trans (splitFence_lt hinside) (splitFence_lt hsplit)
        obtain ⟨htexts, hcode⟩ := ih after.length hlt after rfl
        rw [hparts, hends, flatMap_cons, htext, drained_closed hcut hinside, ← htexts]
        exact ⟨rfl, hcode⟩

/-- No token ends inside a code block, nor where a sentence has just left the buffer empty and
blanks come next that are, on their line, before a heading; tokens with nothing after them
may. -/
def CutWell (tokens : List Text) : Prop :=
  ∀ before after, before ++ after = tokens → after.flatten ≠ [] →
    endsInCode before.flatten = false ∧
      (LeavesNothing before.flatten → CalmBefore [] after.flatten)

variable {tokens : List Text}

theorem cutsWell_of_cutWell (h : CutWell tokens) : CutsWell [] tokens := by
  intro before after htokens hmore
  rw [nil_append, (drained_fences before.flatten).2]
  exact h before after htokens hmore

theorem sentences_whole (h : CutWell tokens) : sentences tokens = numbered 0
      ((drained tokens.flatten false).texts ++ flushed (drained tokens.flatten false).buffer) := by
  obtain ⟨htexts, hflushed⟩ := streamed_whole (cutsWell_of_cutWell h)
  rw [sentences_eq, htexts, hflushed]

theorem midstream_single (part : Text) :
    midstream [part] = numbered 0 (drained part false).texts := by
  rw [midstream_eq]
  unfold streamed
  split_ifs with hempty
  · rw [List.isEmpty_iff.mp hempty, drained_open walk_nil]
    rfl
  · simp [streamed, Drained.then, Drained.after]

theorem map_snd_numbered (index : Nat) (texts : List Text) :
    (numbered index texts).map Prod.snd = texts := by
  induction texts generalizing index with
  | nil => rfl
  | cons text texts ih => rw [numbered, map_cons, ih]

theorem midstream_outside (h : CutWell tokens) : (midstream tokens).map Prod.snd =
      (outsideFences tokens.flatten).flatMap fun part => (midstream [part]).map Prod.snd := by
  rw [midstream_eq, map_snd_numbered, (streamed_whole (cutsWell_of_cutWell h)).1,
    (drained_fences tokens.flatten).1]
  congr 1
  funext part
  rw [midstream_single, map_snd_numbered]

/-- Two ways of cutting a text well give the same sentences, and those before the end are the
sentences of the parts outside the fences, each fed to a buffer of its own. -/
theorem sentences_of_cuts {tokens tokens' : List Text} (hsame : tokens.flatten = tokens'.flatten)
    (h : CutWell tokens) (h' : CutWell tokens') :
    sentences tokens = sentences tokens' ∧ (midstream tokens).map Prod.snd =
      (outsideFences tokens.flatten).flatMap fun part => (midstream [part]).map Prod.snd := by
  refine ⟨?_, midstream_outside h⟩
  rw [sentences_whole h, sentences_whole h', hsame]

theorem not_leavesNothing_nil : ¬ LeavesNothing [] := not_leavesNothing_of_open walk_nil

/-- A text in two tokens has one cut. -/
theorem cutWell_pair {first second : Text} (hcode : endsInCode first = false)
    (hcut : LeavesNothing first → CalmBefore [] second) : CutWell [first, second] := by
  intro before after htokens hmore
  match before with
  | [] => exact ⟨(outside_plain rfl).2, fun h => absurd h not_leavesNothing_nil⟩
  | [_] =>
    obtain ⟨rfl, rfl⟩ := List.cons.inj htokens
    rw [flatten_singleton, flatten_singleton]
    exact ⟨hcode, hcut⟩
  | _ :: _ :: before =>
    have hnil : before ++ after = [] := (List.cons.inj (List.cons.inj htokens).2).2
    rw [(append_eq_nil_iff.mp hnil).2] at hmore
    exact absurd rfl hmore

theorem cutWell_single (text : Text) : CutWell [text] := by
  intro before after htokens hmore
  cases before with
  | nil => exact ⟨(outside_plain rfl).2, fun h => absurd h not_leavesNothing_nil⟩
  | cons first before =>
    have hnil : before ++ after = [] := (List.cons.inj htokens).2
    rw [(append_eq_nil_iff.mp hnil).2] at hmore
    exact absurd rfl hmore

def plainTokens : List Text :=
  ["Hello my dear friend. ".toList, "\x60\x60\x60x = 1. y\x60\x60\x60 Bye".toList]

/-- The first token is a sentence and its blank, the second a block and more. -/
theorem sentences_of_plain_cuts : sentences plainTokens = sentences [plainTokens.flatten] ∧
      (midstream plainTokens).map Prod.snd = (outsideFences plainTokens.flatten).flatMap
        fun part => (midstream [part]).map Prod.snd :=
  sentences_of_cuts (by rw [flatten_singleton])
    (cutWell_pair (outside_plain (by decide)).2 fun _ => .inl rfl) (cutWell_single _)

/-- A cut inside a block can go unheard: the link pattern takes the rest of the block away. -/
example : endsInCode "\x60\x60\x60[)](".toList = true ∧
    sentences ["\x60\x60\x60[)](".toList, "\x60\x60\x60) more".toList] =
      sentences ["\x60\x60\x60[)](\x60\x60\x60) more".toList] := by
  decide +kernel

/-- A cut inside a block: its opening fence is taken for the closing one. -/
theorem open_block_spoken : ¬ ∀ tokens tokens' : List Text, tokens.flatten = tokens'.flatten →
      sentences tokens = sentences tokens' := by
  intro hall
  have hsame := hall ["\x60\x60\x60x".toList, "\x60\x60\x60".toList]
    ["\x60\x60\x60x\x60\x60\x60".toList] (by decide)
  revert hsame
  decide +kernel

end Cognis.Speech
