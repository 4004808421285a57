import Cognis.Speech.Drain

namespace Cognis.Speech

open Bool List PythonText

section

variable {seen rest text lead more future buffer : Text} {inCode : Bool} {c : Char}

theorem takeWhile_append_of_ne {p : Char → Bool} (h : text.dropWhile p ≠ []) :
    (text ++ more).takeWhile p = text.takeWhile p := by
  rw [takeWhile_append]
  split_ifs with hall
  · have hsplit := congrArg length (takeWhile_append_dropWhile (p := p) (l := text))
    rw [length_append, hall] at hsplit
    have hzero : (text.dropWhile p).length = 0 := by omega
    exact absurd (eq_nil_of_length_eq_zero hzero) h
  · rfl

theorem takeWhile_prefix_append (p : Char → Bool) (text more : Text) :
    text.takeWhile p <+: (text ++ more).takeWhile p := by
  rw [takeWhile_append]
  split_ifs
  · have hfirst := takeWhile_prefix p (l := text)
    exact hfirst.trans (prefix_append text _)
  · exact prefix_refl _

theorem headingLength_part {first : Text} (hfirst : first <+: text)
    (h : headingLength text = none) : headingLength first = none := by
  obtain ⟨more, rfl⟩ := hfirst
  cases hlength : headingLength first with
  | none => rfl
  | some n =>
    unfold headingLength at h hlength
    dsimp only at h hlength
    split_ifs at hlength with hmatch
    have hne : first.dropWhile (· == '#') ≠ [] := by
      intro hnil
      rw [hnil] at hmatch
      exact absurd hmatch.2.2 (by decide)
    have hblanks := (takeWhile_prefix_append isSpace (first.dropWhile (· == '#')) more).length_le
    rw [takeWhile_append_of_ne hne, dropWhile_append_of_ne hne,
      if_pos ⟨hmatch.1, hmatch.2.1, Nat.lt_of_lt_of_le hmatch.2.2 hblanks⟩] at h
    cases h

theorem Calm.part {first : Text} (h : Calm lead text) (hfirst : first <+: text) :
    Calm lead first := by
  obtain hnil | hline | hnone := h
  · exact .inl hnil
  · exact .inr (.inl hline)
  · exact .inr (.inr (headingLength_part hfirst hnone))

theorem calm_nil (lead : Text) : Calm lead [] := .inr (.inr rfl)

theorem walk_blanks (h : ∀ c ∈ lead, isSpace c) (rest : Text) :
    walk seen (lead ++ rest) false = walk (seen ++ lead) rest false := by
  induction lead generalizing seen with
  | nil => rw [nil_append, append_nil]
  | cons c lead ih =>
    have hc : isSpace c := h c mem_cons_self
    have hfence : startsFence (c :: (lead ++ rest)) = false := by
      cases hstarts : startsFence (c :: (lead ++ rest)) with
      | false => rfl
      | true =>
        obtain ⟨after, hafter⟩ := startsFence_iff.mp hstarts
        simp only [fence, cons_append, nil_append, List.cons.injEq] at hafter
        exact absurd hafter.1 (ne_of_space hc (by decide))
    have hends : endsSentence seen c (lead ++ rest) = false := by
      have hdot : c ≠ '.' := ne_of_space hc (by decide)
      have hbang : c ≠ '!' := ne_of_space hc (by decide)
      have hquestion : c ≠ '?' := ne_of_space hc (by decide)
      simp [endsSentence, isTerminator, hdot, hbang, hquestion]
    rw [cons_append, walk_on hfence hends, ih fun d hd => h d (mem_cons_of_mem c hd),
      append_assoc, singleton_append]

theorem endsSentence_lead
    (h : stripMarkdownForTts (lead ++ (seen ++ [c])) = stripMarkdownForTts (seen ++ [c])) :
    endsSentence (lead ++ seen) c rest = endsSentence seen c rest := by
  unfold endsSentence
  rw [append_assoc, h]

/-- What a walk behind blanks finds, from what it finds without them in the text `whole`: the same,
or the blanks are at the start of the sentence or of the buffer that is left. -/
def BehindBlanks (lead whole : Text) (e e' : Extraction) : Prop :=
  e' = e ∨
    (∃ sentence remainder, e = .found sentence remainder ∧
      e' = .found (lead ++ sentence) remainder ∧
      stripMarkdownForTts (lead ++ sentence) = stripMarkdownForTts sentence) ∨
    ∃ code, e = .open whole code ∧ e' = .open (lead ++ whole) code

def Harmless (lead seen rest : Text) : Prop :=
  ∀ first, first <+: rest →
    stripMarkdownForTts (lead ++ (seen ++ first)) = stripMarkdownForTts (seen ++ first)

theorem Harmless.step {step : Text} (h : Harmless lead seen (step ++ rest)) :
    Harmless lead (seen ++ step) rest := by
  intro first hfirst
  rw [append_assoc seen step first]
  exact h (step ++ first) ((prefix_append_right_inj step).mpr hfirst)

theorem walk_lead (h : Harmless lead seen rest) :
    BehindBlanks lead (seen ++ rest) (walk seen rest inCode) (walk (lead ++ seen) rest inCode) := by
  fun_induction walk seen rest inCode with
  | case1 seen inCode =>
    refine .inr (.inr ⟨inCode, by rw [append_nil], ?_⟩)
    rw [walk_nil, append_nil]
  | case2 seen c rest hfence _ =>
    left
    rw [walk_close hfence]
  | case3 seen c rest inCode hfence hcode ih =>
    rw [not_eq_true] at hcode
    subst hcode
    have hsplit := split_fence hfence
    rw [walk_enter hfence, append_assoc lead]
    rw [hsplit] at h ⊢
    rw [← append_assoc seen]
    exact ih h.step
  | case4 seen c rest hfence ih =>
    rw [not_eq_true] at hfence
    rw [walk_code hfence, append_assoc lead, ← singleton_append, ← append_assoc seen]
    exact ih h.step
  | case5 seen c rest inCode hfence hcode hends =>
    rw [not_eq_true] at hfence hcode
    subst hcode
    have hsame := h [c] ⟨rest, rfl⟩
    refine .inr (.inl ⟨seen ++ [c], rest.dropWhile isSpace, rfl, ?_, hsame⟩)
    rw [walk_end hfence (by rw [endsSentence_lead hsame]; exact hends), append_assoc]
  | case6 seen c rest inCode hfence hcode hends ih =>
    rw [not_eq_true] at hfence hcode hends
    subst hcode
    have hsame := h [c] ⟨rest, rfl⟩
    rw [walk_on hfence (by rw [endsSentence_lead hsame]; exact hends), append_assoc lead,
      ← singleton_append, ← append_assoc seen]
    exact ih h.step

/-- Behind harmless blanks the same is said, and the blanks stay in the buffer if nothing leaves
it. -/
theorem drained_lead (hblanks : ∀ c ∈ lead, isSpace c) (hcalm : Calm lead text) :
    drained (lead ++ text) false = drained text false ∨
      ∃ code, drained text false = { texts := [], buffer := text, inCode := code } ∧
        drained (lead ++ text) false = { texts := [], buffer := lead ++ text, inCode := code } := by
  have hharmless : Harmless lead [] text := by
    intro first hfirst
    exact stripMarkdown_lead hblanks (hcalm.part hfirst)
  have hstart : walk [] (lead ++ text) false = walk (lead ++ []) text false := by
    rw [walk_blanks hblanks, append_nil, nil_append]
  have hwalk : BehindBlanks lead ([] ++ text) (walk [] text false) (walk (lead ++ []) text false) :=
    walk_lead hharmless
  rw [← hstart, nil_append] at hwalk
  obtain hsame | ⟨sentence, remainder, hfound, hfound', hclean⟩ | ⟨code, hopen, hopen'⟩ := hwalk
  · exact .inl (drained_congr hsame)
  · left
    have hspoken : spoken (lead ++ sentence) = spoken sentence := by
      unfold spoken
      rw [hclean]
    rw [drained_found hfound, drained_found hfound', hspoken]
  · exact .inr ⟨code, drained_open hopen, drained_open hopen'⟩

end

variable {text buffer lead future token : Text} {inCode : Bool} {tokens : List Text}

def streamed (buffer : Text) (inCode : Bool) : List Text → Drained
  | [] => { texts := [], buffer := buffer, inCode := inCode }
  | token :: tokens =>
    if token.isEmpty then streamed buffer inCode tokens
    else (drained (buffer ++ token) inCode).then
      (streamed (drained (buffer ++ token) inCode).buffer (drained (buffer ++ token) inCode).inCode
        tokens)

/-- What `flush` says of a buffer. -/
def flushed (buffer : Text) : List Text := if (strip buffer).isEmpty then [] else spoken buffer

theorem feedAll_eq (s : SentenceBuffer) (tokens : List Text) :
    (s.feedAll tokens).1.buffer = (streamed s.buffer s.inCodeBlock tokens).buffer ∧
      (s.feedAll tokens).1.nextIndex =
        s.nextIndex + (streamed s.buffer s.inCodeBlock tokens).texts.length ∧
      (s.feedAll tokens).2 = numbered s.nextIndex
        (streamed s.buffer s.inCodeBlock tokens).texts := by
  induction tokens generalizing s with
  | nil => exact ⟨rfl, rfl, rfl⟩
  | cons token tokens ih =>
    have hfed := ih (s.feed token).1
    obtain ⟨hbuffer, hindex, hready⟩ := hfed
    unfold SentenceBuffer.feedAll streamed
    dsimp only
    unfold SentenceBuffer.feed at hbuffer hindex hready ⊢
    split_ifs at hbuffer hindex hready ⊢ with hempty
    · exact ⟨hbuffer, hindex, by rw [hready, nil_append]⟩
    · rw [drain_eq] at hbuffer hindex hready ⊢
      refine ⟨hbuffer, ?_, ?_⟩
      · rw [hindex]
        simp only [Drained.then, Drained.after, length_append]
        omega
      · rw [hready]
        simp only [Drained.then, Drained.after]
        rw [numbered_append]

theorem flush_eq (s : SentenceBuffer) :
    s.flush.2.toList = numbered s.nextIndex (flushed s.buffer) := by
  unfold SentenceBuffer.flush flushed spoken
  split_ifs with hblank hempty
  · rfl
  · simp [hempty, numbered]
  · simp [hempty, numbered]

theorem midstream_eq (tokens : List Text) :
    midstream tokens = numbered 0 (streamed [] false tokens).texts := (feedAll_eq {} tokens).2.2

theorem sentences_eq (tokens : List Text) : sentences tokens =
    numbered 0 ((streamed [] false tokens).texts ++ flushed (streamed [] false tokens).buffer) := by
  obtain ⟨hbuffer, hindex, hready⟩ := feedAll_eq {} tokens
  unfold sentences midstream
  rw [flush_eq, hready, hbuffer, hindex, numbered_append]

theorem flushed_lead (hblanks : ∀ c ∈ lead, isSpace c) (hcalm : Calm lead text) :
    flushed (lead ++ text) = flushed text := by
  unfold flushed spoken
  rw [strip_lead hblanks, stripMarkdown_lead hblanks hcalm]

def Continues (text : Text) : Prop :=
  ∀ more, drained (text ++ more) false =
    (drained text false).then (drained ((drained text false).buffer ++ more) false)

def Skips (text : Text) : Prop :=
  (drained text false).buffer = [] ∧ ∀ more, drained (text ++ more) false =
      (drained text false).then (drained (more.dropWhile isSpace) false)

def CalmBefore (lead future : Text) : Prop :=
  Calm (lead ++ future.takeWhile isSpace) (future.dropWhile isSpace)

/-- The stream has the blanks `lead` before the buffer of the text, which are calm. -/
structure Follows (text future lead buffer : Text) : Prop where
  blanks : ∀ c ∈ lead, isSpace c = true
  buffer : buffer = lead ++ (drained text false).buffer
  goes : Continues text ∧ (lead = [] ∨ ∃ c rest, (drained text false).buffer = c :: rest ∧
      isSpace c = false ∧ Calm lead (c :: rest ++ future)) ∨
    Skips text ∧ CalmBefore lead future

theorem head_dropWhile {c : Char} {rest : Text} (h : text.dropWhile isSpace = c :: rest) :
    isSpace c = false := by
  have hnot := head_dropWhile_not isSpace (by rw [h]; exact cons_ne_nil c rest)
  simpa [h] using hnot

structure Step (text token lead' said : Text) (d : Drained) : Prop where
  blanks : ∀ c ∈ lead', isSpace c = true
  calm : Calm lead' said
  whole : drained (text ++ token) false = (drained text false).then (drained said false)
  stream : d = drained (lead' ++ said) false

theorem Follows.step (h : Follows text (token ++ future) lead buffer) :
    ((lead = [] ∨ ∃ c rest, (drained text false).buffer = c :: rest ∧ isSpace c = false ∧
          Calm lead (c :: rest ++ (token ++ future))) ∧
        ∃ said, said = (drained text false).buffer ++ token ∧
          Step text token lead said (drained (buffer ++ token) false)) ∨
      (Skips text ∧ CalmBefore lead (token ++ future) ∧
        Step text token (lead ++ token.takeWhile isSpace) (token.dropWhile isSpace)
          (drained (buffer ++ token) false)) := by
  obtain ⟨hcontinues, hlead⟩ | ⟨hskips, hcalm⟩ := h.goes
  · left
    refine ⟨hlead, _, rfl, h.blanks, ?_, hcontinues token, ?_⟩
    · obtain rfl | ⟨c, rest, hbuffer, -, hcalm⟩ := hlead
      · exact .inl rfl
      · rw [hbuffer]
        apply hcalm.part
        rw [cons_append, cons_append, ← append_assoc]
        exact ⟨future, rfl⟩
    · rw [h.buffer, append_assoc]
  · right
    refine ⟨hskips, hcalm, ?_, ?_, hskips.2 token, ?_⟩
    · intro c hc
      obtain hold | hnew := mem_append.mp hc
      · exact h.blanks c hold
      · exact mem_takeWhile_imp hnew
    · cases hdrop : token.dropWhile isSpace with
      | nil => exact calm_nil _
      | cons c rest =>
        have hne : token.dropWhile isSpace ≠ [] := by
          rw [hdrop]
          exact cons_ne_nil c rest
        unfold CalmBefore at hcalm
        rw [takeWhile_append_of_ne hne, dropWhile_append_of_ne hne, hdrop] at hcalm
        exact hcalm.part ⟨future, rfl⟩
    · rw [h.buffer, hskips.1, append_nil, append_assoc, takeWhile_append_dropWhile]

variable {lead' said : Text} {d : Drained}

theorem Step.result (h : Step text token lead' said d) : d = drained said false ∨
    ∃ code, drained said false = { texts := [], buffer := said, inCode := code } ∧
      d = { texts := [], buffer := lead' ++ said, inCode := code } := by
  rw [h.stream]
  exact drained_lead h.blanks h.calm

theorem Step.same (h : Step text token lead' said d) :
    ((drained text false).then d).texts = (drained (text ++ token) false).texts ∧
      d.inCode = (drained (text ++ token) false).inCode ∧
      flushed d.buffer = flushed (drained (text ++ token) false).buffer := by
  rw [h.whole]
  obtain hsame | ⟨code, hsaid, hd⟩ := h.result
  · rw [hsame]
    exact ⟨rfl, rfl, rfl⟩
  · rw [hsaid, hd]
    exact ⟨rfl, rfl, flushed_lead h.blanks h.calm⟩

theorem skips_blanks (hskips : Skips text) (h : token.dropWhile isSpace = []) :
    Skips (text ++ token) := by
  have hnil : drained [] false = { texts := [], buffer := [], inCode := false } :=
    drained_open walk_nil
  have hwhole : drained (text ++ token) false = (drained text false).then (drained [] false) := by
    rw [hskips.2, h]
  constructor
  · rw [hwhole, hnil]
    rfl
  · intro more
    rw [append_assoc, hskips.2, dropWhile_append_of_eq h, hwhole, hnil]
    simp [Drained.then, Drained.after]

theorem continues_or_skips (h : (drained text false).inCode = false) :
    Continues text ∨ Skips text ∧ LeavesNothing text := by
  obtain hcontinues | ⟨hbuffer, hnothing, hskips⟩ := drained_append text h
  · exact .inl hcontinues
  · exact .inr ⟨⟨hbuffer, hskips⟩, hnothing⟩

theorem follows_of_same (hcode : (drained text false).inCode = false)
    (hcut : LeavesNothing text → CalmBefore [] future) :
    Follows text future [] (drained text false).buffer := by
  refine ⟨?_, rfl, ?_⟩
  · intro c hc
    cases hc
  · obtain hcontinues | ⟨hskips, hnothing⟩ := continues_or_skips hcode
    · exact .inl ⟨hcontinues, .inl rfl⟩
    · exact .inr ⟨hskips, hcut hnothing⟩

theorem follows_of_buffer {c : Char} {rest : Text} (hcode : (drained text false).inCode = false)
    (hblanks : ∀ b ∈ lead', isSpace b) (hbuffer : (drained text false).buffer = c :: rest)
    (hc : isSpace c = false) (hcalm : Calm lead' (c :: rest ++ future)) :
    Follows text future lead' (lead' ++ c :: rest) := by
  refine ⟨hblanks, by rw [hbuffer], .inl ⟨?_, .inr ⟨c, rest, hbuffer, hc, hcalm⟩⟩⟩
  obtain hcontinues | ⟨⟨hnil, -⟩, -⟩ := continues_or_skips hcode
  · exact hcontinues
  · rw [hbuffer] at hnil
    cases hnil

theorem Follows.next (h : Follows text (token ++ future) lead buffer)
    (hcode : (drained (text ++ token) false).inCode = false)
    (hcut : LeavesNothing (text ++ token) → CalmBefore [] future) :
    ∃ lead', Follows (text ++ token) future lead' (drained (buffer ++ token) false).buffer := by
  obtain ⟨hlead, said, hsaid, hstep⟩ | ⟨hskips, hcalm, hstep⟩ := h.step
  · obtain hsame | ⟨code, hdrained, hd⟩ := hstep.result
    · have hbuffer : (drained (text ++ token) false).buffer =
          (drained (buffer ++ token) false).buffer := by
        rw [hstep.whole, hsame]
        rfl
      rw [← hbuffer]
      exact ⟨[], follows_of_same hcode hcut⟩
    · have hbuffer : (drained (text ++ token) false).buffer = said := by
        rw [hstep.whole, hdrained]
        rfl
      obtain rfl | ⟨c, rest, hrest, hc, hcalm⟩ := hlead
      · rw [hd, nil_append, ← hbuffer]
        exact ⟨[], follows_of_same hcode hcut⟩
      · rw [hrest, cons_append] at hsaid
        rw [hd, hsaid]
        rw [hsaid] at hbuffer
        refine ⟨lead, follows_of_buffer hcode h.blanks hbuffer hc ?_⟩
        rw [← cons_append, append_assoc]
        exact hcalm
  · obtain hsame | ⟨code, hdrained, hd⟩ := hstep.result
    · have hbuffer : (drained (text ++ token) false).buffer =
          (drained (buffer ++ token) false).buffer := by
        rw [hstep.whole, hsame]
        rfl
      rw [← hbuffer]
      exact ⟨[], follows_of_same hcode hcut⟩
    · have hbuffer : (drained (text ++ token) false).buffer = token.dropWhile isSpace := by
        rw [hstep.whole, hdrained]
        rfl
      refine ⟨lead ++ token.takeWhile isSpace, ?_⟩
      rw [hd]
      cases hdrop : token.dropWhile isSpace with
      | nil =>
        rw [hdrop] at hbuffer
        have hall : ∀ c ∈ token, isSpace c := dropWhile_eq_nil_iff.mp hdrop
        refine ⟨hstep.blanks, by rw [hbuffer], .inr ⟨skips_blanks hskips hdrop, ?_⟩⟩
        unfold CalmBefore at hcalm ⊢
        rw [takeWhile_append_of_pos hall, dropWhile_append_of_pos hall, ← append_assoc] at hcalm
        rw [takeWhile_eq_self_iff.mpr hall]
        exact hcalm
      | cons c rest =>
        have hne : token.dropWhile isSpace ≠ [] := by
          rw [hdrop]
          exact cons_ne_nil c rest
        rw [hdrop] at hbuffer
        refine follows_of_buffer hcode hstep.blanks hbuffer (head_dropWhile hdrop) ?_
        unfold CalmBefore at hcalm
        rw [takeWhile_append_of_ne hne, dropWhile_append_of_ne hne, hdrop] at hcalm
        exact hcalm

def CutsWell (text : Text) (tokens : List Text) : Prop :=
  ∀ before after, before ++ after = tokens → after.flatten ≠ [] →
    (drained (text ++ before.flatten) false).inCode = false ∧
      (LeavesNothing (text ++ before.flatten) → CalmBefore [] after.flatten)

theorem CutsWell.tail (h : CutsWell text (token :: tokens)) : CutsWell (text ++ token) tokens := by
  intro before after htokens hmore
  have hcut := h (token :: before) after (by rw [cons_append, htokens]) hmore
  rw [flatten_cons, ← append_assoc] at hcut
  exact hcut

theorem streamed_of_flatten_nil (h : tokens.flatten = []) :
    streamed buffer inCode tokens = { texts := [], buffer := buffer, inCode := inCode } := by
  induction tokens with
  | nil => rfl
  | cons token tokens ih =>
    rw [flatten_cons, append_eq_nil_iff] at h
    unfold streamed
    rw [h.1, isEmpty_nil, if_pos rfl]
    exact ih h.2

theorem Drained.then_assoc (d e f : Drained) : (d.then e).then f = d.then (e.then f) := by
  simp [Drained.then, Drained.after]

theorem streamed_eq (hfollows : Follows text tokens.flatten lead buffer)
    (hcuts : CutsWell text tokens) :
    ((drained text false).then (streamed buffer false tokens)).texts =
        (drained (text ++ tokens.flatten) false).texts ∧
      flushed (streamed buffer false tokens).buffer =
        flushed (drained (text ++ tokens.flatten) false).buffer := by
  induction tokens generalizing text buffer lead with
  | nil =>
    rw [flatten_nil, append_nil]
    constructor
    · simp [streamed, Drained.then, Drained.after]
    · have hcalm : Calm lead (drained text false).buffer := by
        obtain ⟨-, rfl | ⟨c, rest, hbuffer, -, hcalm⟩⟩ | ⟨hskips, -⟩ := hfollows.goes
        · exact .inl rfl
        · rw [hbuffer]
          simpa using hcalm
        · rw [hskips.1]
          exact calm_nil lead
      rw [hfollows.buffer]
      exact flushed_lead hfollows.blanks hcalm
  | cons token tokens ih =>
    rw [flatten_cons] at hfollows ⊢
    rw [← append_assoc]
    unfold streamed
    by_cases hempty : token.isEmpty
    · rw [if_pos hempty]
      rw [List.isEmpty_iff] at hempty
      subst hempty
      have htail := hcuts.tail
      rw [append_nil] at htail ⊢
      exact ih hfollows htail
    · rw [if_neg hempty]
      obtain ⟨lead', said, hstep⟩ : ∃ lead' said,
          Step text token lead' said (drained (buffer ++ token) false) := by
        obtain ⟨-, said, -, hstep⟩ | ⟨-, -, hstep⟩ := hfollows.step
        · exact ⟨_, said, hstep⟩
        · exact ⟨_, _, hstep⟩
      obtain ⟨htexts, hcode, hflushed⟩ := hstep.same
      rw [← Drained.then_assoc]
      by_cases hmore : tokens.flatten = []
      · rw [streamed_of_flatten_nil hmore, hmore, append_nil]
        refine ⟨?_, hflushed⟩
        rw [← htexts]
        simp [Drained.then, Drained.after]
      · obtain ⟨hcode', hcut⟩ := hcuts [token] tokens rfl hmore
        rw [flatten_singleton] at hcode' hcut
        obtain ⟨lead'', hnext⟩ := hfollows.next hcode' hcut
        obtain ⟨hall, hend⟩ := ih hnext hcuts.tail
        rw [hcode, hcode']
        refine ⟨?_, hend⟩
        rw [← hall]
        simp only [Drained.then, Drained.after] at htexts ⊢
        rw [htexts]

theorem streamed_whole (hcuts : CutsWell [] tokens) :
    (streamed [] false tokens).texts = (drained tokens.flatten false).texts ∧
      flushed (streamed [] false tokens).buffer =
        flushed (drained tokens.flatten false).buffer := by
  have hnil : drained [] false = { texts := [], buffer := [], inCode := false } :=
    drained_open walk_nil
  have hfollows : Follows [] tokens.flatten [] [] := by
    refine ⟨?_, by rw [hnil]; rfl, .inl ⟨?_, .inl rfl⟩⟩
    · intro c hc
      cases hc
    · intro more
      rw [hnil]
      simp [Drained.then, Drained.after]
  obtain ⟨htexts, hflushed⟩ := streamed_eq hfollows hcuts
  rw [nil_append] at htexts hflushed
  refine ⟨?_, hflushed⟩
  rw [← htexts, hnil]
  simp [Drained.then, Drained.after]

end Cognis.Speech
