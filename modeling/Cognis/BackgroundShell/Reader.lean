import Mathlib.Data.List.Forall2
import Cognis.Library.TailBuffer

namespace Cognis.BackgroundShell

open List Option

variable (s : Session) (shellId : String) (initialOutput : List Char)

section

def maxBackgroundOutputChars : Nat := 200000

/-- `_BackgroundShellSession`: the output that it retains and how it ended. -/
structure Session where
  output : List Char
  baseOffset : Nat
  exitCode : Option Int
  completionReason : Option String
  done : Bool
  deriving DecidableEq

namespace Session

def new : Session := ⟨[], 0, none, none, false⟩

def append (text : List Char) : Session :=
  if text = [] then s
  else
    let output := s.output ++ text
    let overflow := output.length - maxBackgroundOutputChars
    { s with output := output.drop overflow, baseOffset := s.baseOffset + overflow }

structure Snapshot where
  chunk : List Char
  nextCursor : Nat
  done : Bool
  exitCode : Option Int
  truncated : Bool

def snapshot (cursor : Nat) : Snapshot where
  chunk := s.output.drop (max cursor s.baseOffset - s.baseOffset)
  nextCursor := s.baseOffset + s.output.length
  done := s.done
  exitCode := s.exitCode
  truncated := decide (cursor < s.baseOffset)

/-- `_finalize_session` -/
def finalize (returncode : Option Int) (reason : String) : Session :=
  if s.done then s
  else { s with exitCode := returncode, completionReason := some reason, done := true }

end Session

structure Metadata where
  shellId : String
  status : String
  cursor : Nat
  exitCode : Option Int
  ok : Option Bool
  deriving DecidableEq

structure ToolResult where
  output : String
  isError : Bool
  metadata : Option Metadata
  deriving DecidableEq

def trimmedNotice (cursor earliest : Nat) : String :=
  "[output before cursor " ++ Nat.repr cursor ++ " was trimmed; earliest available cursor is " ++
    Nat.repr earliest ++ "]\n"

def shown (chunk : List Char) : String :=
  if chunk = [] then "(no new output)" else String.ofList chunk

/-- `_BackgroundShellManager.read` of the session found under the id. -/
def read (session : Option Session) (cursor : Nat) : ToolResult :=
  match session with
  | none => ⟨"Unknown shell_id: " ++ shellId, true, none⟩
  | some s =>
    let view := s.snapshot cursor
    let failed := view.done && (view.exitCode ≠ none && view.exitCode ≠ some 0)
    { output := (if view.truncated then trimmedNotice cursor s.baseOffset else "") ++
        shown view.chunk
      isError := failed
      metadata := some
        { shellId := shellId
          status := if view.done then "completed" else "running"
          cursor := view.nextCursor
          exitCode := view.exitCode
          ok := if failed then some false else none } }

open TailBuffer (Holds)

variable {s : Session} {text : List Char}

def Session.Retains (s : Session) (text : List Char) : Prop :=
  Holds maxBackgroundOutputChars text s.output s.baseOffset

theorem Session.retains_new : Session.new.Retains [] := TailBuffer.holds_nil

theorem Session.Retains.append (h : s.Retains text) (more : List Char) :
    (s.append more).Retains (text ++ more) := by
  unfold Session.Retains at h ⊢
  unfold Session.append
  split_ifs with hempty
  · rw [hempty, append_nil]
    exact h
  · have hpush := h.push more
    generalize maxBackgroundOutputChars = limit at hpush ⊢
    exact hpush

theorem Session.Retains.finalize (h : s.Retains text) (returncode : Option Int) (reason : String) :
    (s.finalize returncode reason).Retains text := by
  unfold Session.finalize
  split_ifs
  · exact h
  · exact h

theorem Session.append_done (s : Session) (text : List Char) : (s.append text).done = s.done := by
  unfold Session.append
  split_ifs
  · rfl
  · rfl

theorem Session.finalize_done (s : Session) (returncode : Option Int) (reason : String) :
    (s.finalize returncode reason).done := by
  unfold Session.finalize
  split_ifs with h
  · exact h
  · rfl

end

inductive StreamName where
  | stdout
  | stderr
  deriving DecidableEq

/-- What `_consume_stream` writes before each chunk. -/
def StreamName.label : StreamName → List Char
  | .stdout => []
  | .stderr => "STDERR:\n".toList

structure Pipe where
  arrived : List UInt8
  /-- The text that the consumer has read and not yet appended. -/
  held : Option (List Char)
  closed : Bool

structure Poll where
  cursor : Nat
  result : ToolResult

structure System where
  shellId : String
  session : Session
  pipe : StreamName → Pipe
  returncode : Option Int
  killed : Bool
  /-- All output of the session so far. -/
  text : List Char
  cursor : Nat
  polls : List Poll

def start : System where
  shellId := shellId
  session := Session.new.append initialOutput
  pipe := fun _ => ⟨[], none, false⟩
  returncode := none
  killed := false
  text := initialOutput
  cursor := 0
  polls := []

inductive Event where
  | write (name : StreamName) (bytes : List UInt8)
  | close (name : StreamName)
  | exit (code : Int)
  | consume (name : StreamName) (count : Nat)
  | append (name : StreamName)
  | finalize
  | kill
  | finalizeKilled
  | poll

def System.setPipe (s : System) (name : StreamName) (pipe : Pipe) : System :=
  { s with pipe := fun other => if other = name then pipe else s.pipe other }

def System.pollOnce (s : System) : System :=
  let result := read s.shellId (some s.session) s.cursor
  { s with
    cursor := (result.metadata.map (·.cursor)).getD s.cursor
    polls := s.polls ++ [⟨s.cursor, result⟩] }

/-- One step of the process, of a task or of the reader. `decode` decodes one chunk. -/
def step (decode : List UInt8 → List Char) (s : System) : Event → Option System
  | .write name bytes =>
    let pipe := s.pipe name
    if pipe.closed then none
    else some (s.setPipe name { pipe with arrived := pipe.arrived ++ bytes })
  | .close name => some (s.setPipe name { s.pipe name with closed := true })
  | .exit code => if s.returncode.isSome then none else some { s with returncode := some code }
  | .consume name count =>
    let pipe := s.pipe name
    let chunk := pipe.arrived.take (min count 4096)
    if pipe.held.isSome ∨ chunk = [] then none
    else some (s.setPipe name
      { pipe with
        arrived := pipe.arrived.drop (min count 4096)
        held := some (name.label ++ decode chunk) })
  | .append name =>
    (s.pipe name).held.map fun text =>
      { s.setPipe name { s.pipe name with held := none } with
        session := s.session.append text
        text := s.text ++ text }
  | .finalize =>
    if s.returncode.isNone then none
    else some { s with session := s.session.finalize s.returncode "completed" }
  | .kill => some { s with killed := s.killed || !s.session.done }
  | .finalizeKilled =>
    if s.killed then some { s with session := s.session.finalize s.returncode "killed" } else none
  | .poll => some s.pollOnce

def run (decode : List UInt8 → List Char) (s : System) (events : List Event) : Option System :=
  events.foldlM (step decode) s

/-- What a reader missed and what it got. -/
structure Piece where
  skipped : List Char
  chunk : List Char

def Shows (p : Poll) (piece : Piece) : Prop :=
  p.result.output =
    (if piece.skipped = [] then "" else trimmedNotice p.cursor (p.cursor + piece.skipped.length)) ++
      shown piece.chunk

/-- The pieces are what the polls showed, and together the text up to the cursor. -/
structure Gapless (s : System) (pieces : List Piece) : Prop where
  shows : Forall₂ Shows s.polls pieces
  all : pieces.flatMap (fun p => p.skipped ++ p.chunk) = s.text.take s.cursor
  limit : ∀ p ∈ pieces, p.skipped ≠ [] → p.chunk.length = maxBackgroundOutputChars

/-- Nothing is left in the pipes or in the hands of their consumers, and nothing will come. -/
def Drained (s : System) : Prop :=
  ∀ name, (s.pipe name).arrived = [] ∧ (s.pipe name).held = none ∧ (s.pipe name).closed = true

def Poll.completed (p : Poll) : Bool := p.result.metadata.any (·.status == "completed")

structure Final (s : System) : Prop where
  quiet : s.polls.Pairwise fun p later =>
    p.completed = true → later.result.output = "(no new output)"
  all : ∀ p ∈ s.polls, p.completed = true → s.cursor = s.text.length ∧ Drained s

def FinalizesDrained (decode : List UInt8 → List Char) : System → List Event → Prop
  | _, [] => True
  | s, e :: rest =>
    (e = .finalize → s.session.done = false → s.killed = false → Drained s) ∧
      ∀ s', step decode s e = some s' → FinalizesDrained decode s' rest

variable {decode : List UInt8 → List Char} {s s' : System} {e : Event}

theorem setPipe_drained {pipe : Pipe} (h : Drained s) (name : StreamName)
    (hpipe : pipe.arrived = [] ∧ pipe.held = none ∧ pipe.closed) :
    Drained (s.setPipe name pipe) := by
  intro other
  unfold System.setPipe
  dsimp only
  split_ifs with heq
  · exact hpipe
  · exact h other

theorem step_cases (hstep : step decode s e = some s') :
    (∃ name pipe, s' = s.setPipe name pipe ∧ (Drained s → Drained s')) ∨
    (∃ code, s' = { s with returncode := some code }) ∨
    (∃ name text, (s.pipe name).held = some text ∧
      s' = { s.setPipe name { s.pipe name with held := none } with
        session := s.session.append text
        text := s.text ++ text }) ∨
    (e = .finalize ∧ s' = { s with session := s.session.finalize s.returncode "completed" }) ∨
    s' = { s with killed := s.killed || !s.session.done } ∨
    (s.killed ∧ s' = { s with session := s.session.finalize s.returncode "killed" }) ∨
    s' = s.pollOnce := by
  cases e with
  | write name =>
    unfold step at hstep
    dsimp only at hstep
    split_ifs at hstep with hclosed
    left
    refine ⟨name, _, (some.inj hstep).symm, ?_⟩
    intro hdrained
    exact absurd (hdrained name).2.2 hclosed
  | close name =>
    left
    refine ⟨name, _, (some.inj hstep).symm, ?_⟩
    intro hdrained
    rw [← some.inj hstep]
    exact setPipe_drained hdrained name ⟨(hdrained name).1, (hdrained name).2.1, rfl⟩
  | exit code =>
    unfold step at hstep
    dsimp only at hstep
    split_ifs at hstep
    right; left
    exact ⟨code, (some.inj hstep).symm⟩
  | consume name =>
    unfold step at hstep
    dsimp only at hstep
    split_ifs at hstep with hchunk
    left
    refine ⟨name, _, (some.inj hstep).symm, ?_⟩
    intro hdrained
    exfalso
    apply hchunk
    right
    rw [(hdrained name).1, take_nil]
  | append name =>
    obtain ⟨text, hheld, hs'⟩ := map_eq_some_iff.mp hstep
    right; right; left
    exact ⟨name, text, hheld, hs'.symm⟩
  | finalize =>
    unfold step at hstep
    dsimp only at hstep
    split_ifs at hstep
    right; right; right; left
    exact ⟨rfl, (some.inj hstep).symm⟩
  | kill =>
    right; right; right; right; left
    exact (some.inj hstep).symm
  | finalizeKilled =>
    unfold step at hstep
    dsimp only at hstep
    split_ifs at hstep with hkill
    right; right; right; right; right; left
    exact ⟨hkill, (some.inj hstep).symm⟩
  | poll =>
    right; right; right; right; right; right
    exact (some.inj hstep).symm

def System.nextPiece (s : System) : Piece where
  skipped := (s.text.drop s.cursor).take (s.session.baseOffset - s.cursor)
  chunk := s.session.output.drop (max s.cursor s.session.baseOffset - s.session.baseOffset)

theorem shows_nextPiece (h : s.session.Retains s.text) (hcursor : s.cursor ≤ s.text.length) :
    Shows ⟨s.cursor, read s.shellId (some s.session) s.cursor⟩ s.nextPiece := by
  have htrimmed := h.trimmed_eq_nil_iff hcursor
  have hbase : s.session.baseOffset ≤ s.text.length := h.base_le
  unfold Shows read Session.snapshot System.nextPiece
  dsimp only
  congr 1
  by_cases hbehind : s.cursor < s.session.baseOffset
  · have hne : (s.text.drop s.cursor).take (s.session.baseOffset - s.cursor) ≠ [] := by
      intro hnil
      have hle := htrimmed.mp hnil
      omega
    have hlength : s.cursor + ((s.text.drop s.cursor).take
        (s.session.baseOffset - s.cursor)).length = s.session.baseOffset := by
      rw [length_take, length_drop]
      omega
    rw [if_pos (decide_eq_true hbehind), if_neg hne, hlength]
  · rw [if_neg (by simpa using hbehind), if_pos (htrimmed.mpr (by omega))]

theorem pollOnce_cursor (h : s.session.Retains s.text) : s.pollOnce.cursor = s.text.length :=
  h.base_add_length

/-- What holds of every state of a run. -/
structure Polled (s : System) : Prop where
  retains : s.session.Retains s.text
  cursor_le : s.cursor ≤ s.text.length
  gapless : ∃ pieces, Gapless s pieces

theorem polled_start : Polled (start shellId initialOutput) where
  retains := Session.retains_new.append initialOutput
  cursor_le := Nat.zero_le _
  gapless := ⟨[], .nil, by rw [start, take_zero]; rfl, by intro p hp; cases hp⟩

theorem Polled.pollOnce (h : Polled s) : Polled s.pollOnce where
  retains := h.retains
  cursor_le := Nat.le_of_eq (pollOnce_cursor h.retains)
  gapless := by
    obtain ⟨pieces, hgapless⟩ := h.gapless
    refine ⟨pieces ++ [s.nextPiece], ?_, ?_, ?_⟩
    · exact rel_append hgapless.shows (.cons (shows_nextPiece h.retains h.cursor_le) .nil)
    · rw [flatMap_append, hgapless.all, pollOnce_cursor h.retains, flatMap_singleton]
      have hunread : s.text.drop s.cursor = s.nextPiece.skipped ++ s.nextPiece.chunk :=
        h.retains.unread
      rw [← hunread, take_append_drop]
      exact (take_length).symm
    · intro p hp hskipped
      rcases mem_append.mp hp with hold | hnew
      · exact hgapless.limit p hold hskipped
      · rw [mem_singleton.mp hnew] at hskipped ⊢
        apply h.retains.length_of_trimmed
        by_contra hle
        exact hskipped ((h.retains.trimmed_eq_nil_iff h.cursor_le).mpr (Nat.le_of_not_lt hle))

theorem Polled.of_more (h : Polled s) (more : List Char) (htext : s'.text = s.text ++ more)
    (hretains : s'.session.Retains s'.text) (hcursor : s'.cursor = s.cursor)
    (hpolls : s'.polls = s.polls) : Polled s' where
  retains := hretains
  cursor_le := by
    rw [hcursor, htext, length_append]
    exact Nat.le_trans h.cursor_le (Nat.le_add_right _ _)
  gapless := by
    obtain ⟨pieces, hgapless⟩ := h.gapless
    refine ⟨pieces, ?_, ?_, hgapless.limit⟩
    · rw [hpolls]
      exact hgapless.shows
    · rw [hcursor, htext, take_append_of_le_length h.cursor_le]
      exact hgapless.all

theorem Polled.step (h : Polled s) (hstep : step decode s e = some s') : Polled s' := by
  obtain ⟨name, pipe, rfl, -⟩ | ⟨code, rfl⟩ | ⟨name, text, -, rfl⟩ | ⟨-, rfl⟩ | rfl |
    ⟨-, rfl⟩ | rfl :=
    step_cases hstep
  · exact h.of_more [] (append_nil _).symm h.retains rfl rfl
  · exact h.of_more [] (append_nil _).symm h.retains rfl rfl
  · exact h.of_more text rfl (h.retains.append text) rfl rfl
  · exact h.of_more [] (append_nil _).symm (h.retains.finalize _ _) rfl rfl
  · exact h.of_more [] (append_nil _).symm h.retains rfl rfl
  · exact h.of_more [] (append_nil _).symm (h.retains.finalize _ _) rfl rfl
  · exact h.pollOnce

/-- What holds of a run whose process was not killed when the pipes were drained at its exit. -/
structure Settled (s : System) : Prop where
  drained : s.session.done = true → Drained s
  quiet : s.polls.Pairwise fun p later =>
    p.completed = true → later.result.output = "(no new output)"
  seen : ∀ p ∈ s.polls, p.completed = true → s.session.done = true ∧ s.cursor = s.text.length

theorem settled_start : Settled (start shellId initialOutput) where
  drained := by
    intro h
    change (Session.new.append initialOutput).done = true at h
    rw [Session.append_done] at h
    cases h
  quiet := .nil
  seen := by
    intro p hp
    cases hp

theorem completed_pollOnce :
    (Poll.mk s.cursor (read s.shellId (some s.session) s.cursor)).completed = s.session.done := by
  unfold Poll.completed read Session.snapshot
  dsimp only
  cases s.session.done
  · rfl
  · rfl

theorem output_at_end (h : s.session.Retains s.text) (hcursor : s.cursor = s.text.length) :
    (read s.shellId (some s.session) s.cursor).output = "(no new output)" := by
  have hle : s.cursor ≤ s.text.length := Nat.le_of_eq hcursor
  have hshows := shows_nextPiece h hle
  have hskipped : s.nextPiece.skipped = [] :=
    (h.trimmed_eq_nil_iff hle).mpr (hcursor ▸ h.base_le)
  have hchunk : s.nextPiece.chunk = [] := by
    have hlength := h.base_add_length
    apply drop_eq_nil_of_le
    omega
  unfold Shows at hshows
  rw [hskipped, hchunk] at hshows
  exact hshows

theorem Settled.pollOnce (h : Settled s) (hpolled : Polled s) : Settled s.pollOnce where
  drained := h.drained
  quiet := by
    apply pairwise_append.mpr
    refine ⟨h.quiet, pairwise_singleton _ _, ?_⟩
    intro p hp later hlater hcompleted
    rw [mem_singleton.mp hlater]
    exact output_at_end hpolled.retains (h.seen p hp hcompleted).2
  seen := by
    intro p hp hcompleted
    refine ⟨?_, pollOnce_cursor hpolled.retains⟩
    rcases mem_append.mp hp with hold | hnew
    · exact (h.seen p hold hcompleted).1
    · rw [mem_singleton.mp hnew, completed_pollOnce] at hcompleted
      exact hcompleted

/-- A step that keeps the polls, the cursor and the text, and completes nothing unless the pipes
are drained. -/
theorem Settled.of_same (h : Settled s) (hdrained : s'.session.done → Drained s')
    (hdone : s.session.done → s'.session.done) (hpolls : s'.polls = s.polls)
    (hcursor : s'.cursor = s.cursor) (htext : s'.text = s.text) : Settled s' where
  drained := hdrained
  quiet := by
    rw [hpolls]
    exact h.quiet
  seen := by
    intro p hp hcompleted
    rw [hpolls] at hp
    obtain ⟨hold, hend⟩ := h.seen p hp hcompleted
    rw [hcursor, htext]
    exact ⟨hdone hold, hend⟩

theorem Settled.step (h : Settled s) (hpolled : Polled s)
    (hfinalize : e = .finalize → s.session.done = false → s.killed = false → Drained s)
    (hstep : step decode s e = some s') (hkilled : s'.killed = false) : Settled s' := by
  obtain ⟨name, pipe, rfl, hkeeps⟩ | ⟨code, rfl⟩ | ⟨name, text, hheld, rfl⟩ | ⟨he, rfl⟩ | rfl |
    ⟨hkill, rfl⟩ | rfl := step_cases hstep
  · exact h.of_same (fun hdone => hkeeps (h.drained hdone)) id rfl rfl rfl
  · exact h.of_same h.drained id rfl rfl rfl
  · have hopen : s.session.done ≠ true := by
      intro hdone
      rw [(h.drained hdone name).2.1] at hheld
      cases hheld
    refine ⟨?_, h.quiet, ?_⟩
    · intro hdone
      rw [Session.append_done] at hdone
      exact absurd hdone hopen
    · intro p hp hcompleted
      exact absurd (h.seen p hp hcompleted).1 hopen
  · refine h.of_same ?_ (fun _ => Session.finalize_done _ _ _) rfl rfl rfl
    intro _
    cases hdone : s.session.done with
    | true => exact h.drained hdone
    | false => exact hfinalize he hdone hkilled
  · exact h.of_same h.drained id rfl rfl rfl
  · rw [hkill] at hkilled
    cases hkilled
  · exact h.pollOnce hpolled

theorem killed_step (hstep : step decode s e = some s') (hkilled : s'.killed = false) :
    s.killed = false := by
  obtain ⟨name, pipe, rfl, -⟩ | ⟨code, rfl⟩ | ⟨name, text, -, rfl⟩ | ⟨-, rfl⟩ | rfl |
    ⟨-, rfl⟩ | rfl :=
    step_cases hstep
  · exact hkilled
  · exact hkilled
  · exact hkilled
  · exact hkilled
  · exact (Bool.or_eq_false_iff.mp hkilled).1
  · exact hkilled
  · exact hkilled

variable {events : List Event}

theorem run_polled (h : Polled s) (hrun : run decode s events = some s') :
    Polled s' := by
  induction events generalizing s with
  | nil =>
    cases hrun
    exact h
  | cons e rest ih =>
    obtain ⟨next, hstep, hrest⟩ := bind_eq_some_iff.mp hrun
    exact ih (h.step hstep) hrest

theorem run_killed (hrun : run decode s events = some s')
    (hkilled : s'.killed = false) : s.killed = false := by
  induction events generalizing s with
  | nil =>
    cases hrun
    exact hkilled
  | cons e rest ih =>
    obtain ⟨next, hstep, hrest⟩ := bind_eq_some_iff.mp hrun
    exact killed_step hstep (ih hrest)

theorem run_settled (h : Settled s) (hpolled : Polled s)
    (hdrained : FinalizesDrained decode s events) (hrun : run decode s events = some s')
    (hkilled : s'.killed = false) : Settled s' := by
  induction events generalizing s with
  | nil =>
    cases hrun
    exact h
  | cons e rest ih =>
    obtain ⟨next, hstep, hrest⟩ := bind_eq_some_iff.mp hrun
    have hnext : next.killed = false := run_killed hrest hkilled
    exact ih (h.step hpolled hdrained.1 hstep hnext) (hpolled.step hstep)
      (hdrained.2 next hstep) hrest

/-- The polls have no gap; and they have everything once one reports the completion, when the
pipes were drained before it. -/
theorem polls_complete (decode : List UInt8 → List Char) (shellId : String)
    (initialOutput : List Char) {events : List Event} {s : System}
    (hrun : run decode (start shellId initialOutput) events = some s) :
    (∃ pieces, Gapless s pieces) ∧
      (FinalizesDrained decode (start shellId initialOutput) events → s.killed = false →
        Final s) := by
  have hpolled : Polled (start shellId initialOutput) := polled_start shellId initialOutput
  refine ⟨(run_polled hpolled hrun).gapless, ?_⟩
  intro hdrained hkilled
  have hsettled : Settled s :=
    run_settled (settled_start shellId initialOutput) hpolled hdrained hrun hkilled
  refine ⟨hsettled.quiet, ?_⟩
  intro p hp hcompleted
  obtain ⟨hdone, hcursor⟩ := hsettled.seen p hp hcompleted
  exact ⟨hcursor, hsettled.drained hdone⟩

def decodeAscii (bytes : List UInt8) : List Char := bytes.map fun b => Char.ofNat b.toNat

def closeBoth : List Event := [.close .stdout, .close .stderr]

def beforeExit : List Event :=
  [.write .stdout [104, 105], .poll, .consume .stdout 4096, .append .stdout, .exit 0] ++ closeBoth

theorem finalizesDrained_polls (s : System) (count : Nat) :
    FinalizesDrained decode s (replicate count .poll) := by
  induction count generalizing s with
  | zero => trivial
  | succ count ih =>
    refine ⟨?_, fun s' _ => ih s'⟩
    intro h
    cases h

theorem finalizesDrained_append {before after : List Event} (hnone : .finalize ∉ before)
    (h : ∀ s', run decode s before = some s' → FinalizesDrained decode s' after) :
    FinalizesDrained decode s (before ++ after) := by
  induction before generalizing s with
  | nil => exact h s rfl
  | cons e rest ih =>
    refine ⟨fun he => absurd (he ▸ mem_cons_self) hnone, ?_⟩
    intro s' hstep
    apply ih
    · intro hrest
      exact hnone (mem_cons_of_mem e hrest)
    · intro s'' hrun
      apply h
      unfold run
      rw [foldlM_cons, hstep]
      exact hrun

theorem polls_complete_at_exit :
    ∃ s, run decodeAscii (start "shell_1" []) (beforeExit ++ [.finalize, .poll, .poll]) = some s ∧
      Final s := by
  obtain ⟨s, hrun⟩ : ∃ s, run decodeAscii (start "shell_1" [])
      (beforeExit ++ [.finalize, .poll, .poll]) = some s := isSome_iff_exists.mp rfl
  have hkilled : s.killed = false := by
    rw [← some.inj hrun]
    rfl
  have hdrained : FinalizesDrained decodeAscii (start "shell_1" [])
      (beforeExit ++ [.finalize, .poll, .poll]) := by
    apply finalizesDrained_append (by intro h; simp [beforeExit, closeBoth] at h)
    intro s' hbefore
    refine ⟨?_, fun s'' _ => finalizesDrained_polls s'' 2⟩
    intro _ _ _ name
    rw [← some.inj hbefore]
    cases name
    · exact ⟨rfl, rfl, rfl⟩
    · exact ⟨rfl, rfl, rfl⟩
  exact ⟨s, hrun, (polls_complete decodeAscii "shell_1" [] hrun).2 hdrained hkilled⟩

def undrainedRun : List Event :=
  [.write .stdout [104, 105], .exit 0] ++ closeBoth ++
    [.finalize, .poll, .consume .stdout 4096, .append .stdout, .poll]

theorem tail_after_completed :
    (run decodeAscii (start "shell_1" []) undrainedRun).map
        (fun s => (s.killed, s.polls.map fun p => (p.completed, p.result.output))) =
      some (false, [(true, "(no new output)"), (true, "hi")]) := by
  rfl

end Cognis.BackgroundShell
