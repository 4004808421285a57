import Cognis.ToolSettlement.Settlement

namespace Cognis.ToolSettlement

open List Option

variable {e winner : LogEntry} {appendResult : EventAppendResult}

open JsonValue (Members get?)
open Program Runs

variable {d : Descriptor}

/-- Of what is known, one entry at most is a result, and calls are as in the snapshots. -/
structure Consistent (d : Descriptor) (snapshots : List JsonValue) (known : List LogEntry) :
    Prop where
  result_eq : ∀ e ∈ known, ∀ e' ∈ known, d.isResult e = true → d.isResult e' = true → e = e'
  call_mem : ∀ e ∈ known, d.isCall e = true → e.data ∈ snapshots

def shown : (o : Op) → o.Reply → List LogEntry
  | .readAfter _ _, page => page.events
  | .readSeq _, events => events
  | .record _ _, _ => []
  | .wait, _ => []

def Counted : (o : Op) → o.Reply → Prop
  | .record _ _, result => result.ok = true → result.count = 1
  | _, _ => True

def Learns (d : Descriptor) (snapshots : List JsonValue) (known : List LogEntry) (o : Op)
    (reply : o.Reply) (known' : List LogEntry) : Prop :=
  known ⊆ known' ∧ Consistent d snapshots known' ∧ shown o reply ⊆ known' ∧ Counted o reply

def Demand (d : Descriptor) (snapshots : List JsonValue) : Op → Prop
  | .record event key =>
    (event.type = "tool_result" → key = toolResultIdempotencyKey d) ∧
      (event.type = "tool_call" → d.owns (.obj event.data) = true → .obj event.data ∈ snapshots)
  | _ => True

def AllEqual (snapshots : List JsonValue) : Prop := ∀ a ∈ snapshots, ∀ b ∈ snapshots, a = b

def NoConflict (snapshots : List JsonValue) (e : SettlementError) : Prop :=
  AllEqual snapshots → e ≠ conflictingCall ∧ e ≠ conflictingResult

abbrev Spec (d : Descriptor) (snapshots : List JsonValue) {α : Type} (p : Settle α)
    (Q : α → List LogEntry → Prop) (known : List LogEntry) : Prop :=
  SafeExcept (Learns d snapshots) (fun _ o => Demand d snapshots o)
    (fun e _ => NoConflict snapshots e) p Q known

/-- What the pair holds is known. -/
structure Pair.Known (d : Descriptor) (known : List LogEntry) (pair : Pair) : Prop where
  call_mem : ∀ e, pair.call = some e → e ∈ known ∧ d.isCall e = true
  result_mem : ∀ e, pair.result = some e → e ∈ known ∧ d.isResult e = true

section

variable {snapshots : List JsonValue} {known known' : List LogEntry} {pair : Pair}

theorem Pair.Known.mono (h : pair.Known d known) (hsub : known ⊆ known') : pair.Known d known' where
  call_mem e he := ⟨hsub (h.call_mem e he).1, (h.call_mem e he).2⟩
  result_mem e he := ⟨hsub (h.result_mem e he).1, (h.result_mem e he).2⟩

theorem Pair.known_empty : ({} : Pair).Known d known where
  call_mem e he := by cases he
  result_mem e he := by cases he

theorem type_of_isCall (h : d.isCall e) : e.type = "tool_call" := by
  have hboth : e.type = "tool_call" ∧ d.owns e.data := by simpa [Descriptor.isCall] using h
  exact hboth.1

theorem sameCanonicalEvent_calls (hknown : Consistent d snapshots known) (heq : AllEqual snapshots)
    {e' : LogEntry} (he : e ∈ known) (he' : e' ∈ known) (hcall : d.isCall e)
    (hcall' : d.isCall e') :
    sameCanonicalEvent e.type e.data e' := by
  have hdata : e.data = e'.data :=
    heq _ (hknown.call_mem e he hcall) _ (hknown.call_mem e' he' hcall')
  have htype : e.type = e'.type := (type_of_isCall hcall).trans (type_of_isCall hcall').symm
  simp [sameCanonicalEvent, hdata, htype]

theorem sameCanonicalEvent_results (hknown : Consistent d snapshots known) {e' : LogEntry}
    (he : e ∈ known) (he' : e' ∈ known) (hresult : d.isResult e) (hresult' : d.isResult e') :
    sameCanonicalEvent e.type e.data e' := by
  obtain rfl := hknown.result_eq e he e' he' hresult hresult'
  simp [sameCanonicalEvent]

theorem noteFirst_ends (snapshots : List JsonValue) (conflict : SettlementError)
    {found : Option LogEntry} {isKind : LogEntry → Bool}
      (hfound : ∀ first, found = some first → first ∈ known ∧
      isKind first) (he : e ∈ known) (hkind : isKind e)
    (hsame : AllEqual snapshots → ∀ first, first ∈ known → isKind first →
      sameCanonicalEvent first.type first.data e) :
    match noteFirst found e conflict with
    | .ok kept => kept ∈ known ∧ isKind kept
    | .error _ => ¬ AllEqual snapshots := by
  cases found with
  | none => exact ⟨he, hkind⟩
  | some first =>
    have hfirst := hfound first rfl
    simp only [noteFirst]
    by_cases h : sameCanonicalEvent first.type first.data e
    · rw [if_pos h]
      exact hfirst
    · rw [if_neg h]
      intro heq
      exact h (hsame heq first hfirst.1 hfirst.2)

theorem noConflict_of_ne {e : SettlementError} (hcall : e ≠ conflictingCall)
    (hresult : e ≠ conflictingResult) : NoConflict snapshots e := fun _ => ⟨hcall, hresult⟩

theorem noConflict_of_not_allEqual {e : SettlementError} (h : ¬ AllEqual snapshots) :
    NoConflict snapshots e := fun heq => absurd heq h

theorem noteEvent_ends (hpair : pair.Known d known) (hknown : Consistent d snapshots known)
    (he : e ∈ known) :
    Ends (fun e _ => NoConflict snapshots e) (fun pair known => pair.Known d known)
      (noteEvent d pair e) known := by
  unfold noteEvent
  by_cases hcall : d.isCall e
  · rw [if_pos hcall]
    by_cases hname : d.namesTool e.data
    · rw [if_pos hname]
      have hends := noteFirst_ends snapshots conflictingCall hpair.call_mem he hcall
        (fun heq first hfirst hkind =>
          sameCanonicalEvent_calls hknown heq hfirst he hkind hcall)
      revert hends
      cases noteFirst pair.call e conflictingCall with
      | ok =>
        intro hkept
        refine ⟨?_, hpair.result_mem⟩
        intro first hfirst
        cases hfirst
        exact hkept
      | error => exact noConflict_of_not_allEqual
    · rw [if_neg hname]
      exact noConflict_of_ne (by decide) (by decide)
  · rw [if_neg hcall]
    by_cases hresult : d.isResult e
    · rw [if_pos hresult]
      by_cases hname : d.namesTool e.data
      · rw [if_pos hname]
        have hends := noteFirst_ends snapshots conflictingResult hpair.result_mem he hresult
          (fun _ first hfirst hkind =>
            sameCanonicalEvent_results hknown hfirst he hkind hresult)
        revert hends
        cases noteFirst pair.result e conflictingResult with
        | ok =>
          intro hkept
          refine ⟨hpair.call_mem, ?_⟩
          intro first hfirst
          cases hfirst
          exact hkept
        | error => exact noConflict_of_not_allEqual
      · rw [if_neg hname]
        exact noConflict_of_ne (by decide) (by decide)
    · rw [if_neg hresult]
      exact hpair

variable {events : List LogEntry}

theorem noteEvents_ends (hpair : pair.Known d known) (hknown : Consistent d snapshots known)
    (hevents : events ⊆ known) :
    Ends (fun e _ => NoConflict snapshots e) (fun pair known => pair.Known d known)
      (noteEvents d pair events) known := by
  induction events generalizing pair with
  | nil => exact hpair
  | cons e events ih =>
    have hhead := noteEvent_ends hpair hknown (hevents mem_cons_self)
    have htail : events ⊆ known := fun e' he' => hevents (mem_cons_of_mem e he')
    unfold noteEvents
    revert hhead
    cases noteEvent d pair e with
    | ok =>
      intro hnext
      exact ih hnext htail
    | error e => exact id

end

section

variable {snapshots : List JsonValue} {known : List LogEntry}

theorem readAfter_spec (afterSeq limit : Nat) : Spec d snapshots (readAfter afterSeq limit)
      (fun page known' => known ⊆ known' ∧ Consistent d snapshots known' ∧ page.events ⊆ known')
      known := by
  apply (safeExcept_perform _ _ _).mpr
  refine ⟨trivial, ?_⟩
  intro page known' h
  exact ⟨h.1, h.2.1, h.2.2.1⟩

theorem readSeq_spec (seq : Nat) :
    Spec d snapshots (readSeq seq) (fun events known' => events ⊆ known') known := by
  apply (safeExcept_perform _ _ _).mpr
  refine ⟨trivial, ?_⟩
  intro events known' h
  exact h.2.2.1

theorem recordEvents_spec {event : SessionEvent} {key : String}
    (h : Demand d snapshots (.record event key)) :
    Spec d snapshots (recordEvents event key)
      (fun result _ => result.ok = true → result.count = 1) known := by
  apply (safeExcept_perform _ _ _).mpr
  refine ⟨h, ?_⟩
  intro result known' h
  exact h.2.2.2

theorem waitOrCancel_spec : Spec d snapshots waitOrCancel (fun _ _ => True) known := by
  apply (safeExcept_bind _ _ _ _).mpr
  apply (safeExcept_perform _ _ _).mpr
  refine ⟨trivial, ?_⟩
  intro cancelled known' _
  cases cancelled with
  | true => exact noConflict_of_ne (by decide) (by decide)
  | false => trivial

theorem readCanonicalToolPairs_spec (allowMissingCalls : Bool) (pages : Nat) {afterSeq : Nat}
    {pair : Pair} (hpair : pair.Known d known) :
    Spec d snapshots (readCanonicalToolPairs d allowMissingCalls pages afterSeq pair)
      (fun pair known' => pair.Known d known') known := by
  induction pages generalizing afterSeq pair known with
  | zero => exact noConflict_of_ne (by decide) (by decide)
  | succ pages ih =>
    apply SafeExcept.bind (readAfter_spec afterSeq readPageSize)
    intro page known' hpage
    obtain ⟨hsub, hconsistent, hevents⟩ := hpage
    have hnoted := noteEvents_ends (hpair.mono hsub) hconsistent hevents
    apply SafeExcept.bind ((safeExcept_mk_pure _ _ _).mpr hnoted)
    intro next known'' hnext
    split
    · exact noConflict_of_ne (by decide) (by decide)
    · exact ih hnext
    · split
      · exact noConflict_of_ne (by decide) (by decide)
      · exact hnext

theorem readCanonicalToolPair_spec (pages afterSeq : Nat) :
    Spec d snapshots (readCanonicalToolPair d pages afterSeq)
      (fun result known' => ∀ e, result = some e → e ∈ known' ∧ d.isResult e = true) known := by
  apply SafeExcept.bind (readCanonicalToolPairs_spec false pages Pair.known_empty)
  intro pair known' hpair
  exact hpair.result_mem

end

section

variable {snapshots : List JsonValue} {known : List LogEntry} {pages : Nat}
  {event : SessionEvent} {acknowledgedSeq : Option Nat}

theorem checkSnapshot_spec (call : LogEntry) :
    Spec d snapshots (checkSnapshot event call) (fun _ _ => True) known := by
  unfold checkSnapshot
  split
  · trivial
  · exact noConflict_of_ne (by decide) (by decide)

theorem callIsPresent_spec :
    Spec d snapshots (callIsPresent d pages event acknowledgedSeq) (fun _ _ => True) known := by
  apply SafeExcept.bind waitOrCancel_spec
  intro _ _ _
  apply SafeExcept.bind (readCanonicalToolPairs_spec true pages Pair.known_empty)
  intro pair _ _
  apply SafeExcept.bind waitOrCancel_spec
  intro _ _ _
  split
  · trivial
  · apply SafeExcept.bind (checkSnapshot_spec _)
    intro _ _ _
    trivial

theorem waitForCall_spec (delays : List Nat) :
    Spec d snapshots (waitForCall d pages event acknowledgedSeq delays) (fun _ _ => True)
      known := by
  induction delays generalizing known with
  | nil => trivial
  | cons delay delays ih =>
    apply SafeExcept.bind waitOrCancel_spec
    intro _ _ _
    apply SafeExcept.bind callIsPresent_spec
    intro present _ _
    cases present with
    | true => trivial
    | false => exact ih

section

variable (htype : event.type = "tool_call") (hsnapshot : .obj event.data ∈ snapshots)

include htype hsnapshot

theorem demand_snapshot (key : String) : Demand d snapshots (.record event key) := by
  refine ⟨?_, fun _ _ => hsnapshot⟩
  intro hresult
  rw [htype] at hresult
  exact absurd hresult (by decide)

theorem reconcileToolCall_spec (repaired : EventAppendResult) :
    Spec d snapshots (reconcileToolCall d pages event acknowledgedSeq repaired)
      (fun _ _ => True) known := by
  apply SafeExcept.bind (waitForCall_spec _)
  intro present _ _
  cases present with
  | true => trivial
  | false =>
    apply SafeExcept.bind (recordEvents_spec (demand_snapshot htype hsnapshot _))
    intro reconciled _ _
    apply SafeExcept.bind waitOrCancel_spec
    intro _ _ _
    split
    · exact noConflict_of_ne nofun nofun
    · apply SafeExcept.bind (waitForCall_spec _)
      intro present _ _
      cases present with
      | true => trivial
      | false => exact noConflict_of_ne nofun nofun

theorem repairToolCall_spec :
    Spec d snapshots (repairToolCall d pages event acknowledgedSeq) (fun _ _ => True) known := by
  apply SafeExcept.bind waitOrCancel_spec
  intro _ _ _
  apply SafeExcept.bind (recordEvents_spec (demand_snapshot htype hsnapshot _))
  intro repaired _ _
  apply SafeExcept.bind waitOrCancel_spec
  intro _ _ _
  split
  · exact noConflict_of_ne nofun nofun
  · split
    · apply SafeExcept.bind (readSeq_spec _)
      intro evidence _ _
      split
      · exact checkSnapshot_spec _
      · exact reconcileToolCall_spec htype hsnapshot repaired
    · exact reconcileToolCall_spec htype hsnapshot repaired

end

theorem restoreMissingToolCall_spec
    (hsnapshot : event.type = "tool_call" → d.owns (.obj event.data) →
      .obj event.data ∈ snapshots) :
    Spec d snapshots (restoreMissingToolCall d pages event acknowledgedSeq) (fun _ _ => True)
      known := by
  unfold restoreMissingToolCall
  by_cases htype : event.type = "tool_call"
  · have hne : (event.type != "tool_call") = false := by simp [htype]
    rw [if_neg (by simp [hne])]
    split
    · exact noConflict_of_ne (by decide) (by decide)
    · rename_i hmatches
      have howns : d.owns (.obj event.data) := by
        simp only [Bool.not_eq_true', Bool.and_eq_false_iff, not_or, Bool.not_eq_false] at hmatches
        exact hmatches.1
      apply SafeExcept.bind callIsPresent_spec
      intro present _ _
      cases present with
      | true => trivial
      | false =>
        apply SafeExcept.bind (waitForCall_spec _)
        intro present _ _
        cases present with
        | true => trivial
        | false => exact repairToolCall_spec htype (hsnapshot htype howns)
  · rw [if_pos (by simpa using htype)]
    exact noConflict_of_ne (by decide) (by decide)

end

section

variable {snapshots : List JsonValue} {known : List LogEntry} {c : SettlementCall}

/-- A settlement of a result that reads back what it appends. -/
structure SettlementCall.Verifying (c : SettlementCall) : Prop where
  verifies : c.verifyAfterAppend = true
  type_eq : c.event.type = "tool_result"

/-- The settlement reports the winner, and whether it is its own. -/
structure Reports (d : Descriptor) (c : SettlementCall) (settlement : ToolResultSettlement)
    (winner : LogEntry) : Prop where
  isResult : d.isResult winner = true
  event_eq : settlement.event = winner.canonical
  appended_iff : settlement.appended = true ↔
    winner.data = .obj c.event.data ∧ settlement.appendResult.count ≠ 0

def Settles (d : Descriptor) (c : SettlementCall) (settlement : ToolResultSettlement)
    (known : List LogEntry) : Prop :=
  ∃ winner ∈ known, Reports d c settlement winner

theorem settles_settledBy (hcount : appendResult.count = 1) (hknown : winner ∈ known)
    (hresult : d.isResult winner) :
    Settles d c (c.settledBy appendResult winner) known := by
  refine ⟨winner, hknown, hresult, rfl, ?_⟩
  simp [SettlementCall.settledBy, hcount]

theorem settles_existing {existing : LogEntry} (hknown : existing ∈ known)
    (hresult : d.isResult existing) :
    Settles d c ⟨⟨true, 0, existing.seq, existing.seq⟩, existing.canonical, false⟩ known := by
  refine ⟨existing, hknown, hresult, rfl, ?_⟩
  simp

theorem verifyByPair_spec (hcount : appendResult.count = 1) :
    Spec d snapshots (verifyByPair d c appendResult) (Settles d c) known := by
  apply SafeExcept.bind (readCanonicalToolPair_spec _ _)
  intro result _ hresult
  cases result with
  | none => exact noConflict_of_ne (by decide) (by decide)
  | some winner =>
    obtain ⟨hknown, hkind⟩ := hresult winner rfl
    exact settles_settledBy hcount hknown hkind

theorem validatedTargetedToolResult_some (h : validatedTargetedToolResult d events = some winner) :
    winner ∈ events ∧ d.isResult winner := by
  unfold validatedTargetedToolResult at h
  split at h
  · split at h
    · rename_i hvalid
      cases h
      rw [Bool.and_eq_true] at hvalid
      exact ⟨mem_singleton_self _, hvalid.1⟩
    · cases h
  · cases h

theorem verifyAppended_spec (hcount : appendResult.count = 1) :
    Spec d snapshots (verifyAppended d c appendResult) (Settles d c) known := by
  unfold verifyAppended
  split
  · apply SafeExcept.bind (readSeq_spec _)
    intro evidence _ hevidence
    split
    · rename_i winner hwinner
      obtain ⟨hvalidated, -⟩ := filter_eq_some_iff.mp hwinner
      obtain ⟨hmem, hkind⟩ := validatedTargetedToolResult_some hvalidated
      exact settles_settledBy hcount (hevidence hmem) hkind
    · exact verifyByPair_spec hcount
  · exact verifyByPair_spec hcount

theorem noConflict_withResultEvent {e : SettlementError} (h : NoConflict snapshots e)
    (event : SessionEvent) : NoConflict snapshots (withResultEvent event e) := by
  cases e with
  | repairUnavailable => exact noConflict_of_ne nofun nofun
  | _ => exact h

def SettlementCall.SnapshotIn (c : SettlementCall) (d : Descriptor)
    (snapshots : List JsonValue) : Prop :=
  ∀ event, c.toolCallEvent = some event → event.type = "tool_call" →
    d.owns (.obj event.data) = true → .obj event.data ∈ snapshots

theorem restoreCall_spec (hsnapshot : c.SnapshotIn d snapshots) :
    Spec d snapshots (restoreCall d c) (fun _ _ => True) known := by
  unfold restoreCall
  split
  · trivial
  · rename_i event hevent
    have hrestore : Spec d snapshots
        (restoreMissingToolCall d c.pages event c.toolCallSeq) (fun _ _ => True) known :=
      restoreMissingToolCall_spec (hsnapshot event hevent)
    apply (safe_bind _ _ _ _).mpr
    apply Safe.mono hrestore
    intro r _ hr
    cases r with
    | ok _ => trivial
    | error e => exact noConflict_withResultEvent hr c.event

theorem findExisting_spec : Spec d snapshots (findExisting d c)
      (fun result known' => ∀ e, result = some e → e ∈ known' ∧ d.isResult e = true) known := by
  unfold findExisting
  split
  · exact readCanonicalToolPair_spec _ _
  · intro e he
    cases he

theorem appendToolResultOnce_spec (hverifying : c.Verifying)
    (hsnapshot : c.SnapshotIn d snapshots) :
    Spec d snapshots (appendToolResultOnce d c) (Settles d c) known := by
  apply SafeExcept.bind (restoreCall_spec hsnapshot)
  intro _ _ _
  apply SafeExcept.bind findExisting_spec
  intro result _ hresult
  cases result with
  | some existing =>
    obtain ⟨hknown, hkind⟩ := hresult existing rfl
    exact settles_existing hknown hkind
  | none =>
    have hdemand : Demand d snapshots (.record c.event (toolResultIdempotencyKey d)) := by
      refine ⟨fun _ => rfl, ?_⟩
      intro hcall
      rw [hverifying.type_eq] at hcall
      exact absurd hcall (by decide)
    apply SafeExcept.bind (recordEvents_spec hdemand)
    intro appendResult _ hcount
    by_cases hok : appendResult.ok
    · rw [if_neg (by simp [hok]), if_neg (by simp [hverifying.verifies])]
      exact verifyAppended_spec (hcount hok)
    · rw [if_pos (by simpa using hok)]
      exact noConflict_of_ne nofun nofun

end

/-- The log has one result of the call at most, under its key. -/
structure EventLog.Kept (log : EventLog) (d : Descriptor) (snapshots : List JsonValue) : Prop where
  results_le : (log.entries.filter d.isResult).length ≤ 1
  ledger_result : ∀ e ∈ log.entries, d.isResult e = true →
    (log.ledger.lookup (toolResultIdempotencyKey d)).isSome = true
  counted : ∀ key result, log.ledger.lookup key = some result → result.count = 1
  call_mem : ∀ e ∈ log.entries, d.isCall e = true → e.data ∈ snapshots

/-- Results are appended under their key, and calls as in the snapshots. -/
structure Appendable (d : Descriptor) (snapshots : List JsonValue) (type : String)
    (data : JsonValue) (key : Option String) : Prop where
  key_eq : type = "tool_result" → d.owns data = true → key = some (toolResultIdempotencyKey d)
  call_mem : type = "tool_call" → d.owns data = true → data ∈ snapshots

section

variable {snapshots : List JsonValue} {log : EventLog} {type : String} {data : JsonValue}
  {key : Option String}

section

variable (h : log.Kept d snapshots)
include h

theorem EventLog.Kept.consistent :
    Consistent d snapshots log.entries where
  result_eq e he e' he' hkind hkind' := by
    have hmem : e ∈ log.entries.filter d.isResult := mem_filter.mpr ⟨he, hkind⟩
    have hmem' : e' ∈ log.entries.filter d.isResult := mem_filter.mpr ⟨he', hkind'⟩
    match hresults : log.entries.filter d.isResult, h.results_le with
    | [], _ => simp [hresults] at hmem
    | [x], _ =>
      rw [hresults, mem_singleton] at hmem hmem'
      exact hmem.trans hmem'.symm
  call_mem := h.call_mem

theorem EventLog.Kept.results_eq_nil
    (hkey : log.ledger.lookup (toolResultIdempotencyKey d) = none) :
    log.entries.filter d.isResult = [] := by
  rw [filter_eq_nil_iff]
  intro e he hkind
  have hsome := h.ledger_result e he hkind
  rw [hkey] at hsome
  cases hsome

theorem EventLog.Kept.append (gap : Nat)
    (happendable : Appendable d snapshots type data key)
    (hkey : (key.bind fun k => log.ledger.lookup k) = none) :
    (log.append gap type data key).2.Kept d snapshots where
  results_le := by
    simp only [EventLog.append, filter_append, length_append]
    by_cases hkind : d.isResult ⟨log.lastSeq + 1 + gap, type, data⟩
    · have hboth : type = "tool_result" ∧ d.owns data := by
        simpa [Descriptor.isResult] using hkind
      have hresult := happendable.key_eq hboth.1 hboth.2
      rw [hresult] at hkey
      rw [h.results_eq_nil hkey]
      simp [hkind]
    · have hle := h.results_le
      simp [hkind]
      omega
  ledger_result := by
    intro e he hkind
    simp only [EventLog.append] at he ⊢
    rcases mem_append.mp he with hold | hnew
    · have hsome := h.ledger_result e hold hkind
      cases key with
      | none => exact hsome
      | some k =>
        simp only [map_some, toList_some, singleton_append, lookup_cons]
        split
        · rfl
        · exact hsome
    · rw [mem_singleton] at hnew
      subst hnew
      have hboth : type = "tool_result" ∧ d.owns data := by
        simpa [Descriptor.isResult] using hkind
      rw [happendable.key_eq hboth.1 hboth.2]
      simp
  counted := by
    intro k result hlookup
    simp only [EventLog.append] at hlookup
    cases key with
    | none => exact h.counted k result hlookup
    | some own =>
      simp only [map_some, toList_some, singleton_append, lookup_cons] at hlookup
      split at hlookup
      · cases hlookup
        rfl
      · exact h.counted k result hlookup
  call_mem := by
    intro e he hkind
    rcases mem_append.mp he with hold | hnew
    · exact h.call_mem e hold hkind
    · rw [mem_singleton] at hnew
      subst hnew
      have hboth : type = "tool_call" ∧ d.owns data := by
        simpa [Descriptor.isCall] using hkind
      exact happendable.call_mem hboth.1 hboth.2

theorem EventLog.Kept.record (gap : Nat)
    (happendable : Appendable d snapshots type data key) :
    (log.record gap type data key).2.Kept d snapshots := by
  unfold EventLog.record
  split
  · exact h
  · rename_i hkey
    exact h.append gap happendable hkey

theorem EventLog.Kept.record_count (gap : Nat) :
    (log.record gap type data key).1.count = 1 := by
  unfold EventLog.record
  split
  · rename_i result hlookup
    obtain ⟨k, -, hk⟩ := bind_eq_some_iff.mp hlookup
    exact h.counted k result hk
  · rfl

end

theorem entries_subset_record (log : EventLog) (gap : Nat) (type : String) (data : JsonValue)
    (key : Option String) : log.entries ⊆ (log.record gap type data key).2.entries := by
  unfold EventLog.record
  split
  · exact fun _ he => he
  · exact fun _ he => mem_append_left _ he

theorem entries_subset_perform (log : EventLog) (oracle : Oracle) (o : Op) :
    log.entries ⊆ (log.perform oracle o).2.entries := by
  cases o with
  | record =>
    simp only [EventLog.perform]
    split
    · exact entries_subset_record log _ _ _ _
    · exact fun _ he => he
  | _ => exact fun _ he => he

theorem Demand.appendable {event : SessionEvent} {key : String}
    (h : Demand d snapshots (.record event key)) :
    Appendable d snapshots event.type (.obj event.data) (some key) where
  key_eq htype _ := congrArg some (h.1 htype)
  call_mem := h.2

theorem EventLog.Kept.perform (h : log.Kept d snapshots) (oracle : Oracle) {o : Op}
    (hdemand : Demand d snapshots o) : (log.perform oracle o).2.Kept d snapshots := by
  cases o with
  | record =>
    simp only [EventLog.perform]
    split
    · exact h.record _ hdemand.appendable
    · exact h
  | _ => exact h

theorem EventLog.Kept.learns (h : log.Kept d snapshots) (oracle : Oracle) {o : Op}
    (hdemand : Demand d snapshots o) {known : List LogEntry} (hknown : known ⊆ log.entries) :
    Learns d snapshots known o (log.perform oracle o).1 (log.perform oracle o).2.entries := by
  have hgrown := entries_subset_perform log oracle o
  refine ⟨fun e he => hgrown (hknown he), (h.perform oracle hdemand).consistent, ?_, ?_⟩
  · cases o with
    | readAfter | readSeq =>
      intro e he
      exact (mem_filter.mp (mem_of_mem_take he)).1
    | record | wait => exact nil_subset _
  · cases o with
    | record =>
      simp only [EventLog.perform]
      split
      · exact fun _ => h.record_count _
      · nofun
    | _ => trivial

end

section

variable {snapshots : List JsonValue} {s : System}

/-- The log is kept, and what a process knows is in it. -/
structure System.Sound (s : System) (d : Descriptor) (snapshots : List JsonValue) : Prop where
  kept : s.log.Kept d snapshots
  process : ∀ p ∈ s.processes, ∃ known, known ⊆ s.log.entries ∧
    p.rest.Safe (Learns d snapshots) (fun _ o => Demand d snapshots o)
      (Ends (fun e _ => NoConflict snapshots e) (Settles d p.call)) known
  outcome : ∀ o ∈ s.outcomes, ∃ known, known ⊆ s.log.entries ∧
    Ends (fun e _ => NoConflict snapshots e) (Settles d o.1) o.2 known

def Event.Admitted (d : Descriptor) (snapshots : List JsonValue) : Event → Prop
  | .start c => c.Verifying ∧ c.SnapshotIn d snapshots
  | .other type data key _ => Appendable d snapshots type data key
  | _ => True

section

variable (h : s.Sound d snapshots)
include h

theorem System.Sound.become (i : Nat) {x : Option Process}
    (hx : ∀ p, x = some p → ∃ known, known ⊆ s.log.entries ∧
      p.rest.Safe (Learns d snapshots) (fun _ o => Demand d snapshots o)
        (Ends (fun e _ => NoConflict snapshots e) (Settles d p.call)) known) :
    (s.become i x).Sound d snapshots where
  kept := h.kept
  process p hp := by
    rcases Pool.mem_update hp with hmoved | ⟨j, -, hj⟩
    · exact hx p hmoved
    · exact h.process p (mem_of_getElem? hj)
  outcome := h.outcome

theorem System.Sound.grow {log : EventLog} (hkept : log.Kept d snapshots)
    (hgrown : s.log.entries ⊆ log.entries) :
    ({ s with log := log } : System).Sound d snapshots where
  kept := hkept
  process p hp := by
    obtain ⟨known, hknown, hsafe⟩ := h.process p hp
    exact ⟨known, fun e he => hgrown (hknown he), hsafe⟩
  outcome o ho := by
    obtain ⟨known, hknown, hends⟩ := h.outcome o ho
    exact ⟨known, fun e he => hgrown (hknown he), hends⟩

theorem System.Sound.advance (i : Nat) (oracle : Oracle) {p : Process}
    (hp : p ∈ s.processes) : (s.advance i oracle p).Sound d snapshots := by
  obtain ⟨known, hknown, hsafe⟩ := h.process p hp
  unfold System.advance
  split
  · rename_i result hrest
    rw [hrest] at hsafe
    have hended : ({ s with outcomes := s.outcomes ++ [(p.call, result)] } : System).Sound d
        snapshots := by
      refine ⟨h.kept, h.process, ?_⟩
      intro o ho
      rcases mem_append.mp ho with hold | hnew
      · exact h.outcome o hold
      · rw [mem_singleton] at hnew
        subst hnew
        exact ⟨known, hknown, hsafe⟩
    exact hended.become i nofun
  · rename_i o k hrest
    rw [hrest] at hsafe
    have hgrown := h.grow (h.kept.perform oracle hsafe.1) (entries_subset_perform s.log oracle o)
    apply hgrown.become i
    intro q hq
    cases hq
    exact ⟨_, fun _ he => he, hsafe.2 _ _ (h.kept.learns oracle hsafe.1 hknown)⟩

theorem System.Sound.start {c : SettlementCall} (hverifying : c.Verifying)
    (hsnapshot : c.SnapshotIn d snapshots) :
    (step d s (.start c)).Sound d snapshots where
  kept := h.kept
  process p hp := by
    rcases mem_append.mp hp with hold | hnew
    · exact h.process p hold
    · rw [mem_singleton] at hnew
      subst hnew
      exact ⟨[], nil_subset _, appendToolResultOnce_spec hverifying hsnapshot⟩
  outcome := h.outcome

theorem System.Sound.step {event : Event}
    (hadmitted : event.Admitted d snapshots) :
    (ToolSettlement.step d s event).Sound d snapshots := by
  cases event with
  | start c => exact h.start hadmitted.1 hadmitted.2
  | advance i oracle =>
    cases hp : s.processes[i]? with
    | none =>
      simp only [ToolSettlement.step, hp]
      exact h
    | some p =>
      simp only [ToolSettlement.step, hp]
      exact h.advance i oracle (mem_of_getElem? hp)
  | kill i => exact h.become i nofun
  | other type data key gap =>
    exact h.grow (h.kept.record gap hadmitted) (entries_subset_record _ _ _ _ _)

end

theorem System.sound_empty : System.empty.Sound d snapshots where
  kept := by
    refine ⟨Nat.zero_le _, ?_, ?_, ?_⟩
    · intro e he
      cases he
    · intro key result hlookup
      cases hlookup
    · intro e he
      cases he
  process p hp := by cases hp
  outcome o ho := by cases ho

theorem System.Sound.run (h : s.Sound d snapshots) {events : List Event}
    (hadmitted : ∀ e ∈ events, e.Admitted d snapshots) :
    (Runs.run (ToolSettlement.step d) s events).Sound d snapshots := by
  induction events generalizing s with
  | nil => exact h
  | cons e events ih =>
    have hhead := h.step (hadmitted e mem_cons_self)
    exact ih hhead fun e' he' => hadmitted e' (mem_cons_of_mem e he')

theorem System.Sound.results_eq (h : s.Sound d snapshots) (hmem : winner ∈ s.log.entries)
    (hkind : d.isResult winner) :
    s.log.entries.filter d.isResult = [winner] := by
  have hfiltered : winner ∈ s.log.entries.filter d.isResult := mem_filter.mpr ⟨hmem, hkind⟩
  match hresults : s.log.entries.filter d.isResult, h.kept.results_le with
  | [], _ => simp [hresults] at hfiltered
  | [x], _ =>
    rw [hresults, mem_singleton] at hfiltered
    rw [hfiltered]

end

def callSnapshot (d : Descriptor) (type : String) (data : JsonValue) : List JsonValue :=
  if type == "tool_call" && d.owns data then [data] else []

def Event.snapshots (d : Descriptor) : Event → List JsonValue
  | .start c =>
    match c.toolCallEvent with
    | none => []
    | some event => callSnapshot d event.type (.obj event.data)
  | .other type data _ _ => callSnapshot d type data
  | _ => []

def Event.Promised (d : Descriptor) : Event → Prop
  | .start c => c.Verifying
  | .other type data _ _ => ¬ (type = "tool_result" ∧ d.owns data = true)
  | _ => True

theorem mem_callSnapshot {type : String} {data : JsonValue} (htype : type = "tool_call")
    (howns : d.owns data) : data ∈ callSnapshot d type data := by
  simp [callSnapshot, htype, howns]

theorem Event.Promised.admitted {e : Event} {events : List Event} (h : e.Promised d)
    (he : e ∈ events) : e.Admitted d (events.flatMap (Event.snapshots d)) := by
  cases e with
  | start c =>
    refine ⟨h, ?_⟩
    intro event hevent htype howns
    refine mem_flatMap.mpr ⟨_, he, ?_⟩
    simp only [Event.snapshots, hevent]
    exact mem_callSnapshot htype howns
  | other =>
    refine ⟨?_, ?_⟩
    · intro htype howns
      exact absurd ⟨htype, howns⟩ h
    · intro htype howns
      exact mem_flatMap.mpr ⟨_, he, mem_callSnapshot htype howns⟩
  | _ => trivial

/-- However the calls interleave and die, one result of the tool call wins, every call
that returns reports it, and a call that did not find it standing has appended it
exactly when it is its own. -/
theorem one_canonical_result (d : Descriptor) (events : List Event)
    (hpromised : ∀ e ∈ events, e.Promised d) :
    let s := Runs.run (step d) System.empty events
    (s.log.entries.filter d.isResult).length ≤ 1 ∧
      (∀ call settlement, (call, .ok settlement) ∈ s.outcomes →
        ∃ winner, s.log.entries.filter d.isResult = [winner] ∧ settlement.event = winner.canonical ∧
          (settlement.appended ↔
            winner.data = .obj call.event.data ∧ settlement.appendResult.count ≠ 0)) ∧
      (AllEqual (events.flatMap (Event.snapshots d)) → ∀ call e, (call, .error e) ∈ s.outcomes →
          e ≠ conflictingCall ∧ e ≠ conflictingResult) := by
  intro s
  have hsound : s.Sound d (events.flatMap (Event.snapshots d)) :=
    System.sound_empty.run fun e he => (hpromised e he).admitted he
  refine ⟨hsound.kept.results_le, ?_, ?_⟩
  · intro call settlement houtcome
    obtain ⟨known, hknown, winner, hwinner, hreports⟩ := hsound.outcome _ houtcome
    have hresults := hsound.results_eq (hknown hwinner) hreports.isResult
    exact ⟨winner, hresults, hreports.event_eq, hreports.appended_iff⟩
  · intro hequal call e houtcome
    obtain ⟨known, -, hends⟩ := hsound.outcome _ houtcome
    exact hends hequal

section

def lookup : Descriptor := ⟨"session", "turn", "call", "search"⟩

def lookupData (output : String) : Members :=
  [("turn_id", .str "turn"), ("call_id", .str "call"), ("name", .str "search"),
    ("result", .str output)]

def lookupCaller (targeted : Bool) (output : String) : SettlementCall :=
  { event := ⟨"tool_result", lookupData output⟩
    targetedEvidence := targeted
    toolCallEvent := some ⟨"tool_call", lookupData "?"⟩
    pages := 3 }

def twoCallers : List Event :=
  [.other "tool_call" (.obj (lookupData "?")) none 0, .start (lookupCaller false "slow"),
    .start (lookupCaller true "fast")] ++ replicate 5 (.advance 0 {}) ++
    replicate 10 (.advance 1 {}) ++ replicate 3 (.advance 0 {})

theorem promised_twoCallers : ∀ e ∈ twoCallers, e.Promised lookup := by
  intro e he
  simp only [twoCallers, mem_append, mem_cons, mem_replicate, not_mem_nil, or_false] at he
  rcases he with (((rfl | rfl | rfl) | ⟨-, rfl⟩) | ⟨-, rfl⟩) | ⟨-, rfl⟩
  · exact fun h => absurd h.1 (by decide)
  · exact ⟨rfl, rfl⟩
  · exact ⟨rfl, rfl⟩
  · trivial
  · trivial
  · trivial

theorem one_canonical_result_twoCallers :
    let s := Runs.run (step lookup) System.empty twoCallers
    s.outcomes.map (fun o => o.2.toOption.map (·.appended)) = [some false, some true] ∧
      (s.log.entries.filter lookup.isResult).length ≤ 1 ∧
      (∀ call settlement, (call, .ok settlement) ∈ s.outcomes →
        ∃ winner, s.log.entries.filter lookup.isResult = [winner] ∧
          settlement.event = winner.canonical ∧
          (settlement.appended ↔
            winner.data = .obj call.event.data ∧ settlement.appendResult.count ≠ 0)) := by
  have hresult := one_canonical_result lookup twoCallers promised_twoCallers
  exact ⟨by decide +kernel, hresult.1, hresult.2.1⟩

end

end Cognis.ToolSettlement
