import Cognis.DirectTurn.DispatchFacts
import Cognis.DirectTurn.Exclusive

namespace Cognis.DirectTurn

open Coordination JsonValue List Option Runs

/-- The in-flight batches as their callers mean them: the descriptors last
recorded under a session and turn and not yet completed. -/
abbrev Journal := String × String → Option (List JsonValue)

/-- The executor binding on the descriptors that carry its call id. -/
def DispatchBinding.bindValue (b : DispatchBinding) : JsonValue → JsonValue
  | .obj m => .obj (b.bind m).1
  | d => d

def Call.journal (r : DirectTurnRequestRow) (j : Journal) : Call → Journal
  | .recordToolDispatch _ _ sessionId turnId descriptors _ =>
    Function.update j (sessionId, resolveDispatchTurnId turnId r) (some descriptors)
  | .completeToolDispatch _ _ sessionId turnId _ _ =>
    Function.update j (sessionId, resolveDispatchTurnId turnId r) none
  | .mergeToolDispatch _ _ sessionId turnId b =>
    let key := (sessionId, resolveDispatchTurnId turnId r)
    Function.update j key ((j key).map (List.map b.bindValue))
  | _ => j

structure Tracked where
  db : Database
  journal : Journal

def Tracked.step (c : Codec) (requestId : String) (t : Tracked) (e : Event) : Tracked where
  db := DirectTurn.step c t.db e
  journal :=
    match t.db.find requestId with
    | none => t.journal
    | some r =>
      if (e.call.values c (t.db.wait e.elapsed) r).isSome then e.call.journal r t.journal
      else t.journal

/-- The row's groups are the journal's batches, each once, and the phase says
whether there are any. -/
structure JournalExact (r : DirectTurnRequestRow) (j : Journal) : Prop where
  once : ((readToolDispatchGroups r.outcomeDict r.sessionId (some r.turnId)).map
    ToolDispatchGroup.key).Nodup
  exact : ∀ g, g ∈ readToolDispatchGroups r.outcomeDict r.sessionId (some r.turnId) ↔
    j g.key = some g.toolCalls
  phase : InFlight r.outcomeDict ↔ ∃ key, (j key).isSome = true

/-- The journal's writers as their callers use them: object descriptors under a
named session, metadata without a phase, and a checkpoint at another boundary
that clears nothing. -/
def Call.WritesJournal : Call → Prop
  | .recordToolDispatch _ _ sessionId _ descriptors metadata =>
    sessionId ≠ "" ∧ descriptors ≠ [] ∧ (∀ d ∈ descriptors, IsObject d) ∧
      "phase" ∉ metadata.map Prod.fst
  | .completeToolDispatch _ _ _ _ _ metadata => "phase" ∉ metadata.map Prod.fst
  | .mergeToolDispatch .. => True
  | .checkpoint _ _ phase metadata clear =>
    clear = false ∧ phase ≠ toolInFlightPhase ∧ "phase" ∉ metadata.map Prod.fst
  | _ => False

def OnlyJournalWrites (c : Codec) (requestId : String) (t : Tracked) (e : Event) : Prop :=
  ∀ r, t.db.find requestId = some r → ∀ v, e.call.values c (t.db.wait e.elapsed) r = some v →
    v.outcome.isSome = true → e.call.WritesJournal

/-- The groups are the entries of the journal, each under its key. -/
structure Represents (gs : List ToolDispatchGroup) (j : Journal) : Prop where
  nodup : (gs.map ToolDispatchGroup.key).Nodup
  mem : ∀ g, g ∈ gs ↔ j g.key = some g.toolCalls

section

variable {gs : List ToolDispatchGroup} {j : Journal}

theorem represents_nil : Represents [] (fun _ => none) := ⟨nodup_nil, by simp⟩

theorem Represents.remove (h : Represents gs j) (key : String × String) :
    Represents (gs.filter (fun g => g.key ≠ key)) (Function.update j key none) := by
  constructor
  · exact (filter_sublist.map ToolDispatchGroup.key).nodup h.nodup
  · intro g
    rw [mem_filter, h.mem g]
    by_cases hk : g.key = key
    · rw [hk, Function.update_self]
      simp
    · simp [hk]

theorem Represents.replace (h : Represents gs j) (g' : ToolDispatchGroup) :
    Represents (replaceDispatchGroup gs g') (Function.update j g'.key (some g'.toolCalls)) := by
  constructor
  · rw [replaceDispatchGroup, map_append, nodup_append]
    refine ⟨(filter_sublist.map ToolDispatchGroup.key).nodup h.nodup, by simp, ?_⟩
    intro k hk k' hk' heq
    obtain ⟨g, hg, rfl⟩ := mem_map.mp hk
    have hne : g.key ≠ g'.key := by simpa using (mem_filter.mp hg).2
    have hkey : k' = g'.key := by simpa using hk'
    exact hne (heq.trans hkey)
  · intro g
    rw [replaceDispatchGroup, mem_append, mem_filter, mem_singleton, h.mem g]
    by_cases hk : g.key = g'.key
    · rw [hk, Function.update_self]
      obtain ⟨s, t, ds⟩ := g
      obtain ⟨s', t', ds'⟩ := g'
      obtain ⟨rfl, rfl⟩ := Prod.mk.inj hk
      simp [eq_comm]
    · have hne : g ≠ g' := fun heq => hk (heq ▸ rfl)
      simp [hk, hne]

theorem Represents.isSome_iff (h : Represents gs j) : (∃ key, (j key).isSome) ↔ gs ≠ [] := by
  constructor
  · rintro ⟨⟨s, t⟩, hkey⟩ hnil
    obtain ⟨ds, hds⟩ := isSome_iff_exists.mp hkey
    have hmem := (h.mem ⟨s, t, ds⟩).mpr hds
    rw [hnil] at hmem
    cases hmem
  · intro hne
    obtain ⟨g, hg⟩ := exists_mem_of_ne_nil gs hne
    exact ⟨g.key, by rw [(h.mem g).mp hg]; rfl⟩

end

theorem bind_objectDescriptors (b : DispatchBinding) {ds : List JsonValue}
    (h : ∀ d ∈ ds, IsObject d) :
    (objectDescriptors ds).map (fun m => JsonValue.obj (b.bind m).1) = ds.map b.bindValue := by
  induction ds with
  | nil => rfl
  | cons d ds ih =>
    have hrest := ih (fun x hx => h x (mem_cons_of_mem _ hx))
    cases d with
    | obj m =>
      have hcons : objectDescriptors (JsonValue.obj m :: ds) = m :: objectDescriptors ds := rfl
      rw [hcons, map_cons, map_cons, hrest]
      rfl
    | null | bool | num | str | arr => exact absurd (h _ mem_cons_self) id

/-- The row's outcome holds the journal, and is in flight while it has entries. -/
structure Journaled (r : DirectTurnRequestRow) (j : Journal) (gs : List ToolDispatchGroup) :
    Prop where
  turn : r.turnId ≠ ""
  holds : Holds r.outcomeDict gs
  readable : ∀ g ∈ gs, g.Readable
  represents : Represents gs j
  phase : InFlight r.outcomeDict ↔ gs ≠ []

theorem Journaled.exact {r : DirectTurnRequestRow} {j : Journal} {gs : List ToolDispatchGroup}
    (h : Journaled r j gs) : JournalExact r j where
  once := by
    rw [h.holds.read]
    exact h.represents.nodup
  exact g := by
    rw [h.holds.read]
    exact h.represents.mem g
  phase := h.phase.trans h.represents.isSome_iff.symm

section

variable {c : Codec} {db : Database} {r : DirectTurnRequestRow} {j : Journal}
  {gs : List ToolDispatchGroup} {v : RowValues} {call : Call}

theorem Journaled.of_outcome_none (h : Journaled r j gs) (hv : v.outcome = none) :
    Journaled (r.assign v) j gs := by
  have hsame : (r.assign v).outcomeDict = r.outcomeDict := by
    rw [DirectTurnRequestRow.assign, hv]
    rfl
  exact ⟨h.turn, hsame ▸ h.holds, h.readable, h.represents, hsame ▸ h.phase⟩

theorem outcomeDict_assign {o : Members} (hv : v.outcome = some (.obj o)) :
    (r.assign v).outcomeDict = o := by
  rw [DirectTurnRequestRow.assign, hv]
  rfl

theorem Journaled.of_outcome {j' : Journal} {gs' : List ToolDispatchGroup} {o : Members}
    (hturn : r.turnId ≠ "") (hv : v.outcome = some (.obj o)) (hholds : Holds o gs')
    (hreadable : ∀ g ∈ gs', g.Readable) (hrep : Represents gs' j')
    (hphase : InFlight o ↔ gs' ≠ []) : Journaled (r.assign v) j' gs' := by
  have hout := outcomeDict_assign (r := r) hv
  exact ⟨hturn, hout ▸ hholds, hreadable, hrep, hout ▸ hphase⟩

theorem replaceDispatchGroup_ne_nil (gs : List ToolDispatchGroup) (g : ToolDispatchGroup) :
    replaceDispatchGroup gs g ≠ [] := by
  simp [replaceDispatchGroup]

theorem Journaled.write (h : Journaled r j gs) (hcall : call.WritesJournal)
    (hv : call.values c db r = some v) :
    ∃ gs', Journaled (r.assign v) (call.journal r j) gs' := by
  cases call with
  | recordToolDispatch =>
    obtain ⟨hsession, hne, hobj, hmeta⟩ := hcall
    simp only [Call.values, recordToolDispatch] at hv
    obtain ⟨o, ho, rfl, -⟩ := outcomeUpdate_eq_some hv
    obtain ⟨o', ho', hholds, hread, hflight⟩ := recordOutcome_spec h.holds h.readable
      h.turn hsession hne hobj hmeta
    obtain rfl : o' = o := some.inj (ho'.symm.trans ho)
    refine ⟨_, Journaled.of_outcome h.turn rfl hholds hread (h.represents.replace _) ?_⟩
    exact iff_of_true hflight (replaceDispatchGroup_ne_nil _ _)
  | completeToolDispatch =>
    simp only [Call.values, completeToolDispatch] at hv
    obtain ⟨o, ho, rfl, -⟩ := outcomeUpdate_eq_some hv
    obtain ⟨o', ho', hholds, hflight⟩ := completeOutcome_spec h.holds h.readable hcall
    obtain rfl : o' = o := some.inj (ho'.symm.trans ho)
    refine ⟨_, Journaled.of_outcome h.turn rfl hholds ?_ (h.represents.remove _) hflight⟩
    intro g hg
    exact h.readable g (mem_filter.mp hg).1
  | mergeToolDispatch requestId lease sessionId turnId b =>
    simp only [Call.values, mergeToolDispatch] at hv
    obtain ⟨o, ho, rfl, -⟩ := outcomeUpdate_eq_some hv
    split at ho
    · obtain ⟨owner, howner, hkey, hholds, hread, hflight⟩ :=
        mergeOutcome_spec h.holds h.readable ho
      rw [bind_objectDescriptors b (h.readable owner howner).objects] at hholds hread
      have hrep := h.represents.replace
        ⟨owner.sessionId, owner.turnId, owner.toolCalls.map b.bindValue⟩
      have hj : j (sessionId, resolveDispatchTurnId turnId r) = some owner.toolCalls := by
        rw [← hkey]
        exact (h.represents.mem owner).mp howner
      refine ⟨_, Journaled.of_outcome h.turn rfl hholds hread ?_ ?_⟩
      · have hkey' : (owner.sessionId, owner.turnId)
            = (sessionId, resolveDispatchTurnId turnId r) := hkey
        simp only [Call.journal, hj, map_some]
        rw [← hkey']
        exact hrep
      · rw [hflight, h.phase]
        exact iff_of_true (ne_nil_of_mem howner) (replaceDispatchGroup_ne_nil _ _)
    · cases ho
  | checkpoint =>
    obtain ⟨rfl, hnot, hmeta⟩ := hcall
    simp only [Call.values, checkpoint] at hv
    obtain ⟨o, ho, rfl, -⟩ := outcomeUpdate_eq_some hv
    obtain ⟨o', ho', hholds, hflight⟩ := checkpointOutcome_spec h.holds h.readable hnot hmeta
    obtain rfl : o' = o := some.inj (ho'.symm.trans ho)
    exact ⟨_, Journaled.of_outcome h.turn rfl hholds h.readable h.represents hflight⟩
  | _ => exact absurd hcall id

theorem journal_eq_of_outcome_none (hv : call.values c db r = some v) (ho : v.outcome = none) :
    call.journal r j = j := by
  cases call with
  | recordToolDispatch =>
    simp only [Call.values, recordToolDispatch] at hv
    obtain ⟨o, -, rfl, -⟩ := outcomeUpdate_eq_some hv
    cases ho
  | completeToolDispatch =>
    simp only [Call.values, completeToolDispatch] at hv
    obtain ⟨o, -, rfl, -⟩ := outcomeUpdate_eq_some hv
    cases ho
  | mergeToolDispatch =>
    simp only [Call.values, mergeToolDispatch] at hv
    obtain ⟨o, -, rfl, -⟩ := outcomeUpdate_eq_some hv
    cases ho
  | _ => rfl

theorem find_perform {requestId : String} (h : db.find requestId = some r) :
    (perform c db call).find requestId = some (call.after c db r) := by
  unfold Database.find at h ⊢
  have hmap : ∀ l : List DirectTurnRequestRow,
      l.find? (fun r => decide (r.requestId = requestId)) = some r →
      (l.map (call.after c db)).find? (fun r => decide (r.requestId = requestId))
        = some (call.after c db r) := by
    intro l
    induction l with
    | nil => simp
    | cons a l ih =>
      intro hl
      rw [map_cons]
      by_cases ha : a.requestId = requestId
      · rw [find?_cons_of_pos (by simpa using ha)] at hl
        rw [find?_cons_of_pos (by simpa using ha), some.inj hl]
      · rw [find?_cons_of_neg (by simpa using ha)] at hl
        rw [find?_cons_of_neg (by simpa using ha)]
        exact ih hl
  have hrows : (perform c db call).requests =
      db.requests.map (call.after c db) ++ (call.inserted c db).toList := rfl
  rw [hrows, find?_append, hmap db.requests h, some_or]

end

theorem Tracked.step_journaled {c : Codec} {requestId : String} {t : Tracked} {e : Event}
    (h : ∃ r gs, t.db.find requestId = some r ∧ Journaled r t.journal gs)
    (hwrites : OnlyJournalWrites c requestId t e) :
    ∃ r gs, (t.step c requestId e).db.find requestId = some r ∧
      Journaled r (t.step c requestId e).journal gs := by
  obtain ⟨r, gs, hfind, hr⟩ := h
  have hafter : (t.step c requestId e).db.find requestId =
      some (e.call.after c (t.db.wait e.elapsed) r) := find_perform hfind
  cases hv : e.call.values c (t.db.wait e.elapsed) r with
  | none =>
    refine ⟨r, gs, ?_, ?_⟩
    · rw [hafter, Call.after, hv]
      rfl
    · simpa [Tracked.step, hfind, hv] using hr
  | some v =>
    have hsame : e.call.after c (t.db.wait e.elapsed) r = r.assign v := by
      rw [Call.after, hv]
      rfl
    have hjournal : (t.step c requestId e).journal = e.call.journal r t.journal := by
      simp [Tracked.step, hfind, hv]
    rw [hafter, hsame, hjournal]
    cases ho : v.outcome with
    | none =>
      rw [journal_eq_of_outcome_none hv ho]
      exact ⟨_, gs, rfl, hr.of_outcome_none ho⟩
    | some o =>
      have hcall := hwrites r hfind v hv (by rw [ho]; rfl)
      obtain ⟨gs', hgs'⟩ := hr.write hcall hv
      exact ⟨_, gs', rfl, hgs'⟩

theorem tracked_db (c : Codec) (requestId : String) (t : Tracked) (es : List Event) :
    (run (Tracked.step c requestId) t es).db = run (step c) t.db es := by
  induction es generalizing t with
  | nil => rfl
  | cons e _ ih => exact ih _

/-- From a request with no recorded groups, whatever the sessions sharing its
fence write and in whatever order: the recorded groups are exactly the batches
recorded and not completed, with the descriptors of their last record and the
bindings merged since, and the phase is in flight exactly while there is one. -/
theorem tool_journal_exact (c : Codec) (requestId : String) (db : Database)
    (r : DirectTurnRequestRow) (hfind : db.find requestId = some r) (hturn : r.turnId ≠ "")
    (hnone : Holds r.outcomeDict []) (hphase : ¬ InFlight r.outcomeDict) (es : List Event)
    (hwrites : Meets (Tracked.step c requestId) (OnlyJournalWrites c requestId)
      ⟨db, fun _ => none⟩ es) :
    ∃ r', (run (step c) db es).find requestId = some r' ∧
      JournalExact r' (run (Tracked.step c requestId) ⟨db, fun _ => none⟩ es).journal := by
  have hstart : ∃ r gs, db.find requestId = some r ∧ Journaled r (fun _ => none) gs := by
    refine ⟨r, [], hfind, hturn, hnone, by simp, represents_nil, ?_⟩
    simp [hphase]
  obtain ⟨r', gs, hfind', hr'⟩ := run_invariant_of_meets
    (fun t : Tracked => ∃ r gs, t.db.find requestId = some r ∧ Journaled r t.journal gs)
    (fun _ _ ht hw => Tracked.step_journaled ht hw) hstart hwrites
  rw [tracked_db] at hfind'
  exact ⟨r', hfind', hr'.exact⟩

def claimedDb : Database := run (step plainCodec) Database.empty claimedFirst

def claimedRow : DirectTurnRequestRow :=
  (claimedDb.find "r1").getD (newRequest plainCodec Database.empty (sampleAdmission "r1" "t1") [])

def twoSessions : List Event :=
  [⟨1, .recordToolDispatch "r1" (sampleLease "a:1" 1) "s1" none [.obj [("call_id", .str "k1")]] []⟩,
    ⟨1, .recordToolDispatch "r1" (sampleLease "a:1" 1) "s2" (some "t9")
      [.obj [("call_id", .str "k2")]] []⟩,
    ⟨1, .mergeToolDispatch "r1" (sampleLease "a:1" 1) "s1" none ⟨"k1", "e", none, true⟩⟩,
    ⟨1, .completeToolDispatch "r1" (sampleLease "a:1" 1) "s2" (some "t9") ["k2"] []⟩]

theorem tool_journal_exact_two_sessions :
    let journal :=
      (run (Tracked.step plainCodec "r1") ⟨claimedDb, fun _ => none⟩ twoSessions).journal
    journal ("s1", "t1") = some [.obj [("call_id", .str "k1"), ("executor_id", .str "e"),
      ("executor_instance_id", .null), ("dispatch_state", .str "sent")]] ∧
    journal ("s2", "t9") = none ∧
    ∃ r', (run (step plainCodec) claimedDb twoSessions).find "r1" = some r' ∧
      JournalExact r' journal := by
  refine ⟨by decide, by decide, ?_⟩
  refine tool_journal_exact plainCodec "r1" claimedDb claimedRow (by decide) (by decide)
    ⟨fun _ _ => rfl, rfl⟩ (by decide) twoSessions ⟨?_, ?_, ?_, ?_, trivial⟩
  · intro r _ v _ _
    exact ⟨by decide, by decide, by decide, by decide⟩
  · intro r _ v _ _
    exact ⟨by decide, by decide, by decide, by decide⟩
  · intro r _ v _ _
    trivial
  · intro r _ v _ _
    exact not_mem_nil

/-- The journal of request `r1` does not match its row after these events. -/
def JournalBroken (db : Database) (es : List Event) : Prop :=
  ∃ r', (run (step plainCodec) db es).find "r1" = some r' ∧
    ¬ JournalExact r' (run (Tracked.step plainCodec "r1") ⟨db, fun _ => none⟩ es).journal

theorem journalBroken_of_missing {db : Database} {es : List Event} (g : ToolDispatchGroup)
    (hrow : ((run (step plainCodec) db es).find "r1").isSome)
    (hjournal : (run (Tracked.step plainCodec "r1") ⟨db, fun _ => none⟩ es).journal g.key
      = some g.toolCalls)
    (hgroups : ((run (step plainCodec) db es).find "r1").all
      (fun r => g ∉ readToolDispatchGroups r.outcomeDict r.sessionId (some r.turnId))) :
    JournalBroken db es := by
  obtain ⟨r', hr'⟩ := isSome_iff_exists.mp hrow
  refine ⟨r', hr', ?_⟩
  intro hexact
  rw [hr', all_some, decide_eq_true_eq] at hgroups
  exact hgroups ((hexact.exact g).mpr hjournal)

theorem journalBroken_of_idle {db : Database} {es : List Event}
    (hrow : ((run (step plainCodec) db es).find "r1").isSome)
    (hjournal : ∀ key,
      (run (Tracked.step plainCodec "r1") ⟨db, fun _ => none⟩ es).journal key = none)
    (hphase : ((run (step plainCodec) db es).find "r1").all
      (fun r => InFlight r.outcomeDict)) :
    JournalBroken db es := by
  obtain ⟨r', hr'⟩ := isSome_iff_exists.mp hrow
  refine ⟨r', hr', ?_⟩
  intro hexact
  rw [hr', all_some, decide_eq_true_eq] at hphase
  obtain ⟨key, hkey⟩ := hexact.phase.mp hphase
  rw [hjournal key] at hkey
  cases hkey

def byOwner (call : String → Lease → Call) : Event := ⟨1, call "r1" (sampleLease "a:1" 1)⟩

def inFlightCheckpoint : Event := byOwner (.checkpoint · · toolInFlightPhase [] false)

/-- Four ways out of exactness: a batch under an empty session id is stored but
not read back, a descriptor that is not an object is stored as one, a
checkpoint may name the in-flight phase itself, and a request may start in it. -/
theorem tool_journal_not_exact :
    JournalBroken claimedDb
      [byOwner (.recordToolDispatch · · "" none [.obj [("call_id", .str "k1")]] [])] ∧
    JournalBroken claimedDb [byOwner (.recordToolDispatch · · "s1" none [.arr []] [])] ∧
    JournalBroken claimedDb [inFlightCheckpoint] ∧
    JournalBroken (run (step plainCodec) claimedDb [inFlightCheckpoint])
      [byOwner (.mergeToolDispatch · · "s1" none ⟨"k1", "e", none, true⟩)] := by
  refine ⟨?_, ?_, ?_, ?_⟩
  · exact journalBroken_of_missing ⟨"", "t1", [.obj [("call_id", .str "k1")]]⟩
      (by decide) (by decide) (by decide)
  · exact journalBroken_of_missing ⟨"s1", "t1", [.arr []]⟩ (by decide) (by decide) (by decide)
  · exact journalBroken_of_idle (by decide) (fun _ => rfl) (by decide)
  · exact journalBroken_of_idle (by decide) (fun _ => rfl) (by decide)

end Cognis.DirectTurn
