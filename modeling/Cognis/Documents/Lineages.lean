import Cognis.Library.Runs
import Cognis.Documents.MoveStatements

namespace Cognis.Documents

open List ScopedLineages Transactions

def moveOf (s : System) : Event Request → Option (String × Option String × Option String)
  | .advance id =>
    match s.running id with
    | some ⟨changes, .done (.ok (.moved c old new))⟩ =>
      if s.db.admitsAll changes then some (c, old, new) else none
    | _ => none
  | _ => none

/-- All revisions of one lineage carry the same project, and a conversation deliverable and its
artifact record do. -/
structure OneProject (db : Database) : Prop where
  deliverables : ∀ r ∈ db.deliverables, ∀ r' ∈ db.deliverables, r.lineageId = r'.lineageId →
    r.projectId = r'.projectId
  artifacts : ∀ a ∈ db.artifacts, ∀ a' ∈ db.artifacts, a.lineageId = a'.lineageId →
    a.projectId = a'.projectId
  recorded : ∀ r ∈ db.deliverables, r.conversationId ≠ none →
    ∃ a ∈ db.artifacts, a.artifactId = r.deliverableId
  records : ∀ r ∈ db.deliverables, ∀ a ∈ db.artifacts, a.artifactId = r.deliverableId →
    a.projectId = r.projectId

def ArtifactRecordRow.madeInTask (db : Database) (a : ArtifactRecordRow) : Bool :=
  (db.getSession a.sessionId).any fun s => (taskForSession db s s.userEmail).isSome

/-- The deliverable carries the old scope, and its lineage's first revision was made in the chat
outside a task. -/
def MayMoveDeliverable (db : Database) (c : String) (old : Option String) (r : DeliverableRow) :
    Prop :=
  r.projectId = old ∧ ∃ root ∈ db.deliverables, r.lineageId = some root.deliverableId ∧
    root.revision = 1 ∧ root.conversationId = some c ∧ root.stepRunId = none ∧
    root.projectId = old

def MayMoveArtifact (db : Database) (c : String) (old : Option String) (a : ArtifactRecordRow) :
    Prop :=
  (a.projectId = old ∧ ∃ root ∈ db.artifacts, a.lineageId = some root.artifactId ∧
    root.revision = 1 ∧ root.conversationId = some c ∧ root.madeInTask db = false ∧
    root.projectId = old) ∨
  ∃ r ∈ db.deliverables, r.deliverableId = a.artifactId ∧ MayMoveDeliverable db c old r

def MovesOnlyItsOwn (k : Lookups) (s : System) (e : Event Request) : Prop :=
  ∀ c old new, moveOf s e = some (c, old, new) →
    (∀ r ∈ s.db.deliverables, ∀ r' ∈ (step k s e).db.deliverables,
      r'.deliverableId = r.deliverableId → r' ≠ r → MayMoveDeliverable s.db c old r) ∧
    ∀ a ∈ s.db.artifacts, ∀ a' ∈ (step k s e).db.artifacts,
      a'.artifactId = a.artifactId → a' ≠ a → MayMoveArtifact s.db c old a

def NoTaskDocument (s : System) (e : Event Request) : Prop :=
  ∀ c old new, moveOf s e = some (c, old, new) → old = new ∨
    ∀ root ∈ artifactRoots s.db c, root.projectId = old → root.madeInTask s.db = false

variable {k : Lookups} {s : System} {e : Event Request} {c : String} {old new : Option String}
  {db db' : Database}

abbrev SystemSound (s : System) : Prop :=
  Sound Database.apply Database.admitsAll discipline Settles s

theorem WellPlaced.oneProject (h : WellPlaced db) : OneProject db where
  deliverables r hr r' hr' hlineage :=
    h.deliverables.uniform r.entry (mem_map_of_mem hr) r'.entry (mem_map_of_mem hr') hlineage
  artifacts a ha a' ha' hlineage :=
    h.artifacts.uniform a.entry (mem_map_of_mem ha) a'.entry (mem_map_of_mem ha') hlineage
  recorded := h.recorded
  records r hr a ha hid := (h.record r hr a ha hid).project

theorem wellPlaced_empty (tables : Database) :
    WellPlaced { tables with deliverables := [], artifacts := [] } where
  deliverables := placed_nil
  artifacts := placed_nil
  deliverableNames := by simp
  artifactNames := by simp
  firstDeliverable := by simp
  firstArtifact := by simp
  recorded := by simp
  record := by simp

theorem systemSound_step (h : SystemSound s) (e : Event Request) : SystemSound (step k s e) :=
  Sound.step (fun request _ hdb => keeping_transaction request hdb rfl) h e

theorem moved_of_moveOf (h : SystemSound s) (hmove : moveOf s e = some (c, old, new)) :
    (old = new → (step k s e).db.deliverables = s.db.deliverables ∧
      (step k s e).db.artifacts = s.db.artifacts) ∧
    (old ≠ new → Moved c old new s.db (step k s e).db) := by
  cases e with
  | start | rollback => cases hmove
  | advance id =>
    unfold moveOf at hmove
    dsimp only at hmove
    split at hmove
    · next changes c' old' new' hrun =>
      split_ifs at hmove with hallowed
      cases hmove
      have hcommits := h.commits hrun hallowed
      have hdb : (step k s (.advance id)).db = applyAll Database.apply s.db changes := by
        unfold step Transactions.step State.advance
        dsimp only
        rw [hrun]
        dsimp only
        rw [if_pos hallowed]
      rw [hdb]
      exact hcommits.result
    · cases hmove

theorem mayMove_of_following (hdb : WellPlaced db) {r : DeliverableRow} (hr : r ∈ db.deliverables)
    (h : FollowingDeliverable db c old r) : MayMoveDeliverable db c old r := by
  have hscope : r.projectId = old :=
    (hdb.followingDeliverable_iff.mp h).scope hdb.deliverables (mem_map_of_mem hr)
  obtain ⟨root, hroot, hproject, hlineage⟩ := h
  obtain ⟨hmem, hchat, hstep, hone⟩ := mem_deliverableRoots.mp hroot
  exact ⟨hscope, root, hmem, hlineage, hone, hchat, hstep, hproject⟩

theorem Moved.deliverable (h : Moved c old new db db') (hdb : WellPlaced db) {r r' : DeliverableRow}
    (hr : r ∈ db.deliverables) (hr' : r' ∈ db'.deliverables)
    (hid : r'.deliverableId = r.deliverableId) (hne : r' ≠ r) : MayMoveDeliverable db c old r := by
  obtain ⟨ids, hmoved, hids⟩ := h.deliverables
  rw [hmoved] at hr'
  obtain ⟨x, hx, rfl⟩ := mem_map.mp hr'
  have hsame : SameDeliverable x (x.moved ids new) :=
    sameDeliverable_of_fixed DeliverableRow.fixed_moved
  have heq : x = r := hdb.deliverable_eq hx hr (hsame.id.symm.trans hid)
  subst heq
  by_cases hin : x.deliverableId ∈ ids
  · exact mayMove_of_following hdb hr ((hids x hr).mp hin)
  · have hkept : x.moved ids new = x := by
      unfold DeliverableRow.moved
      rw [if_neg fun hc => hin (contains_iff_mem.mp hc)]
    exact absurd hkept hne

theorem Moved.artifact (h : Moved c old new db db') (hdb : WellPlaced db)
    {a a' : ArtifactRecordRow} (ha : a ∈ db.artifacts) (ha' : a' ∈ db'.artifacts)
    (hid : a'.artifactId = a.artifactId) (hne : a' ≠ a) :
    FollowingArtifact db c old a ∨
      ∃ r ∈ db.deliverables, r.deliverableId = a.artifactId ∧ FollowingDeliverable db c old r := by
  obtain ⟨ids, hmoved, hids⟩ := h.artifacts
  rw [hmoved] at ha'
  obtain ⟨x, hx, rfl⟩ := mem_map.mp ha'
  have hsame : SameArtifact x (x.moved ids new) :=
    sameArtifact_of_fixed ArtifactRecordRow.fixed_moved
  have heq : x = a := hdb.artifact_eq hx ha (hsame.id.symm.trans hid)
  subst heq
  by_cases hin : x.artifactId ∈ ids
  · exact (hids x ha).mp hin
  · exact absurd (ArtifactRecordRow.moved_of_not_mem hin) hne

theorem Moved.changes (h : Moved c old new db db') (hne : old ≠ new) {a : ArtifactRecordRow}
    (ha : a ∈ db.artifacts) (hproject : a.projectId = old)
    (hfollowing : FollowingArtifact db c old a) :
    ∃ a' ∈ db'.artifacts, a'.artifactId = a.artifactId ∧ a' ≠ a := by
  obtain ⟨ids, hmoved, hids⟩ := h.artifacts
  have hin : a.artifactId ∈ ids := (hids a ha).mpr (.inl hfollowing)
  have hnew : (a.moved ids new).projectId = new := by
    unfold ArtifactRecordRow.moved
    rw [if_pos (contains_iff_mem.mpr hin)]
  refine ⟨a.moved ids new, hmoved ▸ mem_map_of_mem ha, ?_, ?_⟩
  · exact (sameArtifact_of_fixed ArtifactRecordRow.fixed_moved).id
  · intro heq
    rw [heq, hproject] at hnew
    exact hne hnew

theorem movesOnlyItsOwn_iff (h : SystemSound s) :
    MovesOnlyItsOwn k s e ↔ NoTaskDocument s e := by
  have hdb : WellPlaced s.db := h.inv
  constructor
  · intro howns c old new hmove
    by_cases heq : old = new
    · exact .inl heq
    · right
      intro root hroot hproject
      have hmoved := (moved_of_moveOf (k := k) h hmove).2 heq
      have hmem := (mem_artifactRoots.mp hroot).1
      have hfollowing : FollowingArtifact s.db c old root :=
        ⟨root, hroot, hproject, hdb.ownArtifactRoot hroot⟩
      obtain ⟨a', ha', hid, hne⟩ := hmoved.changes heq hmem hproject hfollowing
      rcases (howns c old new hmove).2 root hmem a' ha' hid hne with
        ⟨-, x, hx, hlineage, -, -, htask, -⟩ | ⟨r, hr, hrid, -⟩
      · have hname : root.artifactId = x.artifactId :=
          Option.some.inj ((hdb.ownArtifactRoot hroot).symm.trans hlineage)
        rw [hdb.artifact_eq hmem hx hname]
        exact htask
      · exact absurd hrid.symm (hdb.following_not_record hmem hfollowing hr)
  · intro hnone c old new hmove
    obtain ⟨hstays, hmoves⟩ := moved_of_moveOf (k := k) h hmove
    by_cases heq : old = new
    · obtain ⟨hdeliverables, hartifacts⟩ := hstays heq
      rw [hdeliverables, hartifacts]
      constructor
      · intro r hr r' hr' hid hne
        exact absurd (hdb.deliverable_eq hr' hr hid) hne
      · intro a ha a' ha' hid hne
        exact absurd (hdb.artifact_eq ha' ha hid) hne
    · have hmoved := hmoves heq
      constructor
      · intro r hr r' hr' hid hne
        exact hmoved.deliverable hdb hr hr' hid hne
      · intro a ha a' ha' hid hne
        rcases hmoved.artifact hdb ha ha' hid hne with hfollowing | ⟨r, hr, hrid, hfollowing⟩
        · have hscope : a.projectId = old :=
            (hdb.followingArtifact_iff.mp hfollowing).scope hdb.artifacts (mem_map_of_mem ha)
          obtain ⟨root, hroot, hproject, hlineage⟩ := hfollowing
          obtain ⟨hmem, hchat, -, hone⟩ := mem_artifactRoots.mp hroot
          have htask := ((hnone c old new hmove).resolve_left heq) root hroot hproject
          exact .inl ⟨hscope, root, hmem, hlineage, hone, hchat, htask, hproject⟩
        · exact .inr ⟨r, hr, hrid, mayMove_of_following hdb hr hfollowing⟩

/-- In every run, all lineages stay in one project; moves change only what the chat has started
outside tasks exactly if no document of the chat that follows was written by a task. -/
theorem lineages_in_one_project_iff (k : Lookups) (tables : Database)
    (es : List (Event Request)) :
    let s₀ : System := initial { tables with deliverables := [], artifacts := [] }
    ((∀ pre, pre <+: es → OneProject (Runs.run (step k) s₀ pre).db) ∧
        Runs.Meets (step k) (MovesOnlyItsOwn k) s₀ es) ↔
      Runs.Meets (step k) NoTaskDocument s₀ es := by
  intro s₀
  have hsound : SystemSound s₀ := sound_initial (wellPlaced_empty tables)
  have hsame : Runs.Meets (step k) (MovesOnlyItsOwn k) s₀ es ↔
      Runs.Meets (step k) NoTaskDocument s₀ es := by
    rw [Runs.meets_iff_forall_prefix, Runs.meets_iff_forall_prefix]
    have hstate : ∀ pre, SystemSound (Runs.run (step k) s₀ pre) :=
      Runs.run_invariant SystemSound (fun s e hs => systemSound_step hs e) hsound
    constructor
    · intro h pre e hpre
      exact (movesOnlyItsOwn_iff (hstate pre)).mp (h pre e hpre)
    · intro h pre e hpre
      exact (movesOnlyItsOwn_iff (hstate pre)).mpr (h pre e hpre)
  constructor
  · intro h
    exact hsame.mp h.2
  · intro h
    refine ⟨?_, hsame.mpr h⟩
    intro pre _
    have hpre : SystemSound (Runs.run (step k) s₀ pre) :=
      Runs.run_invariant SystemSound (fun s e hs => systemSound_step hs e) hsound pre
    exact hpre.inv.oneProject

def memberLookups : Lookups where
  projectRole := fun _ _ _ => some .member
  agentUsableInProject := fun _ _ _ _ => true
  agentUseGrant := fun _ _ _ _ => false
  availableKnowledgebases := fun _ _ _ => []
  lower := id

def sharedTask : Database where
  sessions := [{ sessionId := "work", conversationId := "step", userEmail := "ann",
                 agentId := "painter" }]
  conversations := [{ conversationId := "step", userEmail := "ann", agentId := "painter",
                      projectId := some "home", visibility := .project }]
  tasks := [{ taskId := "sketch", createdBy := "ann", agentId := "painter",
              projectId := some "home", visibility := .project }]
  stepRuns := [{ stepRunId := "run", taskId := "sketch", sessionId := some "work" }]
  projects := [{ projectId := "home" }]

def taskDocument : ArtifactWrite where
  actor := ⟨"ann", some "painter", some "step", some "work", false⟩
  purpose := "artifact_write"
  supersedes := none
  requestedProjectId := none
  uuidHex := "1"
  mayRevise := fun _ _ => true

def taskThenPrivate : List (Event Request) :=
  [.start 1 (.artifact taskDocument)] ++ replicate 5 (.advance 1) ++
    [.start 2 (.changeVisibility "step" .privateOnly)] ++ replicate 12 (.advance 2)

def taskThenPrivateState : System :=
  Runs.run (step memberLookups) (initial sharedTask) taskThenPrivate

/-- The document of the task leaves its project. -/
theorem task_document_moves : ¬ ((∀ pre, pre <+: taskThenPrivate ++ [.advance 2] →
          OneProject (Runs.run (step memberLookups) (initial sharedTask) pre).db) ∧
        Runs.Meets (step memberLookups) (MovesOnlyItsOwn memberLookups) (initial sharedTask)
          (taskThenPrivate ++ [.advance 2])) := by
  rintro ⟨-, hmeets⟩
  have hsound : SystemSound taskThenPrivateState :=
    Runs.run_invariant SystemSound (fun s e hs => systemSound_step hs e)
      (sound_initial (wellPlaced_empty sharedTask)) taskThenPrivate
  have howns : MovesOnlyItsOwn memberLookups taskThenPrivateState (.advance 2) :=
    (Runs.meets_append.mp hmeets).2.1
  have hmove : moveOf taskThenPrivateState (.advance 2) = some ("step", some "home", none) := by
    decide +kernel
  have hnone := (movesOnlyItsOwn_iff hsound).mp howns _ _ _ hmove
  have hfound : (artifactRoots taskThenPrivateState.db "step").any (fun root =>
      root.projectId == some "home" && root.madeInTask taskThenPrivateState.db) = true := by
    decide +kernel
  obtain ⟨root, hroot, htask⟩ := any_eq_true.mp hfound
  rw [Bool.and_eq_true, beq_iff_eq] at htask
  rcases hnone with heq | hall
  · cases heq
  · rw [hall root hroot htask.1] at htask
    exact absurd htask.2 (by decide)

end Cognis.Documents
