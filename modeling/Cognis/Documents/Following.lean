import Cognis.Documents.Moves
import Cognis.Library.ScopedLineages

namespace Cognis.Documents

open List ScopedLineages Transactions

def DeliverableRow.entry (r : DeliverableRow) : Entry String (Option String) :=
  ⟨r.deliverableId, r.lineageId, r.projectId⟩

def ArtifactRecordRow.entry (a : ArtifactRecordRow) : Entry String (Option String) :=
  ⟨a.artifactId, a.lineageId, a.projectId⟩

def Database.deliverableEntries (db : Database) : List (Entry String (Option String)) :=
  db.deliverables.map (·.entry)

def Database.artifactEntries (db : Database) : List (Entry String (Option String)) :=
  db.artifacts.map (·.entry)

def DeliverableRow.fixed (r : DeliverableRow) : DeliverableRow :=
  { r with status := .buffered, projectId := none }

def ArtifactRecordRow.fixed (a : ArtifactRecordRow) : ArtifactRecordRow :=
  { a with projectId := none }

/-- The artifact records a conversation's deliverable, alone in its lineage. -/
structure RecordOf (artifacts : List ArtifactRecordRow) (r : DeliverableRow)
    (a : ArtifactRecordRow) : Prop where
  conversation : r.conversationId ≠ none
  project : a.projectId = r.projectId
  purpose : a.purpose = "conversation_deliverable"
  own : a.lineageId = some a.artifactId
  alone : ∀ b ∈ artifacts, b.lineageId = some a.artifactId → b.artifactId = a.artifactId

/-- The invariant of the documents. -/
structure WellPlaced (db : Database) : Prop where
  deliverables : Placed db.deliverableEntries
  artifacts : Placed db.artifactEntries
  deliverableNames : ∀ r ∈ db.deliverables, ∃ hex, r.deliverableId = "dlv_" ++ hex
  artifactNames : ∀ a ∈ db.artifacts, (∃ hex, a.artifactId = "art_" ++ hex) ∨
    ∃ r ∈ db.deliverables, r.deliverableId = a.artifactId
  firstDeliverable : ∀ r ∈ db.deliverables, r.conversationId ≠ none → r.revision = 1 →
    r.lineageId = some r.deliverableId
  firstArtifact : ∀ a ∈ db.artifacts, a.revision = 1 → a.lineageId = some a.artifactId
  recorded : ∀ r ∈ db.deliverables, r.conversationId ≠ none →
    ∃ a ∈ db.artifacts, a.artifactId = r.deliverableId
  record : ∀ r ∈ db.deliverables, ∀ a ∈ db.artifacts, a.artifactId = r.deliverableId →
    RecordOf db.artifacts r a

/-- Rows stay, but for their project and the status of drafts. -/
structure Stays (db db' : Database) : Prop where
  deliverables : ∀ r ∈ db.deliverables, ∃ r' ∈ db'.deliverables, r'.fixed = r.fixed
  artifacts : ∀ a ∈ db.artifacts, ∃ a' ∈ db'.artifacts, a'.fixed = a.fixed

/-- What a lock protects: the first revisions of a chat, the drafts of a step run, or, on its
root, a lineage. -/
def Protects : Key → Database → Database → Prop
  | .conversation c, db, db' => c ≠ "" →
    (∀ r' ∈ deliverableRoots db' c, ∃ r ∈ deliverableRoots db c, r.deliverableId = r'.deliverableId)
      ∧
      ∀ a' ∈ artifactRoots db' c, ∃ a ∈ artifactRoots db c, a.artifactId = a'.artifactId
  | .stepRun s, db, db' =>
    ∀ r' ∈ db'.deliverables, r'.stepRunId = some s → r'.status.isDraft = true →
      ∃ r ∈ db.deliverables, r.deliverableId = r'.deliverableId ∧ r.stepRunId = some s ∧
        r.status.isDraft = true
  | .deliverable l, db, db' => KeepsLineage l db.deliverableEntries db'.deliverableEntries
  | .artifact l, db, db' => KeepsLineage l db.artifactEntries db'.artifactEntries

theorem Stays.refl (db : Database) : Stays db db :=
  ⟨fun r hr => ⟨r, hr, rfl⟩, fun a ha => ⟨a, ha, rfl⟩⟩

theorem Stays.trans {a b c : Database} (h : Stays a b) (h' : Stays b c) : Stays a c where
  deliverables r hr := by
    obtain ⟨r', hr', hfixed⟩ := h.deliverables r hr
    obtain ⟨r'', hr'', hfixed'⟩ := h'.deliverables r' hr'
    exact ⟨r'', hr'', hfixed'.trans hfixed⟩
  artifacts r hr := by
    obtain ⟨r', hr', hfixed⟩ := h.artifacts r hr
    obtain ⟨r'', hr'', hfixed'⟩ := h'.artifacts r' hr'
    exact ⟨r'', hr'', hfixed'.trans hfixed⟩

theorem protects_refl (key : Key) (db : Database) : Protects key db db := by
  cases key with
  | conversation c =>
    intro _
    exact ⟨fun r hr => ⟨r, hr, rfl⟩, fun a ha => ⟨a, ha, rfl⟩⟩
  | stepRun s =>
    intro r hr hstep hdraft
    exact ⟨r, hr, rfl, hstep, hdraft⟩
  | deliverable l | artifact l => exact KeepsLineage.refl

theorem protects_trans (key : Key) (a b c : Database) (h : Protects key a b)
    (h' : Protects key b c) : Protects key a c := by
  cases key with
  | conversation c =>
    intro hne
    constructor
    · intro r hr
      obtain ⟨r', hr', hid'⟩ := (h' hne).1 r hr
      obtain ⟨r'', hr'', hid''⟩ := (h hne).1 r' hr'
      exact ⟨r'', hr'', hid''.trans hid'⟩
    · intro r hr
      obtain ⟨r', hr', hid'⟩ := (h' hne).2 r hr
      obtain ⟨r'', hr'', hid''⟩ := (h hne).2 r' hr'
      exact ⟨r'', hr'', hid''.trans hid'⟩
  | stepRun s =>
    intro r hr hstep hdraft
    obtain ⟨r', hr', hid', hstep', hdraft'⟩ := h' r hr hstep hdraft
    obtain ⟨r'', hr'', hid'', hstep'', hdraft''⟩ := h r' hr' hstep' hdraft'
    exact ⟨r'', hr'', hid''.trans hid', hstep'', hdraft''⟩
  | deliverable l | artifact l => exact KeepsLineage.trans h h'

def discipline : Discipline Database Key where
  inv := WellPlaced
  always := Stays
  keeps := Protects
  always_refl := Stays.refl
  always_trans _ _ _ := Stays.trans
  keeps_refl := protects_refl
  keeps_trans := protects_trans

section

variable {db db' : Database} {r r' : DeliverableRow} {a a' : ArtifactRecordRow}

theorem WellPlaced.deliverable_eq (h : WellPlaced db) (hr : r ∈ db.deliverables)
    (hr' : r' ∈ db.deliverables) (hid : r.deliverableId = r'.deliverableId) : r = r' :=
  h.deliverables.row_eq hr hr' hid

theorem WellPlaced.artifact_eq (h : WellPlaced db) (ha : a ∈ db.artifacts) (ha' : a' ∈ db.artifacts)
    (hid : a.artifactId = a'.artifactId) : a = a' :=
  h.artifacts.row_eq ha ha' hid

structure SameDeliverable (r r' : DeliverableRow) : Prop where
  id : r'.deliverableId = r.deliverableId
  conversation : r'.conversationId = r.conversationId
  stepRun : r'.stepRunId = r.stepRunId
  lineage : r'.lineageId = r.lineageId
  revision : r'.revision = r.revision

theorem sameDeliverable_of_fixed (h : r'.fixed = r.fixed) : SameDeliverable r r' where
  id := congrArg (fun r => r.deliverableId) h
  conversation := congrArg (fun r => r.conversationId) h
  stepRun := congrArg (fun r => r.stepRunId) h
  lineage := congrArg (fun r => r.lineageId) h
  revision := congrArg (fun r => r.revision) h

structure SameArtifact (a a' : ArtifactRecordRow) : Prop where
  id : a'.artifactId = a.artifactId
  conversation : a'.conversationId = a.conversationId
  purpose : a'.purpose = a.purpose
  lineage : a'.lineageId = a.lineageId
  revision : a'.revision = a.revision

theorem sameArtifact_of_fixed (h : a'.fixed = a.fixed) : SameArtifact a a' where
  id := congrArg (fun a => a.artifactId) h
  conversation := congrArg (fun a => a.conversationId) h
  purpose := congrArg (fun a => a.purpose) h
  lineage := congrArg (fun a => a.lineageId) h
  revision := congrArg (fun a => a.revision) h

theorem Stays.deliverable (h : Stays db db') (hdb' : WellPlaced db') (hr : r ∈ db.deliverables)
    (hr' : r' ∈ db'.deliverables) (hid : r'.deliverableId = r.deliverableId) :
    SameDeliverable r r' := by
  obtain ⟨x, hx, hfixed⟩ := h.deliverables r hr
  have hsame := sameDeliverable_of_fixed hfixed
  have heq : x = r' := hdb'.deliverable_eq hx hr' (hsame.id.trans hid.symm)
  rw [← heq]
  exact hsame

theorem Stays.artifact (h : Stays db db') (hdb' : WellPlaced db') (ha : a ∈ db.artifacts)
    (ha' : a' ∈ db'.artifacts) (hid : a'.artifactId = a.artifactId) : SameArtifact a a' := by
  obtain ⟨x, hx, hfixed⟩ := h.artifacts a ha
  have hsame := sameArtifact_of_fixed hfixed
  have heq : x = a' := hdb'.artifact_eq hx ha' (hsame.id.trans hid.symm)
  rw [← heq]
  exact hsame

variable {e : Entry String (Option String)}

theorem mem_deliverableEntries :
    e ∈ db.deliverableEntries ↔ ∃ r ∈ db.deliverables, r.entry = e := mem_map

theorem mem_artifactEntries :
    e ∈ db.artifactEntries ↔ ∃ a ∈ db.artifacts, a.entry = e := mem_map

theorem mem_deliverableRoots {c : String} :
    r ∈ deliverableRoots db c ↔ r ∈ db.deliverables ∧ r.conversationId = some c ∧
      r.stepRunId = none ∧ r.revision = 1 := by
  simp only [deliverableRoots, mem_filter, Bool.and_eq_true, beq_iff_eq,
    Option.isNone_iff_eq_none, and_assoc]

theorem mem_artifactRoots {c : String} :
    a ∈ artifactRoots db c ↔ a ∈ db.artifacts ∧ a.conversationId = some c ∧
      followingArtifactPurposes.contains a.purpose = true ∧ a.revision = 1 := by
  simp only [artifactRoots, mem_filter, Bool.and_eq_true, beq_iff_eq, and_assoc]

theorem art_ne_dlv (hex hex' : String) : "art_" ++ hex ≠ "dlv_" ++ hex' := by
  intro h
  have hlist := congrArg String.toList h
  rw [String.toList_append, String.toList_append] at hlist
  exact absurd (head_eq_of_cons_eq hlist) (by decide)

end

variable {db : Database} {t u : View Database Key Change} {c id : String}
  {scope : Option String} {ids : List String} {r : DeliverableRow}
  {a : ArtifactRecordRow}

def FollowingDeliverable (db : Database) (c : String) (scope : Option String)
    (r : DeliverableRow) : Prop :=
  ∃ root ∈ deliverableRoots db c, root.projectId = scope ∧ r.lineageId = some root.deliverableId

def FollowingArtifact (db : Database) (c : String) (scope : Option String)
    (a : ArtifactRecordRow) : Prop :=
  ∃ root ∈ artifactRoots db c, root.projectId = scope ∧ a.lineageId = some root.artifactId

def StartedDeliverable (db : Database) (c id : String) : Prop :=
  ∃ root ∈ deliverableRoots db c, root.deliverableId = id

def StartedArtifact (db : Database) (c id : String) : Prop :=
  ∃ root ∈ artifactRoots db c, root.artifactId = id

section

variable (h : WellPlaced db)
include h

theorem WellPlaced.ownRoot (hr : r ∈ deliverableRoots db c) :
    r.lineageId = some r.deliverableId := by
  obtain ⟨hmem, hchat, -, hone⟩ := mem_deliverableRoots.mp hr
  apply h.firstDeliverable r hmem _ hone
  rw [hchat]
  exact Option.some_ne_none c

theorem WellPlaced.ownArtifactRoot (ha : a ∈ artifactRoots db c) :
    a.lineageId = some a.artifactId := by
  obtain ⟨hmem, -, -, hone⟩ := mem_artifactRoots.mp ha
  exact h.firstArtifact a hmem hone

theorem WellPlaced.roots (c : String) :
    Roots DeliverableRow.entry db.deliverables (deliverableRoots db c) where
  placed := h.deliverables
  mem _ hroot := (mem_deliverableRoots.mp hroot).1
  own _ := h.ownRoot

theorem WellPlaced.recordRoots (c : String) :
    Roots ArtifactRecordRow.entry db.artifacts (artifactRoots db c) where
  placed := h.artifacts
  mem _ hroot := (mem_artifactRoots.mp hroot).1
  own _ := h.ownArtifactRoot

theorem WellPlaced.followingDeliverable_iff :
    FollowingDeliverable db c scope r ↔
      Follows db.deliverableEntries (StartedDeliverable db c) scope r.entry :=
  (h.roots c).following_iff

theorem WellPlaced.followingArtifact_iff : FollowingArtifact db c scope a ↔
      Follows db.artifactEntries (StartedArtifact db c) scope a.entry :=
  (h.recordRoots c).following_iff

theorem WellPlaced.following_not_record (ha : a ∈ db.artifacts)
    (hfollowing : FollowingArtifact db c scope a) (hr : r ∈ db.deliverables) :
    a.artifactId ≠ r.deliverableId := by
  intro hid
  obtain ⟨root, hroot, -, hlineage⟩ := hfollowing
  obtain ⟨hmem, -, hpurpose, -⟩ := mem_artifactRoots.mp hroot
  have hrecord := h.record r hr a ha hid
  have hsame : root.artifactId = a.artifactId :=
    Option.some.inj (hlineage.symm.trans hrecord.own)
  rw [h.artifact_eq hmem ha hsame, hrecord.purpose] at hpurpose
  exact absurd hpurpose (by decide)

end

/-- The first revisions of the chat are locked. -/
structure RootsHeld (c : String) (t : View Database Key Change) : Prop where
  inv : WellPlaced t.db
  named : c ≠ ""
  conversation : t.held (.conversation c)
  deliverables : ∀ id, StartedDeliverable t.db c id → t.held (.deliverable id)
  artifacts : ∀ id, StartedArtifact t.db c id → t.held (.artifact id)

theorem startedDeliverable_back (hne : c ≠ "") (hheld : t.held (.conversation c))
    (hu : Later discipline t u) (h : StartedDeliverable u.db c id) :
    StartedDeliverable t.db c id := by
  obtain ⟨root, hroot, hid⟩ := h
  obtain ⟨x, hx, hxid⟩ := (hu.interferes.keeps _ hheld hne).1 root hroot
  exact ⟨x, hx, hxid.trans hid⟩

theorem startedArtifact_back (hne : c ≠ "") (hheld : t.held (.conversation c))
    (hu : Later discipline t u) (h : StartedArtifact u.db c id) : StartedArtifact t.db c id := by
  obtain ⟨root, hroot, hid⟩ := h
  obtain ⟨x, hx, hxid⟩ := (hu.interferes.keeps _ hheld hne).2 root hroot
  exact ⟨x, hx, hxid.trans hid⟩

theorem startedDeliverable_forth (hu : Later discipline t u) (h : StartedDeliverable t.db c id) :
    StartedDeliverable u.db c id := by
  obtain ⟨root, hroot, hid⟩ := h
  obtain ⟨hmem, hchat, hstep, hone⟩ := mem_deliverableRoots.mp hroot
  obtain ⟨x, hx, hfixed⟩ := hu.interferes.always.deliverables root hmem
  have hsame := sameDeliverable_of_fixed hfixed
  refine ⟨x, mem_deliverableRoots.mpr ⟨hx, ?_, ?_, ?_⟩, hsame.id.trans hid⟩
  · exact hsame.conversation.trans hchat
  · exact hsame.stepRun.trans hstep
  · exact hsame.revision.trans hone

theorem startedArtifact_forth (hu : Later discipline t u) (h : StartedArtifact t.db c id) :
    StartedArtifact u.db c id := by
  obtain ⟨root, hroot, hid⟩ := h
  obtain ⟨hmem, hchat, hpurpose, hone⟩ := mem_artifactRoots.mp hroot
  obtain ⟨x, hx, hfixed⟩ := hu.interferes.always.artifacts root hmem
  have hsame := sameArtifact_of_fixed hfixed
  refine ⟨x, mem_artifactRoots.mpr ⟨hx, ?_, ?_, ?_⟩, hsame.id.trans hid⟩
  · exact hsame.conversation.trans hchat
  · rw [hsame.purpose]
    exact hpurpose
  · exact hsame.revision.trans hone

theorem RootsHeld.later (h : RootsHeld c t) (hu : Later discipline t u) : RootsHeld c u where
  inv := hu.inv
  named := h.named
  conversation := hu.held _ h.conversation
  deliverables id hid :=
    hu.held _ (h.deliverables id (startedDeliverable_back h.named h.conversation hu hid))
  artifacts id hid :=
    hu.held _ (h.artifacts id (startedArtifact_back h.named h.conversation hu hid))

def GatheredDeliverables (c : String) (scope : Option String) (ids : List String)
    (db : Database) : Prop :=
  ∀ id, id ∈ ids ↔ ∃ r ∈ db.deliverables, r.deliverableId = id ∧ FollowingDeliverable db c scope r

def GatheredArtifacts (c : String) (scope : Option String) (ids : List String)
    (db : Database) : Prop :=
  ∀ id, id ∈ ids ↔ ∃ a ∈ db.artifacts, a.artifactId = id ∧ FollowingArtifact db c scope a

theorem GatheredDeliverables.later (h : GatheredDeliverables c scope ids t.db)
    (hroots : RootsHeld c t) (hu : Later discipline t u) :
    GatheredDeliverables c scope ids u.db := by
  intro id
  refine (h id).trans ((hroots.inv.roots c).gathered_congr (WellPlaced.roots hu.inv c) ?_ ?_)
  · intro l hl
    exact hu.interferes.keeps _ (hroots.deliverables l hl)
  · intro l
    exact ⟨startedDeliverable_back hroots.named hroots.conversation hu,
      startedDeliverable_forth hu⟩

theorem GatheredArtifacts.later (h : GatheredArtifacts c scope ids t.db) (hroots : RootsHeld c t)
    (hu : Later discipline t u) : GatheredArtifacts c scope ids u.db := by
  intro id
  refine (h id).trans
    ((hroots.inv.recordRoots c).gathered_congr (WellPlaced.recordRoots hu.inv c) ?_ ?_)
  · intro l hl
    exact hu.interferes.keeps _ (hroots.artifacts l hl)
  · intro l
    exact ⟨startedArtifact_back hroots.named hroots.conversation hu, startedArtifact_forth hu⟩

/-- The rows that `move_conversation_project` selects by their lineage and scope. -/
theorem mem_following {ρ : Type} {entry : ρ → Entry String (Option String)} {rows roots : List ρ}
    (h : Roots entry rows roots) :
    id ∈
      (rows.filter fun r => inLineages ((roots.filter fun root => (entry root).scope == scope).map
        fun root => (entry root).id) (entry r).lineage && (entry r).scope == scope).map
          (fun r => (entry r).id) ↔
      ∃ r ∈ rows, (entry r).id = id ∧ Following entry roots scope r := by
  simp only [mem_map, mem_filter, Bool.and_eq_true, beq_iff_eq]
  constructor
  · rintro ⟨r, ⟨hr, hin, -⟩, hid⟩
    obtain ⟨l, hlineage, hin⟩ := inLineages_iff.mp hin
    obtain ⟨root, hroot, rfl⟩ := mem_map.mp hin
    obtain ⟨hroot, hproject⟩ := mem_filter.mp hroot
    exact ⟨r, hr, hid, root, hroot, beq_iff_eq.mp hproject, hlineage⟩
  · rintro ⟨r, hr, hid, hfollowing⟩
    have hscope : (entry r).scope = scope :=
      (h.following_iff.mp hfollowing).scope h.placed (mem_map_of_mem hr)
    obtain ⟨root, hroot, hproject, hlineage⟩ := hfollowing
    refine ⟨r, ⟨hr, inLineages_iff.mpr ⟨_, hlineage, ?_⟩, hscope⟩, hid⟩
    exact mem_map_of_mem (mem_filter.mpr ⟨hroot, beq_iff_eq.mpr hproject⟩)

theorem WellPlaced.mem_followingDeliverables (h : WellPlaced db) :
    GatheredDeliverables c scope (followingDeliverables db c scope) db :=
  fun _ => mem_following (h.roots c)

theorem WellPlaced.mem_followingArtifacts (h : WellPlaced db) :
    GatheredArtifacts c scope (followingArtifacts db c scope) db :=
  fun _ => mem_following (h.recordRoots c)

end Cognis.Documents
