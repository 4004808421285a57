import Cognis.Documents.ArtifactWrites

namespace Cognis.Documents

open List ScopedLineages Transactions
open Deliverables (CreateError)

variable {db : Database} {t u : DocumentView} {c : String} {old new : Option String}
  {ids ids' artifactIds : List String} {changes : List Change} {r : DeliverableRow}
  {a : ArtifactRecordRow}

@[simp] theorem DeliverableRow.entry_moved : (r.moved ids new).entry = r.entry.moved ids new := by
  change DeliverableRow.entry (if ids.contains r.deliverableId then _ else _) =
    if ids.contains r.deliverableId then _ else _
  split <;> rfl

@[simp] theorem ArtifactRecordRow.entry_moved :
    (a.moved ids new).entry = a.entry.moved ids new := by
  change ArtifactRecordRow.entry (if ids.contains a.artifactId then _ else _) =
    if ids.contains a.artifactId then _ else _
  split <;> rfl

@[simp] theorem DeliverableRow.fixed_moved : (r.moved ids new).fixed = r.fixed := by
  unfold DeliverableRow.moved
  split <;> rfl

@[simp] theorem ArtifactRecordRow.fixed_moved : (a.moved ids new).fixed = a.fixed := by
  unfold ArtifactRecordRow.moved
  split <;> rfl

@[simp] theorem DeliverableRow.status_moved : (r.moved ids new).status = r.status := by
  unfold DeliverableRow.moved
  split <;> rfl

theorem ArtifactRecordRow.moved_moved :
    (a.moved ids new).moved ids' new = a.moved (ids ++ ids') new := by
  unfold ArtifactRecordRow.moved
  by_cases h : a.artifactId ∈ ids <;> by_cases h' : a.artifactId ∈ ids' <;> simp [h, h']

theorem ArtifactRecordRow.moved_of_not_mem (h : a.artifactId ∉ ids) : a.moved ids new = a := by
  unfold ArtifactRecordRow.moved
  rw [if_neg fun hin => h (contains_iff_mem.mp hin)]

/-- The changes move the documents named and no others. -/
structure Effect (changes : List Change) (ids artifactIds : List String) (new : Option String) :
    Prop where
  deliverables : ∀ db, (applyAll Database.apply db changes).deliverables =
    db.deliverables.map (DeliverableRow.moved ids new)
  artifacts : ∀ db, (applyAll Database.apply db changes).artifacts =
    db.artifacts.map (ArtifactRecordRow.moved artifactIds new)

theorem applyAll_append {change : Change} : applyAll Database.apply db (changes ++ [change]) =
      (applyAll Database.apply db changes).apply change := foldl_append

theorem effect_setConversation {projectId : Option String} {visibility : Visibility} :
    Effect [.setConversation c projectId visibility] [] [] new where
  deliverables db := (map_id db.deliverables).symm
  artifacts db := (map_id db.artifacts).symm

theorem Effect.moveDeliverables (h : Effect changes [] artifactIds new) :
    Effect (changes ++ [.moveDeliverables ids new]) ids artifactIds new where
  deliverables db := by
    rw [applyAll_append]
    change (applyAll Database.apply db changes).deliverables.map _ = _
    rw [h.deliverables, map_map]
    rfl
  artifacts db := by
    rw [applyAll_append]
    exact h.artifacts db

theorem Effect.moveArtifacts (h : Effect changes ids artifactIds new) :
    Effect (changes ++ [.moveArtifacts ids' new]) ids (artifactIds ++ ids') new where
  deliverables db := by
    rw [applyAll_append]
    exact h.deliverables db
  artifacts db := by
    rw [applyAll_append]
    change (applyAll Database.apply db changes).artifacts.map _ = _
    rw [h.artifacts, map_map]
    apply map_congr_left
    intro a _
    exact ArtifactRecordRow.moved_moved

def RecordsHeld (ids : List String) (t : DocumentView) : Prop :=
  ∀ a ∈ t.db.artifacts, a.artifactId ∈ ids → t.held (.artifact a.artifactId)

theorem recordsHeld_of_locked (hinv : WellPlaced t.db)
    (hids : ∀ id ∈ ids, ∃ r ∈ t.db.deliverables, r.deliverableId = id)
    (hu : Later discipline t u)
    (hlocked : ∀ a ∈ t.db.artifacts, a.artifactId ∈ ids → u.held (.artifact a.artifactId)) :
    RecordsHeld ids u := by
  intro a ha hin
  obtain ⟨r, hr, hid⟩ := hids a.artifactId hin
  obtain ⟨r', hr', hfixed⟩ := hu.interferes.always.deliverables r hr
  have hsame := sameDeliverable_of_fixed hfixed
  have hrecord := hu.inv.record r' hr' a ha (hid.symm.trans hsame.id.symm)
  have hchat : r.conversationId ≠ none := by
    rw [← hsame.conversation]
    exact hrecord.conversation
  obtain ⟨b, hb, hbid⟩ := hinv.recorded r hr hchat
  have hname : b.artifactId = a.artifactId := hbid.trans hid
  rw [← hname]
  exact hlocked b hb (hname ▸ hin)

theorem RecordsHeld.later (h : RecordsHeld ids t) (hinv : WellPlaced t.db)
    (hids : ∀ id ∈ ids, ∃ r ∈ t.db.deliverables, r.deliverableId = id)
    (hu : Later discipline t u) : RecordsHeld ids u := by
  apply recordsHeld_of_locked hinv hids hu
  intro a ha hin
  exact hu.held _ (h a ha hin)

/-- What the mover has found and locked before it writes. -/
structure Gathered (c : String) (old : Option String) (ids artifactIds : List String)
    (t : DocumentView) : Prop where
  roots : RootsHeld c t
  deliverables : GatheredDeliverables c old ids t.db
  records : RecordsHeld ids t
  artifacts : GatheredArtifacts c old artifactIds t.db

theorem GatheredDeliverables.exists (h : GatheredDeliverables c old ids db) :
    ∀ id ∈ ids, ∃ r ∈ db.deliverables, r.deliverableId = id := by
  intro id hid
  obtain ⟨r, hr, hrid, -⟩ := (h id).mp hid
  exact ⟨r, hr, hrid⟩

theorem Gathered.later (h : Gathered c old ids artifactIds t) (hu : Later discipline t u) :
    Gathered c old ids artifactIds u where
  roots := h.roots.later hu
  deliverables := h.deliverables.later h.roots hu
  records := h.records.later h.roots.inv h.deliverables.exists hu
  artifacts := h.artifacts.later h.roots hu

theorem GatheredDeliverables.mem_iff (h : GatheredDeliverables c old ids db) (hdb : WellPlaced db)
    (hr : r ∈ db.deliverables) : r.deliverableId ∈ ids ↔ FollowingDeliverable db c old r := by
  rw [h r.deliverableId]
  constructor
  · rintro ⟨x, hx, hid, hfollowing⟩
    rw [← hdb.deliverable_eq hx hr hid]
    exact hfollowing
  · intro hfollowing
    exact ⟨r, hr, rfl, hfollowing⟩

theorem GatheredArtifacts.mem_iff (h : GatheredArtifacts c old artifactIds db)
    (hdb : WellPlaced db) (ha : a ∈ db.artifacts) :
    a.artifactId ∈ artifactIds ↔ FollowingArtifact db c old a := by
  rw [h a.artifactId]
  constructor
  · rintro ⟨x, hx, hid, hfollowing⟩
    rw [← hdb.artifact_eq hx ha hid]
    exact hfollowing
  · intro hfollowing
    exact ⟨a, ha, rfl, hfollowing⟩

theorem GatheredDeliverables.record (h : GatheredDeliverables c old ids db) (hdb : WellPlaced db)
    (ha : a ∈ db.artifacts) (hin : a.artifactId ∈ ids) :
    ∃ r ∈ db.deliverables, FollowingDeliverable db c old r ∧ RecordOf db.artifacts r a := by
  obtain ⟨r, hr, hid, hfollowing⟩ := (h a.artifactId).mp hin
  exact ⟨r, hr, hfollowing, hdb.record r hr a ha hid.symm⟩

section

variable (heffect : Effect changes ids (ids ++ artifactIds) new)
  (hgathered : GatheredDeliverables c old ids db)
  (hartifacts : GatheredArtifacts c old artifactIds db) (hdb : WellPlaced db)

include hgathered hdb in
theorem following_whole (hr : r ∈ db.deliverables) {r' : DeliverableRow}
    (hr' : r' ∈ db.deliverables) (hlineage : r.lineageId = r'.lineageId)
    (hin : r.deliverableId ∈ ids) : r'.deliverableId ∈ ids := by
  obtain ⟨root, hroot, hscope, hkey⟩ := (hgathered.mem_iff hdb hr).mp hin
  exact (hgathered.mem_iff hdb hr').mpr ⟨root, hroot, hscope, hlineage.symm.trans hkey⟩

include hgathered hartifacts hdb in
theorem following_artifacts_whole (ha : a ∈ db.artifacts) {b : ArtifactRecordRow}
    (hb : b ∈ db.artifacts) (hlineage : a.lineageId = b.lineageId)
    (hin : a.artifactId ∈ ids ++ artifactIds) : b.artifactId ∈ ids ++ artifactIds := by
  rcases mem_append.mp hin with hrecord | hdocument
  · obtain ⟨r, _, -, hof⟩ := hgathered.record hdb ha hrecord
    have hsame : b.artifactId = a.artifactId := hof.alone b hb (hlineage.symm.trans hof.own)
    rw [hsame]
    exact hin
  · obtain ⟨root, hroot, hscope, hkey⟩ := (hartifacts.mem_iff hdb ha).mp hdocument
    apply mem_append_right
    exact (hartifacts.mem_iff hdb hb).mpr ⟨root, hroot, hscope, hlineage.symm.trans hkey⟩

include heffect in
theorem Effect.deliverableEntries : (applyAll Database.apply db changes).deliverableEntries =
      db.deliverableEntries.map (Entry.moved ids new) := by
  unfold Database.deliverableEntries
  rw [heffect.deliverables, map_map, map_map]
  apply map_congr_left
  intro r _
  exact DeliverableRow.entry_moved

include heffect in
theorem Effect.artifactEntries : (applyAll Database.apply db changes).artifactEntries =
      db.artifactEntries.map (Entry.moved (ids ++ artifactIds) new) := by
  unfold Database.artifactEntries
  rw [heffect.artifacts, map_map, map_map]
  apply map_congr_left
  intro a _
  exact ArtifactRecordRow.entry_moved

include heffect in
theorem Effect.stays : Stays db (applyAll Database.apply db changes) where
  deliverables r hr := by
    rw [heffect.deliverables]
    exact ⟨r.moved ids new, mem_map_of_mem hr, DeliverableRow.fixed_moved⟩
  artifacts a ha := by
    rw [heffect.artifacts]
    exact ⟨a.moved (ids ++ artifactIds) new, mem_map_of_mem ha, ArtifactRecordRow.fixed_moved⟩

include heffect in
theorem Effect.mem_deliverables (hr : r ∈ (applyAll Database.apply db changes).deliverables) :
    ∃ x ∈ db.deliverables, r = x.moved ids new ∧ SameDeliverable x r := by
  rw [heffect.deliverables] at hr
  obtain ⟨x, hx, rfl⟩ := mem_map.mp hr
  exact ⟨x, hx, rfl, sameDeliverable_of_fixed DeliverableRow.fixed_moved⟩

include heffect in
theorem Effect.mem_artifacts (ha : a ∈ (applyAll Database.apply db changes).artifacts) :
    ∃ x ∈ db.artifacts, a = x.moved (ids ++ artifactIds) new ∧ SameArtifact x a := by
  rw [heffect.artifacts] at ha
  obtain ⟨x, hx, rfl⟩ := mem_map.mp ha
  exact ⟨x, hx, rfl, sameArtifact_of_fixed ArtifactRecordRow.fixed_moved⟩

include hartifacts hdb in
theorem record_moves_iff (hr : r ∈ db.deliverables) (ha : a ∈ db.artifacts)
    (hid : a.artifactId = r.deliverableId) :
    a.artifactId ∈ ids ++ artifactIds ↔ r.deliverableId ∈ ids := by
  constructor
  · intro hin
    rcases mem_append.mp hin with hrecord | hdocument
    · rw [← hid]
      exact hrecord
    · have hfollowing := (hartifacts.mem_iff hdb ha).mp hdocument
      exact absurd hid (hdb.following_not_record ha hfollowing hr)
  · intro hin
    apply mem_append_left
    rw [hid]
    exact hin

include hartifacts hdb in
theorem RecordOf.moved (h : RecordOf db.artifacts r a) (hr : r ∈ db.deliverables)
    (ha : a ∈ db.artifacts) (hid : a.artifactId = r.deliverableId) :
    RecordOf (db.artifacts.map (ArtifactRecordRow.moved (ids ++ artifactIds) new))
      (r.moved ids new) (a.moved (ids ++ artifactIds) new) := by
  have hsame : SameArtifact a (a.moved (ids ++ artifactIds) new) :=
    sameArtifact_of_fixed ArtifactRecordRow.fixed_moved
  have hdeliverable : SameDeliverable r (r.moved ids new) :=
    sameDeliverable_of_fixed DeliverableRow.fixed_moved
  refine ⟨?_, ?_, hsame.purpose.trans h.purpose, ?_, ?_⟩
  · rw [hdeliverable.conversation]
    exact h.conversation
  · have hmoves : a.artifactId ∈ ids ++ artifactIds ↔ r.deliverableId ∈ ids :=
      record_moves_iff hartifacts hdb hr ha hid
    unfold ArtifactRecordRow.moved DeliverableRow.moved
    by_cases hin : r.deliverableId ∈ ids
    · rw [if_pos (contains_iff_mem.mpr hin), if_pos (contains_iff_mem.mpr (hmoves.mpr hin))]
    · rw [if_neg fun hc => hin (contains_iff_mem.mp hc),
        if_neg fun hc => hin (hmoves.mp (contains_iff_mem.mp hc))]
      exact h.project
  · rw [hsame.lineage, hsame.id]
    exact h.own
  · intro b hb hlineage
    obtain ⟨x, hx, rfl⟩ := mem_map.mp hb
    have hother : SameArtifact x (x.moved (ids ++ artifactIds) new) :=
      sameArtifact_of_fixed ArtifactRecordRow.fixed_moved
    rw [hother.lineage, hsame.id] at hlineage
    rw [hother.id, hsame.id]
    exact h.alone x hx hlineage

include heffect hgathered hartifacts hdb in
theorem Effect.wellPlaced : WellPlaced (applyAll Database.apply db changes) where
  deliverables := by
    rw [heffect.deliverableEntries]
    apply hdb.deliverables.moved
    intro e he e' he' hlineage hin
    obtain ⟨r, hr, rfl⟩ := mem_deliverableEntries.mp he
    obtain ⟨r', hr', rfl⟩ := mem_deliverableEntries.mp he'
    exact following_whole hgathered hdb hr hr' hlineage hin
  artifacts := by
    rw [heffect.artifactEntries]
    apply hdb.artifacts.moved
    intro e he e' he' hlineage hin
    obtain ⟨a, ha, rfl⟩ := mem_artifactEntries.mp he
    obtain ⟨b, hb, rfl⟩ := mem_artifactEntries.mp he'
    exact following_artifacts_whole hgathered hartifacts hdb ha hb hlineage hin
  deliverableNames r hr := by
    obtain ⟨x, hx, -, hsame⟩ := heffect.mem_deliverables hr
    rw [hsame.id]
    exact hdb.deliverableNames x hx
  artifactNames a ha := by
    obtain ⟨x, hx, -, hsame⟩ := heffect.mem_artifacts ha
    rcases hdb.artifactNames x hx with ⟨hex, hname⟩ | ⟨r, hr, hid⟩
    · exact .inl ⟨hex, hsame.id.trans hname⟩
    · obtain ⟨r', hr', hfixed⟩ := heffect.stays.deliverables r hr
      exact .inr ⟨r', hr', (sameDeliverable_of_fixed hfixed).id.trans (hid.trans hsame.id.symm)⟩
  firstDeliverable r hr hchat hone := by
    obtain ⟨x, hx, -, hsame⟩ := heffect.mem_deliverables hr
    rw [hsame.conversation] at hchat
    rw [hsame.revision] at hone
    rw [hsame.lineage, hsame.id]
    exact hdb.firstDeliverable x hx hchat hone
  firstArtifact a ha hone := by
    obtain ⟨x, hx, -, hsame⟩ := heffect.mem_artifacts ha
    rw [hsame.revision] at hone
    rw [hsame.lineage, hsame.id]
    exact hdb.firstArtifact x hx hone
  recorded r hr hchat := by
    obtain ⟨x, hx, -, hsame⟩ := heffect.mem_deliverables hr
    rw [hsame.conversation] at hchat
    obtain ⟨a, ha, hid⟩ := hdb.recorded x hx hchat
    obtain ⟨a', ha', hfixed⟩ := heffect.stays.artifacts a ha
    exact ⟨a', ha', (sameArtifact_of_fixed hfixed).id.trans (hid.trans hsame.id.symm)⟩
  record r hr a ha hid := by
    obtain ⟨x, hx, rfl, hsame⟩ := heffect.mem_deliverables hr
    obtain ⟨y, hy, rfl, hsame'⟩ := heffect.mem_artifacts ha
    rw [hsame.id, hsame'.id] at hid
    rw [heffect.artifacts]
    exact (hdb.record x hx y hy hid).moved hartifacts hdb hx hy hid

end

theorem Gathered.protects (h : Gathered c old ids artifactIds t)
    (heffect : Effect changes ids (ids ++ artifactIds) new) {key : Key} (hkey : ¬ t.held key) :
    Protects key t.db (applyAll Database.apply t.db changes) := by
  cases key with
  | conversation c' =>
    intro _
    constructor
    · intro r hr
      obtain ⟨hmem, hchat, hstep, hone⟩ := mem_deliverableRoots.mp hr
      obtain ⟨x, hx, -, hsame⟩ := heffect.mem_deliverables hmem
      refine ⟨x, mem_deliverableRoots.mpr ⟨hx, ?_, ?_, ?_⟩, hsame.id.symm⟩
      · exact hsame.conversation.symm.trans hchat
      · exact hsame.stepRun.symm.trans hstep
      · exact hsame.revision.symm.trans hone
    · intro a ha
      obtain ⟨hmem, hchat, hpurpose, hone⟩ := mem_artifactRoots.mp ha
      obtain ⟨x, hx, -, hsame⟩ := heffect.mem_artifacts hmem
      refine ⟨x, mem_artifactRoots.mpr ⟨hx, ?_, ?_, ?_⟩, hsame.id.symm⟩
      · exact hsame.conversation.symm.trans hchat
      · rw [← hsame.purpose]
        exact hpurpose
      · exact hsame.revision.symm.trans hone
  | stepRun s =>
    intro r hr hstep hdraft
    obtain ⟨x, hx, rfl, hsame⟩ := heffect.mem_deliverables hr
    rw [DeliverableRow.status_moved] at hdraft
    exact ⟨x, hx, hsame.id.symm, hsame.stepRun.symm.trans hstep, hdraft⟩
  | deliverable l =>
    change KeepsLineage l t.db.deliverableEntries
      (applyAll Database.apply t.db changes).deliverableEntries
    rw [heffect.deliverableEntries]
    apply KeepsLineage.moved
    intro e he hlineage hin
    obtain ⟨r, hr, rfl⟩ := mem_deliverableEntries.mp he
    obtain ⟨root, hroot, -, hlocked⟩ := (h.deliverables.mem_iff h.roots.inv hr).mp hin
    have hname : root.deliverableId = l := Option.some.inj (hlocked.symm.trans hlineage)
    exact hkey (hname ▸ h.roots.deliverables root.deliverableId ⟨root, hroot, rfl⟩)
  | artifact l =>
    change KeepsLineage l t.db.artifactEntries
      (applyAll Database.apply t.db changes).artifactEntries
    rw [heffect.artifactEntries]
    apply KeepsLineage.moved
    intro e he hlineage hin
    obtain ⟨a, ha, rfl⟩ := mem_artifactEntries.mp he
    rcases mem_append.mp hin with hrecord | hdocument
    · obtain ⟨r, _, -, hof⟩ := h.deliverables.record h.roots.inv ha hrecord
      have hname : a.artifactId = l := Option.some.inj (hof.own.symm.trans hlineage)
      exact hkey (hname ▸ h.records a ha hrecord)
    · obtain ⟨root, hroot, -, hlocked⟩ := (h.artifacts.mem_iff h.roots.inv ha).mp hdocument
      have hname : root.artifactId = l := Option.some.inj (hlocked.symm.trans hlineage)
      exact hkey (hname ▸ h.roots.artifacts root.artifactId ⟨root, hroot, rfl⟩)

/-- The documents whose lineages started in the chat with the old scope move, and no other. -/
structure Moved (c : String) (old new : Option String) (db db' : Database) : Prop where
  deliverables : ∃ ids, db'.deliverables = db.deliverables.map (DeliverableRow.moved ids new) ∧
    ∀ r ∈ db.deliverables, r.deliverableId ∈ ids ↔ FollowingDeliverable db c old r
  artifacts : ∃ ids, db'.artifacts = db.artifacts.map (ArtifactRecordRow.moved ids new) ∧
    ∀ a ∈ db.artifacts, a.artifactId ∈ ids ↔ FollowingArtifact db c old a ∨
      ∃ r ∈ db.deliverables, r.deliverableId = a.artifactId ∧ FollowingDeliverable db c old r

def Settles : Outcome → Database → List Change → Prop
  | .wrote, _, _ => True
  | .moved c old new, db, changes =>
    let db' := applyAll Database.apply db changes
    (old = new → db'.deliverables = db.deliverables ∧ db'.artifacts = db.artifacts) ∧
      (old ≠ new → Moved c old new db db')

theorem Gathered.moved (h : Gathered c old ids artifactIds t)
    (heffect : Effect changes ids (ids ++ artifactIds) new) :
    Moved c old new t.db (applyAll Database.apply t.db changes) where
  deliverables :=
    ⟨ids, heffect.deliverables t.db, fun _ hr => h.deliverables.mem_iff h.roots.inv hr⟩
  artifacts := by
    refine ⟨ids ++ artifactIds, heffect.artifacts t.db, ?_⟩
    intro a ha
    rw [mem_append, h.artifacts.mem_iff h.roots.inv ha, h.deliverables a.artifactId]
    exact Or.comm

theorem Gathered.ready (h : Gathered c old ids artifactIds t) (hne : old ≠ new)
    (heffect : Effect t.changes ids (ids ++ artifactIds) new) :
    Ready Database.apply Database.admitsAll discipline Settles (.moved c old new) t := by
  intro db hdb _
  have hlater : Later discipline t ⟨db, t.held, t.changes⟩ := ⟨hdb, fun _ hkey => hkey⟩
  have hnow := h.later hlater
  refine ⟨?_, heffect.stays, ?_, ?_, ?_⟩
  · exact heffect.wellPlaced hnow.deliverables hnow.artifacts hnow.roots.inv
  · intro key hkey
    exact hnow.protects heffect hkey
  · intro heq
    exact absurd heq hne
  · intro _
    exact hnow.moved heffect

end Cognis.Documents
