import Cognis.Documents.Inserts

namespace Cognis.Documents

open List Option ScopedLineages Transactions
open Deliverables (CreateError orElse)

variable {db : Database} {row a b : ArtifactRecordRow} {t u v : DocumentView}
  {Q : Outcome → Database → List Change → Prop}

theorem artifactEntries_inserted :
    (db.apply (.insertArtifact row)).artifactEntries = db.artifactEntries ++ [row.entry] := by
  change (db.artifacts ++ [row]).map (·.entry) = _
  rw [map_append]
  rfl

theorem mem_artifacts_inserted (h : a ∈ (db.apply (.insertArtifact row)).artifacts) :
    a ∈ db.artifacts ∨ a = row := by
  rcases mem_append.mp h with hold | hlast
  · exact .inl hold
  · exact .inr (mem_singleton.mp hlast)

/-- A row that may be inserted: a root, or a revision in its lineage's project. -/
structure AddableArtifact (db : Database) (row : ArtifactRecordRow) : Prop where
  named : ∃ hex, row.artifactId = "art_" ++ hex
  fresh : ∀ a ∈ db.artifacts, a.artifactId ≠ row.artifactId
  placed : row.lineageId = some row.artifactId ∨ ∃ a ∈ db.artifacts,
    row.lineageId = a.lineageId ∧ row.projectId = a.projectId ∧
      a.purpose ≠ "conversation_deliverable"
  first : row.revision = 1 → row.lineageId = some row.artifactId

theorem WellPlaced.not_of_record (h : WellPlaced db) (hnew : AddableArtifact db row)
    {r : DeliverableRow} (hr : RecordOf db.artifacts r a) (ha : a ∈ db.artifacts) :
    row.lineageId ≠ some a.artifactId := by
  intro hlineage
  rcases hnew.placed with hown | ⟨target, htarget, hsame, -, hpurpose⟩
  · exact hnew.fresh a ha (some.inj (hlineage.symm.trans hown))
  · have hid := hr.alone target htarget (hsame.symm.trans hlineage)
    have heq := h.artifact_eq htarget ha hid
    rw [heq] at hpurpose
    exact hpurpose hr.purpose

/-- An addable artifact leaves all documents well placed. -/
theorem WellPlaced.inserted (h : WellPlaced db) (hnew : AddableArtifact db row) :
    WellPlaced (db.apply (.insertArtifact row)) where
  deliverables := h.deliverables
  artifacts := by
    rw [artifactEntries_inserted]
    have hfresh : ∀ e ∈ db.artifactEntries, e.id ≠ row.entry.id := by
      intro e he
      obtain ⟨x, hx, rfl⟩ := mem_artifactEntries.mp he
      exact hnew.fresh x hx
    rcases hnew.placed with hown | ⟨target, htarget, hlineage, hproject, -⟩
    · exact h.artifacts.insertRoot hfresh hown
    · exact h.artifacts.insertRevision hfresh (mem_map_of_mem htarget) hlineage hproject
  deliverableNames := h.deliverableNames
  artifactNames a ha := by
    rcases mem_artifacts_inserted ha with hold | rfl
    · exact h.artifactNames a hold
    · exact .inl hnew.named
  firstDeliverable := h.firstDeliverable
  firstArtifact a ha hone := by
    rcases mem_artifacts_inserted ha with hold | rfl
    · exact h.firstArtifact a hold hone
    · exact hnew.first hone
  recorded r hr hchat := by
    obtain ⟨a, ha, hid⟩ := h.recorded r hr hchat
    exact ⟨a, mem_append_left _ ha, hid⟩
  record r hr a ha hid := by
    rcases mem_artifacts_inserted ha with hold | rfl
    · have hrecord := h.record r hr a hold hid
      apply hrecord.added
      intro b hb
      rw [mem_singleton.mp hb]
      exact h.not_of_record hnew hrecord hold
    · obtain ⟨hex, hname⟩ := hnew.named
      obtain ⟨hex', hname'⟩ := h.deliverableNames r hr
      exact absurd (hname.symm.trans (hid.trans hname')) (art_ne_dlv hex hex')

theorem stays_inserted : Stays db (db.apply (.insertArtifact row)) where
  deliverables r hr := ⟨r, hr, rfl⟩
  artifacts a ha := ⟨a, mem_append_left _ ha, rfl⟩

/-- An insertion touches only what it has locked. -/
theorem protects_inserted (hnew : AddableArtifact db row) {key : Key}
    (hchat : ∀ c, row.conversationId = some c → c ≠ "" → row.revision = 1 →
      key ≠ .conversation c)
    (hlineage : ∀ l, row.lineageId = some l → l = row.artifactId ∨ key ≠ .artifact l) :
    Protects key db (db.apply (.insertArtifact row)) := by
  cases key with
  | conversation c =>
    intro hne
    constructor
    · intro r hr
      exact ⟨r, hr, rfl⟩
    · intro a ha
      obtain ⟨hmem, hconversation, hpurpose, hone⟩ := mem_artifactRoots.mp ha
      rcases mem_artifacts_inserted hmem with hold | rfl
      · exact ⟨a, mem_artifactRoots.mpr ⟨hold, hconversation, hpurpose, hone⟩, rfl⟩
      · exact absurd rfl (hchat c hconversation hne hone)
  | stepRun s =>
    intro r hr hstep hdraft
    exact ⟨r, hr, rfl, hstep, hdraft⟩
  | deliverable l => exact KeepsLineage.refl
  | artifact l =>
    change KeepsLineage l db.artifactEntries (db.apply (.insertArtifact row)).artifactEntries
    rw [artifactEntries_inserted]
    apply KeepsLineage.append
    rintro ⟨e, he, hid⟩ hl
    rcases hlineage l hl with hown | hother
    · obtain ⟨x, hx, rfl⟩ := mem_artifactEntries.mp he
      exact hnew.fresh x hx (hid.trans hown)
    · exact hother rfl

theorem WellPlaced.artifactId_ne (h : WellPlaced db) (ha : a ∈ db.artifacts) :
    a.artifactId ≠ "" := by
  rcases h.artifactNames a ha with ⟨hex, hname⟩ | ⟨r, hr, hname⟩
  · rw [hname]
    simp
  · obtain ⟨hex, hname'⟩ := h.deliverableNames r hr
    rw [← hname, hname']
    simp

theorem WellPlaced.artifactKey (h : WellPlaced db) (ha : a ∈ db.artifacts) :
    a.lineageId = some a.lineageKey ∧ ∃ root ∈ db.artifacts, root.artifactId = a.lineageKey := by
  obtain ⟨e, he, hkey, -⟩ := h.artifacts.rooted a.entry (mem_map_of_mem ha)
  obtain ⟨root, hroot, rfl⟩ := mem_artifactEntries.mp he
  have hlineage : a.lineageId = some root.artifactId := hkey
  have hname : a.lineageKey = root.artifactId := by
    unfold ArtifactRecordRow.lineageKey orElse
    rw [hlineage]
    dsimp only
    rw [if_neg (h.artifactId_ne hroot)]
  rw [hname]
  exact ⟨hlineage, root, hroot, rfl⟩

/-- The target is read under the lock of its lineage. -/
structure TargetLocked (target : ArtifactRecordRow) (t : DocumentView) : Prop where
  held : ∃ l, target.lineageId = some l ∧ t.held (.artifact l) ∧
    ∃ x ∈ t.db.artifacts, x.artifactId = l
  purpose : target.purpose ≠ "conversation_deliverable"
  mem : target ∈ t.db.artifacts

/-- What is known of the row when it is inserted. -/
structure PlannedArtifact (row : ArtifactRecordRow) (t : DocumentView) : Prop where
  named : ∃ hex, row.artifactId = "art_" ++ hex
  placed : row.lineageId = some row.artifactId ∨ ∃ target, TargetLocked target t ∧
    row.lineageId = target.lineageId ∧ row.projectId = target.projectId
  first : row.revision = 1 → row.lineageId = some row.artifactId
  chat : ∀ c, row.conversationId = some c → c ≠ "" → row.revision = 1 → t.held (.conversation c)

variable {target : ArtifactRecordRow}

theorem TargetLocked.later (h : TargetLocked target t) (hu : Later discipline t u) :
    ∃ target', TargetLocked target' u ∧ target'.lineageId = target.lineageId ∧
      target'.projectId = target.projectId := by
  obtain ⟨l, hl, hheld, root, hroot, hid⟩ := h.held
  have hkeeps : KeepsLineage l t.db.artifactEntries u.db.artifactEntries :=
    hu.interferes.keeps _ hheld
  obtain ⟨hexists, hsame⟩ := hkeeps ⟨root.entry, mem_map_of_mem hroot, hid⟩
  obtain ⟨target', htarget', hentry⟩ :=
    mem_artifactEntries.mp ((hsame target.entry hl).mpr (mem_map_of_mem h.mem))
  have hlineage : target'.lineageId = target.lineageId := congrArg Entry.lineage hentry
  have hartifact : SameArtifact target target' :=
    hu.interferes.always.artifact hu.inv h.mem htarget' (congrArg Entry.id hentry)
  obtain ⟨e, he, heid⟩ := hexists
  obtain ⟨x, hx, rfl⟩ := mem_artifactEntries.mp he
  refine ⟨target', ⟨⟨l, hlineage.trans hl, hu.held _ hheld, x, hx, heid⟩, ?_, htarget'⟩, hlineage,
    congrArg Entry.scope hentry⟩
  rw [hartifact.purpose]
  exact h.purpose

theorem PlannedArtifact.later (h : PlannedArtifact row t) (hu : Later discipline t u) :
    PlannedArtifact row u where
  named := h.named
  placed := by
    rcases h.placed with hown | ⟨target, htarget, hlineage, hproject⟩
    · exact .inl hown
    · obtain ⟨target', htarget', hlineage', hproject'⟩ := htarget.later hu
      exact .inr ⟨target', htarget', hlineage.trans hlineage'.symm, hproject.trans hproject'.symm⟩
  first := h.first
  chat c hc hne hone := hu.held _ (h.chat c hc hne hone)

theorem PlannedArtifact.addable (h : PlannedArtifact row t)
    (hadmitted : t.db.admitsAll [.insertArtifact row] = true) : AddableArtifact t.db row where
  named := h.named
  fresh := artifact_admitted (Bool.and_eq_true _ _ ▸ hadmitted).1
  placed := by
    rcases h.placed with hown | ⟨target, htarget, hlineage, hproject⟩
    · exact .inl hown
    · exact .inr ⟨target, htarget.mem, hlineage, hproject, htarget.purpose⟩
  first := h.first

theorem PlannedArtifact.ready (h : PlannedArtifact row t)
    (hchanges : t.changes = [.insertArtifact row]) (hQ : ∀ db changes, Q .wrote db changes) :
    Ready Database.apply Database.admitsAll discipline Q .wrote t := by
  intro db hdb hadmitted
  have hlater : Later discipline t ⟨db, t.held, t.changes⟩ := ⟨hdb, fun _ hkey => hkey⟩
  rw [hchanges] at hadmitted
  have hnew : AddableArtifact db row := (h.later hlater).addable hadmitted
  have hdbinv : WellPlaced db := hdb.inv
  rw [hchanges]
  refine ⟨hdbinv.inserted hnew, stays_inserted, ?_, hQ _ _⟩
  intro key hkey
  apply protects_inserted hnew
  · intro c hc hne hone heq
    rw [heq] at hkey
    exact hkey (h.chat c hc hne hone)
  · intro l hl
    rcases h.placed with hown | ⟨target, htarget, hlineage, -⟩
    · exact .inl (some.inj (hl.symm.trans hown))
    · right
      intro heq
      obtain ⟨l', hl', hheld, -⟩ := htarget.held
      have hsame : l = l' := some.inj (hl.symm.trans (hlineage.trans hl'))
      rw [heq, hsame] at hkey
      exact hkey hheld

theorem keeping_authorizeArtifactRevisionTarget {mayRevise : Database → ArtifactRecordRow → Bool}
    {id : String} {R : ArtifactRecordRow → DocumentView → Prop} (hchanges : v.changes = [])
    (h : ∀ t target, Later discipline v t → t.changes = [] → target ∈ t.db.artifacts →
      target.artifactId = id → target.purpose ≠ "conversation_deliverable" → R target t) :
    Keeping Database.apply discipline (authorizeArtifactRevisionTarget mayRevise id) R v := by
  apply keeping_bind
  apply keeping_view
  intro t ht htchanges
  have hseen : applyAll Database.apply t.db v.changes = t.db := by
    rw [hchanges]
    rfl
  rw [hseen]
  cases hfind : (t.db.artifacts.find? (·.artifactId == id)).filter fun row =>
      row.purpose != "conversation_deliverable" && mayRevise t.db row with
  | none => exact keeping_throw
  | some target =>
    obtain ⟨hfound, hmay⟩ := filter_eq_some_iff.mp hfind
    apply keeping_pure
    apply h t target ht
    · rw [htchanges, hchanges]
    · exact mem_of_find?_eq_some hfound
    · simpa using find?_some hfound
    · exact bne_iff_ne.mp (Bool.and_eq_true _ _ ▸ hmay).1

variable {k : Lookups} {w : ArtifactWrite}

theorem keeping_validateArtifactDocument {R : Unit → DocumentView → Prop}
    (hchanges : v.changes = [])
    (h : ∀ t, Later discipline v t → t.changes = [] → (∀ id, w.supersedes = some id →
      ∃ a ∈ t.db.artifacts, a.artifactId = id) → R () t) :
    Keeping Database.apply discipline (validateArtifactDocument k w) R v := by
  unfold validateArtifactDocument
  cases hsupersedes : w.supersedes with
  | none =>
    apply keeping_bind
    apply keeping_view
    intro t ht htchanges
    apply keeping_bind
    apply keeping_ofExcept
    intro _ _
    apply keeping_pure
    apply h t ht (htchanges.trans hchanges)
    intro id hid
    rw [hsupersedes] at hid
    cases hid
  | some id =>
    apply keeping_bind
    apply keeping_authorizeArtifactRevisionTarget hchanges
    intro t target ht htchanges htarget htid _
    apply keeping_bind
    apply keeping_view
    intro u hu huchanges
    apply keeping_bind
    apply keeping_ofExcept
    intro _ _
    apply keeping_bind
    apply keeping_ofExcept
    intro _ _
    apply keeping_pure
    apply h u (ht.trans hu) (huchanges.trans htchanges)
    intro id' hid'
    rw [hsupersedes] at hid'
    cases hid'
    obtain ⟨a, ha, hfixed⟩ := hu.interferes.always.artifacts target htarget
    exact ⟨a, ha, (sameArtifact_of_fixed hfixed).id.trans htid⟩

theorem keeping_lockArtifactRevisionTarget {id : String}
    {R : NewArtifactLineage → DocumentView → Prop} (hchanges : v.changes = [])
    (hexists : ∃ a ∈ v.db.artifacts, a.artifactId = id)
    (h : ∀ t lineage, Later discipline v t → t.changes = [] →
      (∃ a ∈ t.db.artifacts, a.artifactId = id ∧ a.lineageId = some lineage.lineageId) →
      t.held (.artifact lineage.lineageId) → lineage.revision ≠ 1 → R lineage t) :
    Keeping Database.apply discipline (lockArtifactRevisionTarget id) R v := by
  obtain ⟨a, ha, hid⟩ := hexists
  apply keeping_bind
  apply keeping_view
  intro t ht htchanges
  have htseen : applyAll Database.apply t.db v.changes = t.db := by
    rw [hchanges]
    rfl
  rw [htseen]
  obtain ⟨a₁, ha₁, hfixed₁⟩ := ht.interferes.always.artifacts a ha
  have hid₁ : a₁.artifactId = id := (sameArtifact_of_fixed hfixed₁).id.trans hid
  have hroot : (t.db.artifacts.find? (·.artifactId == id)).map (·.lineageKey) =
      some a₁.lineageKey := by
    cases hfind : t.db.artifacts.find? (·.artifactId == id) with
    | none =>
      have hnone := find?_eq_none.mp hfind a₁ ha₁
      simp [hid₁] at hnone
    | some x =>
      have hxid : x.artifactId = id := by simpa using find?_some hfind
      have heq : x = a₁ :=
        ht.inv.artifact_eq (mem_of_find?_eq_some hfind) ha₁ (hxid.trans hid₁.symm)
      rw [heq]
      rfl
  rw [hroot]
  obtain ⟨hlineage₁, root, hrootmem, hrootid⟩ := ht.inv.artifactKey ha₁
  apply keeping_bind
  apply keeping_lockRows
  intro u w hu huchanges hw hwchanges hkeys
  have hheld : w.held (.artifact a₁.lineageKey) := by
    obtain ⟨root', hroot', hfixed⟩ := hu.interferes.always.artifacts root hrootmem
    have hrootid' : root'.artifactId = a₁.lineageKey :=
      (sameArtifact_of_fixed hfixed).id.trans hrootid
    rw [seen_of_nil (by rw [huchanges, htchanges, hchanges])] at hkeys
    rw [← hrootid']
    apply hkeys
    apply mem_map_of_mem (f := fun row : ArtifactRecordRow => Key.artifact row.artifactId)
    refine mem_filter.mpr ⟨hroot', ?_⟩
    rw [hrootid']
    exact beq_self_eq_true _
  apply keeping_bind
  apply keeping_lockRows
  intro x y hx _ hy hychanges _
  apply keeping_bind
  apply keeping_view
  intro z hz hzchanges
  have hzseen : applyAll Database.apply z.db y.changes = z.db := by
    rw [hychanges, hwchanges, htchanges, hchanges]
    rfl
  rw [hzseen]
  have hlater := (((hu.trans hw).trans hx).trans hy).trans hz
  apply keeping_ofExcept
  intro lineage hlineage
  unfold reviseArtifact at hlineage
  cases hfind : z.db.artifacts.find? (·.artifactId == id) with
  | none =>
    rw [hfind] at hlineage
    cases hlineage
  | some target =>
    rw [hfind] at hlineage
    dsimp only at hlineage
    split_ifs at hlineage
    cases hlineage
    have htarget := mem_of_find?_eq_some hfind
    have htid : target.artifactId = id := by simpa using find?_some hfind
    have hsame : SameArtifact a₁ target :=
      hlater.interferes.always.artifact hz.inv ha₁ htarget (htid.trans hid₁.symm)
    have hkey : target.lineageKey = a₁.lineageKey := by
      have hnow := (hz.inv.artifactKey htarget).1
      rw [hsame.lineage, hlineage₁] at hnow
      exact (some.inj hnow).symm
    apply h z _ (ht.trans hlater)
    · rw [hzchanges, hychanges, hwchanges, htchanges, hchanges]
    · exact ⟨target, htarget, htid, (hz.inv.artifactKey htarget).1⟩
    · rw [hkey]
      exact ((hx.trans hy).trans hz).held _ hheld
    · change target.revisionOrOne + 1 ≠ 1
      unfold ArtifactRecordRow.revisionOrOne
      split_ifs <;> omega

/-- The revision is planned from a target under its lock. -/
def Targeted (revised : Option (NewArtifactLineage × ArtifactRecordRow)) (t : DocumentView) :
    Prop :=
  ∀ lineage target, revised = some (lineage, target) → TargetLocked target t ∧
    target.lineageId = some lineage.lineageId ∧ lineage.revision ≠ 1

theorem keeping_artifactTarget
    {R : Option (NewArtifactLineage × ArtifactRecordRow) → DocumentView → Prop}
    (hinv : WellPlaced v.db) (hchanges : v.changes = [])
    (hexists : ∀ id, w.supersedes = some id → ∃ a ∈ v.db.artifacts, a.artifactId = id)
    (h : ∀ t revised, Later discipline v t → t.changes = [] → Targeted revised t → R revised t) :
    Keeping Database.apply discipline (artifactTarget w) R v := by
  unfold artifactTarget
  cases hsupersedes : w.supersedes with
  | none =>
    apply keeping_pure
    apply h v none (.refl hinv) hchanges
    intro lineage target hrevised
    cases hrevised
  | some id =>
    apply keeping_bind
    apply keeping_lockArtifactRevisionTarget hchanges (hexists id hsupersedes)
    intro t lineage ht htchanges ⟨a, ha, hid, hlineage⟩ hheld hrevision
    apply keeping_bind
    apply keeping_authorizeArtifactRevisionTarget htchanges
    intro u target hu huchanges htarget htid hpurpose
    apply keeping_pure
    apply h u _ (ht.trans hu) huchanges
    intro lineage' target' hrevised
    cases hrevised
    have hsame : SameArtifact a target :=
      hu.interferes.always.artifact hu.inv ha htarget (htid.trans hid.symm)
    have htlineage : target.lineageId = some lineage.lineageId := hsame.lineage.trans hlineage
    obtain ⟨e, he, heid, -, -⟩ := hu.inv.artifacts.root (mem_map_of_mem htarget) htlineage
    obtain ⟨x, hx, rfl⟩ := mem_artifactEntries.mp he
    exact ⟨⟨⟨lineage.lineageId, htlineage, hu.held _ hheld, x, hx, heid⟩, hpurpose, htarget⟩,
      htlineage, hrevision⟩

theorem writeProject_target {actor : ContentActor} {requested projectId : Option String}
    (h : writeProject k db actor requested (some target) = .ok projectId) :
    projectId = target.projectId := by
  unfold writeProject at h
  cases hhuman : actor.human with
  | false =>
    rw [hhuman] at h
    rw [if_pos (show (!false) = true from rfl)] at h
    unfold resolveNewContentProjectId at h
    rw [isSome_some, if_pos rfl] at h
    split_ifs at h
    cases h
    rfl
  | true =>
    rw [hhuman] at h
    rw [if_neg (show ¬ (!true) = true by decide)] at h
    dsimp only at h
    split_ifs at h
    cases h
    rfl

/-- Whoever writes an artifact document keeps every lineage in one project. -/
theorem keeping_writeArtifactDocument (hchanges : v.changes = [])
    (hQ : ∀ db changes, Q .wrote db changes) :
    Keeping Database.apply discipline (writeArtifactDocument k w)
      (Ready Database.apply Database.admitsAll discipline Q) v := by
  apply keeping_bind
  apply keeping_validateArtifactDocument hchanges
  intro t ht htchanges hexists
  apply keeping_bind
  apply keeping_lockDocumentScope ht.inv
  intro u hu huchanges hchat
  apply keeping_bind
  apply keeping_artifactTarget hu.inv (huchanges.trans htchanges)
  · intro id hid
    obtain ⟨a, ha, haid⟩ := hexists id hid
    obtain ⟨a', ha', hfixed⟩ := hu.interferes.always.artifacts a ha
    exact ⟨a', ha', (sameArtifact_of_fixed hfixed).id.trans haid⟩
  intro x revised hx hxchanges htargeted
  apply keeping_bind
  apply keeping_view
  intro y hy hychanges
  generalize applyAll Database.apply y.db x.changes = base
  apply keeping_bind
  apply keeping_ofExcept
  intro projectId hproject
  have hplanned : PlannedArtifact (newArtifactRow base w revised projectId) x := by
    refine ⟨⟨w.uuidHex, rfl⟩, ?_, ?_, ?_⟩
    · cases revised with
      | none => exact .inl rfl
      | some pair =>
        obtain ⟨lineage, target⟩ := pair
        obtain ⟨hlocked, hlineage, -⟩ := htargeted lineage target rfl
        refine .inr ⟨target, hlocked, ?_, writeProject_target hproject⟩
        obtain ⟨l, hl, -, root, hroot, hid⟩ := hlocked.held
        have hsame : lineage.lineageId = l := some.inj (hlineage.symm.trans hl)
        have hne : lineage.lineageId ≠ "" := by
          rw [hsame, ← hid]
          exact hx.inv.artifactId_ne hroot
        change some (if lineage.lineageId = "" then _ else lineage.lineageId) = target.lineageId
        rw [if_neg hne, hlineage]
    · intro hone
      cases revised with
      | none => rfl
      | some pair => exact absurd hone (htargeted pair.1 pair.2 rfl).2.2
    · intro c hc hne hone
      cases revised with
      | none => exact hx.held _ (hchat c hc hne)
      | some pair => exact absurd hone (htargeted pair.1 pair.2 rfl).2.2
  apply keeping_bind
  apply keeping_change
  intro z hz hzchanges
  apply keeping_pure
  apply ((hplanned.later hy).later hz).ready _ hQ
  rw [hzchanges, hychanges, hxchanges]
  rfl

end Cognis.Documents
