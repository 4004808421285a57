import Cognis.Documents.Writes

namespace Cognis.Documents

open Bool List ScopedLineages Transactions
open Deliverables (CreateError NewDeliverable NewDeliverableLineage orElse)

variable {db : Database} {row r : DeliverableRow} {a b : ArtifactRecordRow} {ids : List String}
  {records : List ArtifactRecordRow}

@[simp] theorem DeliverableRow.entry_superseded : (r.superseded ids).entry = r.entry := by
  unfold DeliverableRow.superseded
  split <;> rfl

@[simp] theorem DeliverableRow.fixed_superseded : (r.superseded ids).fixed = r.fixed := by
  unfold DeliverableRow.superseded
  split <;> rfl

theorem DeliverableRow.same_superseded : SameDeliverable r (r.superseded ids) :=
  sameDeliverable_of_fixed DeliverableRow.fixed_superseded

@[simp] theorem DeliverableRow.projectId_superseded : (r.superseded ids).projectId = r.projectId :=
  congrArg Entry.scope DeliverableRow.entry_superseded

theorem DeliverableRow.draft_superseded (h : (r.superseded ids).status.isDraft) :
    r.superseded ids = r := by
  unfold DeliverableRow.superseded at h ⊢
  split at h
  · cases h
  · next hkept => rw [if_neg hkept]

theorem deliverable_admitted (h : db.admits (.insertDeliverable row)) :
    ∀ r ∈ db.deliverables, r.deliverableId ≠ row.deliverableId := by
  have hfresh := (and_eq_true _ _ ▸ h).1
  simpa using hfresh

theorem artifact_admitted (h : db.admits (.insertArtifact a)) :
    ∀ b ∈ db.artifacts, b.artifactId ≠ a.artifactId := by
  have hfresh := (and_eq_true _ _ ▸ h).1
  simpa using hfresh

def Database.added (db : Database) (ids : List String) (row : DeliverableRow)
    (records : List ArtifactRecordRow) : Database :=
  { db with
    deliverables := db.deliverables.map (DeliverableRow.superseded ids) ++ [row]
    artifacts := db.artifacts ++ records }

/-- The record that a conversation's deliverable gets. -/
structure RecordFor (row : DeliverableRow) (a : ArtifactRecordRow) : Prop where
  conversation : row.conversationId ≠ none
  id : a.artifactId = row.deliverableId
  project : a.projectId = row.projectId
  purpose : a.purpose = "conversation_deliverable"
  own : a.lineageId = some a.artifactId

/-- A row that may be inserted with its records. -/
structure Addable (db : Database) (row : DeliverableRow) (records : List ArtifactRecordRow) :
    Prop where
  named : ∃ hex, row.deliverableId = "dlv_" ++ hex
  fresh : ∀ r ∈ db.deliverables, r.deliverableId ≠ row.deliverableId
  placed : row.lineageId = some row.deliverableId ∨
    ∃ e ∈ db.deliverableEntries, row.lineageId = e.lineage ∧ row.projectId = e.scope
  first : row.conversationId ≠ none → row.revision = 1 → row.lineageId = some row.deliverableId
  recorded : row.conversationId ≠ none → ∃ a ∈ records, a.artifactId = row.deliverableId
  records : records = [] ∨ ∃ a, records = [a] ∧ RecordFor row a

theorem Addable.record (h : Addable db row records) (ha : a ∈ records) :
    records = [a] ∧ RecordFor row a := by
  rcases h.records with hnone | ⟨x, hsome, hx⟩
  · rw [hnone] at ha
    cases ha
  · rw [hsome] at ha
    have heq : a = x := mem_singleton.mp ha
    subst heq
    exact ⟨hsome, hx⟩

theorem deliverableEntries_added :
    (db.added ids row records).deliverableEntries = db.deliverableEntries ++ [row.entry] := by
  unfold Database.deliverableEntries Database.added
  simp only [map_append, map_map, map_cons, map_nil]
  congr 1
  apply map_congr_left
  intro r _
  exact DeliverableRow.entry_superseded

theorem artifactEntries_added :
    (db.added ids row records).artifactEntries = db.artifactEntries ++ records.map (·.entry) := by
  unfold Database.artifactEntries Database.added
  rw [map_append]

theorem mem_deliverables_added (h : r ∈ (db.added ids row records).deliverables) :
    (∃ x ∈ db.deliverables, r = x.superseded ids) ∨ r = row := by
  rcases mem_append.mp h with hold | hlast
  · obtain ⟨x, hx, rfl⟩ := mem_map.mp hold
    exact .inl ⟨x, hx, rfl⟩
  · exact .inr (mem_singleton.mp hlast)

theorem mem_artifacts_added (h : a ∈ (db.added ids row records).artifacts) :
    a ∈ db.artifacts ∨ a ∈ records := mem_append.mp h

theorem WellPlaced.fresh_record (h : WellPlaced db) (hnew : Addable db row records)
    (ha : a ∈ db.artifacts) : a.artifactId ≠ row.deliverableId := by
  intro hid
  rcases h.artifactNames a ha with ⟨hex, hname⟩ | ⟨r, hr, hname⟩
  · obtain ⟨hex', hname'⟩ := hnew.named
    exact art_ne_dlv hex hex' (hname.symm.trans (hid.trans hname'))
  · exact hnew.fresh r hr (hname.trans hid)

theorem WellPlaced.fresh_lineage (h : WellPlaced db) (hnew : Addable db row records)
    (ha : a ∈ db.artifacts) : a.lineageId ≠ some row.deliverableId := by
  intro hlineage
  obtain ⟨e, he, hid, -, -⟩ := h.artifacts.root (mem_map_of_mem ha) hlineage
  obtain ⟨x, hx, rfl⟩ := mem_artifactEntries.mp he
  exact h.fresh_record hnew hx hid

theorem RecordOf.added (h : RecordOf db.artifacts r a)
    (hadd : ∀ b ∈ records, b.lineageId ≠ some a.artifactId) :
    RecordOf (db.artifacts ++ records) r a where
  conversation := h.conversation
  project := h.project
  purpose := h.purpose
  own := h.own
  alone b hb hlineage := by
    rcases mem_append.mp hb with hold | hlast
    · exact h.alone b hold hlineage
    · exact absurd hlineage (hadd b hlast)

theorem RecordOf.superseded {artifacts : List ArtifactRecordRow} (h : RecordOf artifacts r a) :
    RecordOf artifacts (r.superseded ids) a where
  conversation := by
    rw [DeliverableRow.same_superseded.conversation]
    exact h.conversation
  project := by
    rw [DeliverableRow.projectId_superseded]
    exact h.project
  purpose := h.purpose
  own := h.own
  alone := h.alone

theorem WellPlaced.placed_added (h : WellPlaced db) (hnew : Addable db row records) :
    Placed (db.deliverableEntries ++ [row.entry]) := by
  have hfresh : ∀ e ∈ db.deliverableEntries, e.id ≠ row.entry.id := by
    intro e he
    obtain ⟨r, hr, rfl⟩ := mem_deliverableEntries.mp he
    exact hnew.fresh r hr
  rcases hnew.placed with hown | ⟨e, he, hlineage, hscope⟩
  · exact h.deliverables.insertRoot hfresh hown
  · exact h.deliverables.insertRevision hfresh he hlineage hscope

theorem WellPlaced.records_added (h : WellPlaced db) (hnew : Addable db row records) :
    Placed (db.artifactEntries ++ records.map (·.entry)) := by
  rcases hnew.records with hnone | ⟨a, hsome, ha⟩
  · rw [hnone, map_nil, append_nil]
    exact h.artifacts
  · rw [hsome]
    apply h.artifacts.insertRoot
    · intro e he
      obtain ⟨x, hx, rfl⟩ := mem_artifactEntries.mp he
      change x.artifactId ≠ a.artifactId
      rw [ha.id]
      exact h.fresh_record hnew hx
    · exact ha.own

theorem WellPlaced.added (h : WellPlaced db) (hnew : Addable db row records) :
    WellPlaced (db.added ids row records) where
  deliverables := by
    rw [deliverableEntries_added]
    exact h.placed_added hnew
  artifacts := by
    rw [artifactEntries_added]
    exact h.records_added hnew
  deliverableNames r hr := by
    rcases mem_deliverables_added hr with ⟨x, hx, rfl⟩ | rfl
    · rw [DeliverableRow.same_superseded.id]
      exact h.deliverableNames x hx
    · exact hnew.named
  artifactNames a ha := by
    rcases mem_artifacts_added ha with hold | hrecord
    · rcases h.artifactNames a hold with hname | ⟨r, hr, hid⟩
      · exact .inl hname
      · refine .inr ⟨r.superseded ids, ?_, DeliverableRow.same_superseded.id.trans hid⟩
        exact mem_append_left _ (mem_map_of_mem hr)
    · refine .inr ⟨row, mem_append_right _ (mem_singleton_self row), ?_⟩
      exact (hnew.record hrecord).2.id.symm
  firstDeliverable r hr hchat hone := by
    rcases mem_deliverables_added hr with ⟨x, hx, rfl⟩ | rfl
    · rw [DeliverableRow.same_superseded.conversation] at hchat
      rw [DeliverableRow.same_superseded.revision] at hone
      rw [DeliverableRow.same_superseded.lineage, DeliverableRow.same_superseded.id]
      exact h.firstDeliverable x hx hchat hone
    · exact hnew.first hchat hone
  firstArtifact a ha hone := by
    rcases mem_artifacts_added ha with hold | hrecord
    · exact h.firstArtifact a hold hone
    · exact (hnew.record hrecord).2.own
  recorded r hr hchat := by
    rcases mem_deliverables_added hr with ⟨x, hx, rfl⟩ | rfl
    · rw [DeliverableRow.same_superseded.conversation] at hchat
      obtain ⟨a, ha, hid⟩ := h.recorded x hx hchat
      exact ⟨a, mem_append_left _ ha, hid.trans DeliverableRow.same_superseded.id.symm⟩
    · obtain ⟨a, ha, hid⟩ := hnew.recorded hchat
      exact ⟨a, mem_append_right _ ha, hid⟩
  record r hr a ha hid := by
    rcases mem_deliverables_added hr with ⟨x, hx, rfl⟩ | rfl
    · rw [DeliverableRow.same_superseded.id] at hid
      rcases mem_artifacts_added ha with hold | hrecord
      · apply RecordOf.superseded
        apply RecordOf.added (h.record x hx a hold hid)
        intro b hb hlineage
        obtain ⟨-, hfor⟩ := hnew.record hb
        rw [hfor.own, hfor.id] at hlineage
        exact hnew.fresh x hx ((Option.some.inj hlineage).trans hid).symm
      · exact absurd (hid.symm.trans (hnew.record hrecord).2.id) (hnew.fresh x hx)
    · rcases mem_artifacts_added ha with hold | hrecord
      · exact absurd hid (h.fresh_record hnew hold)
      · obtain ⟨hsingle, hfor⟩ := hnew.record hrecord
        refine ⟨hfor.conversation, hfor.project, hfor.purpose, hfor.own, ?_⟩
        intro b hb hlineage
        rcases mem_artifacts_added hb with hbold | hblast
        · rw [hid] at hlineage
          exact absurd hlineage (h.fresh_lineage hnew hbold)
        · rw [hsingle] at hblast
          rw [mem_singleton.mp hblast]

theorem stays_added : Stays db (db.added ids row records) where
  deliverables r hr :=
    ⟨r.superseded ids, mem_append_left _ (mem_map_of_mem hr), DeliverableRow.fixed_superseded⟩
  artifacts a ha := ⟨a, mem_append_left _ ha, rfl⟩

theorem WellPlaced.protects_added (h : WellPlaced db) (hnew : Addable db row records) {key : Key}
    (hchat : ∀ c, row.conversationId = some c → c ≠ "" → key ≠ .conversation c)
    (hstep : ∀ s, row.stepRunId = some s → key ≠ .stepRun s)
    (hlineage : ∀ l, row.lineageId = some l → l = row.deliverableId ∨ key ≠ .deliverable l) :
    Protects key db (db.added ids row records) := by
  cases key with
  | conversation c =>
    intro hne
    constructor
    · intro r hr
      obtain ⟨hmem, hconversation, hnone, hone⟩ := mem_deliverableRoots.mp hr
      rcases mem_deliverables_added hmem with ⟨x, hx, rfl⟩ | rfl
      · have hsame : SameDeliverable x (x.superseded ids) := DeliverableRow.same_superseded
        refine ⟨x, mem_deliverableRoots.mpr ⟨hx, ?_, ?_, ?_⟩, hsame.id.symm⟩
        · rw [← hsame.conversation]
          exact hconversation
        · rw [← hsame.stepRun]
          exact hnone
        · rw [← hsame.revision]
          exact hone
      · exact absurd rfl (hchat c hconversation hne)
    · intro a ha
      obtain ⟨hmem, hconversation, hpurpose, hone⟩ := mem_artifactRoots.mp ha
      rcases mem_artifacts_added hmem with hold | hrecord
      · exact ⟨a, mem_artifactRoots.mpr ⟨hold, hconversation, hpurpose, hone⟩, rfl⟩
      · rw [(hnew.record hrecord).2.purpose] at hpurpose
        exact absurd hpurpose (by decide)
  | stepRun s =>
    intro r hr hsame hdraft
    rcases mem_deliverables_added hr with ⟨x, hx, rfl⟩ | rfl
    · have hkept := DeliverableRow.draft_superseded hdraft
      rw [hkept] at hsame hdraft ⊢
      exact ⟨x, hx, rfl, hsame, hdraft⟩
    · exact absurd rfl (hstep s hsame)
  | deliverable l =>
    change KeepsLineage l db.deliverableEntries (db.added ids row records).deliverableEntries
    rw [deliverableEntries_added]
    apply KeepsLineage.append
    rintro ⟨e, he, hid⟩ hl
    rcases hlineage l hl with hown | hother
    · obtain ⟨x, hx, rfl⟩ := mem_deliverableEntries.mp he
      exact hnew.fresh x hx (hid.trans hown)
    · exact hother rfl
  | artifact l =>
    change KeepsLineage l db.artifactEntries (db.added ids row records).artifactEntries
    rw [artifactEntries_added]
    rcases hnew.records with hnone | ⟨a, hsome, ha⟩
    · rw [hnone, map_nil, append_nil]
      exact KeepsLineage.refl
    · rw [hsome]
      apply KeepsLineage.append
      rintro ⟨e, he, hid⟩ hl
      obtain ⟨x, hx, rfl⟩ := mem_artifactEntries.mp he
      have hl' : a.lineageId = some l := hl
      rw [ha.own, ha.id] at hl'
      exact h.fresh_record hnew hx (hid.trans (Option.some.inj hl').symm)

section

variable {t : DocumentView} {base : Database} {published : Option String}
  {Q : Outcome → Database → List Change → Prop}

def recordsOf (base : Database) (row : DeliverableRow) (published : Option String) :
    List ArtifactRecordRow :=
  (published.map fun ownerEmail => deliverableRecord base ownerEmail row).toList

theorem applyAll_insertChanges : applyAll Database.apply db (insertChanges base row published ids) =
      db.added ids row (recordsOf base row published) := by
  cases published with
  | none =>
    unfold Database.added recordsOf
    rw [Option.map_none, Option.toList_none, append_nil]
    rfl
  | some => rfl

theorem fresh_of_admitted
    (h : db.admitsAll (insertChanges base row published ids)) :
    ∀ r ∈ db.deliverables, r.deliverableId ≠ row.deliverableId := by
  have hadmits : (db.apply (.supersede ids)).admits (.insertDeliverable row) :=
    (and_eq_true _ _ ▸ (and_eq_true _ _ ▸ h).2).1
  intro r hr hid
  have hsame : (r.superseded ids).deliverableId = row.deliverableId :=
    DeliverableRow.same_superseded.id.trans hid
  exact deliverable_admitted hadmits (r.superseded ids) (mem_map_of_mem hr) hsame

theorem Planned.addable (h : Planned row t) (hadmitted : t.db.admitsAll
    (insertChanges base row published ids))
    (hpublished : published.isSome ↔ row.conversationId ≠ none) :
    Addable t.db row (recordsOf base row published) where
  named := h.named
  fresh := fresh_of_admitted hadmitted
  placed := by
    rcases h.placed with hown | ⟨l, hl, -, e, he, hlineage, hscope⟩
    · exact .inl hown
    · exact .inr ⟨e, he, hl.trans hlineage.symm, hscope.symm⟩
  first := h.first
  recorded := by
    intro hchat
    obtain ⟨ownerEmail, howner⟩ := Option.isSome_iff_exists.mp (hpublished.mpr hchat)
    subst howner
    exact ⟨deliverableRecord base ownerEmail row, mem_singleton_self _, rfl⟩
  records := by
    cases published with
    | none => exact .inl rfl
    | some ownerEmail =>
      exact .inr ⟨deliverableRecord base ownerEmail row, rfl, hpublished.mp rfl, rfl, rfl, rfl, rfl⟩

theorem Planned.ready (h : Planned row t) (hinv : WellPlaced t.db)
    (hchanges : t.changes = insertChanges base row published ids)
    (hpublished : published.isSome ↔ row.conversationId ≠ none)
    (hQ : ∀ db changes, Q .wrote db changes) :
    Ready Database.apply Database.admitsAll discipline Q .wrote t := by
  intro db hdb hadmitted
  have hlater : Later discipline t ⟨db, t.held, t.changes⟩ := ⟨hdb, fun _ hkey => hkey⟩
  have hplanned := h.later hinv hlater
  rw [hchanges] at hadmitted
  have hnew : Addable db row (recordsOf base row published) :=
    Planned.addable hplanned hadmitted hpublished
  have hdbinv : WellPlaced db := hdb.inv
  rw [hchanges]
  refine ⟨?_, ?_, ?_, hQ _ _⟩
  · rw [applyAll_insertChanges]
    exact hdbinv.added hnew
  · rw [applyAll_insertChanges]
    exact stays_added
  · intro key hkey
    rw [applyAll_insertChanges]
    apply hdbinv.protects_added hnew
    · intro c hc hne heq
      rw [heq] at hkey
      exact hkey (h.chat c hc hne)
    · intro s hs heq
      rw [heq] at hkey
      exact hkey (h.step s hs)
    · intro l hl
      rcases h.placed with hown | ⟨l', hl', hheld, -⟩
      · exact .inl (Option.some.inj (hl.symm.trans hown))
      · right
        intro heq
        rw [heq] at hkey
        have hsame : l = l' := Option.some.inj (hl.symm.trans hl')
        rw [hsame] at hkey
        exact hkey hheld

/-- The program of `_write_step_deliverable` keeps the discipline. -/
theorem keeping_writeStepDeliverable {k : Lookups} {w : DeliverableWrite} {v : DocumentView}
    (hinv : WellPlaced v.db) (hchanges : v.changes = []) (hQ : ∀ db changes, Q .wrote db changes) :
    Keeping Database.apply discipline (writeStepDeliverable k w)
      (Ready Database.apply Database.admitsAll discipline Q) v := by
  apply keeping_bind
  apply keeping_assertCurrent hinv
  intro t ht htchanges hstep
  apply keeping_bind
  apply keeping_lockDocumentScope ht.inv
  intro u hu huchanges hchat
  apply keeping_bind
  apply keeping_revisionTarget (by rw [huchanges, htchanges, hchanges]) hu.inv
  intro x target hx hxchanges htarget
  apply keeping_bind
  apply keeping_view
  intro y hy hychanges
  apply keeping_bind
  apply keeping_ofExcept
  intro projectId _
  have howned : Owned (w.new projectId) y := by
    refine ⟨rfl, ?_, ?_, ?_⟩
    · intro c hc hne
      change (if w.stepRunId.isNone = true then some w.conversationId else none) = some c at hc
      split at hc
      · exact hy.held _ (hx.held _ (hchat c hc hne))
      · cases hc
    · intro s hs
      exact hy.held _ (hx.held _ (hu.held _ (hstep s hs)))
    · intro hne
      change (if w.stepRunId.isNone = true then some w.conversationId else none) ≠ none at hne
      split at hne
      · next hnone => exact Option.isNone_iff_eq_none.mp hnone
      · exact absurd rfl hne
  apply keeping_bind
  apply keeping_createDeliverable (by rw [hychanges, hxchanges]) howned
  · intro id hid
    obtain ⟨r, hr, hrid⟩ := htarget id hid
    obtain ⟨r', hr', hfixed⟩ := hy.interferes.always.deliverables r hr
    exact ⟨r', hr', (sameDeliverable_of_fixed hfixed).id.trans hrid⟩
  · intro z base row ids hz hzchanges hplanned hsame
    apply keeping_pure
    apply hplanned.ready hz.inv hzchanges _ hQ
    rw [hsame]
    change _ ↔ (if w.stepRunId.isNone = true then some w.conversationId else none) ≠ none
    cases w.stepRunId <;> simp

end

end Cognis.Documents
