import Cognis.Documents.Following

namespace Cognis.Documents

open List ScopedLineages Transactions

variable {locked : List String}
open Deliverables (CreateError NewDeliverable NewDeliverableLineage orElse)

abbrev DocumentView : Type := View Database Key Change

def seen (t : DocumentView) : Database := applyAll Database.apply t.db t.changes

theorem seen_of_nil {t : DocumentView} (h : t.changes = []) : seen t = t.db := by
  unfold seen
  rw [h]
  rfl

variable {α : Type} {v t u : DocumentView} {R : Unit → DocumentView → Prop}

section

theorem keeping_lockRows {query : Database → List Key}
    (h : ∀ t u, Later discipline v t → t.changes = v.changes → Later discipline t u →
      u.changes = v.changes → (∀ key ∈ query (seen t), u.held key) → R () u) :
    Keeping Database.apply discipline (lockRows query) R v := by
  apply keeping_bind
  apply keeping_view
  intro t ht hchanges
  apply keeping_lockAll ht.inv
  intro u hu hkeys hsame
  apply h t u ht hchanges hu (hsame.trans hchanges)
  unfold seen
  rw [hchanges]
  exact hkeys

theorem keeping_lockDocumentScope {conversationId : Option String} (hinv : WellPlaced v.db)
    (h : ∀ t, Later discipline v t → t.changes = v.changes →
      (∀ c, conversationId = some c → c ≠ "" → t.held (.conversation c)) → R () t) :
    Keeping Database.apply discipline (lockDocumentScope conversationId) R v := by
  unfold lockDocumentScope
  cases hgiven : given conversationId with
  | none =>
    apply keeping_pure
    apply h v (.refl hinv) rfl
    intro c hc hne
    rw [hc] at hgiven
    simp [given, hne] at hgiven
  | some id =>
    apply keeping_lock
    intro t ht hheld hchanges
    apply h t ht hchanges
    intro c hc _
    have hid : conversationId = some id := by
      exact (Option.filter_eq_some_iff.mp hgiven).1
    rw [hid] at hc
    cases hc
    exact hheld

theorem keeping_assertCurrent {stepRunId : Option String} (hinv : WellPlaced v.db)
    (h : ∀ t, Later discipline v t → t.changes = v.changes →
      (∀ s, stepRunId = some s → t.held (.stepRun s)) → R () t) :
    Keeping Database.apply discipline (assertCurrent stepRunId) R v := by
  cases hstep : stepRunId with
  | none =>
    apply keeping_pure
    apply h v (.refl hinv) rfl
    intro s hs
    rw [hstep] at hs
    cases hs
  | some id =>
    apply keeping_lock
    intro t ht hheld hchanges
    apply h t ht hchanges
    intro s hs
    rw [hstep] at hs
    cases hs
    exact hheld

theorem keeping_ofExcept {result : Except CreateError α} {R : α → DocumentView → Prop}
    (h : ∀ a, result = .ok a → R a v) :
    Keeping Database.apply discipline (ofExcept result) R v := by
  cases result with
  | ok a => exact keeping_pure (h a rfl)
  | error e => exact keeping_throw

end

section

variable {db : Database} {r : DeliverableRow} {a : NewDeliverable}

theorem WellPlaced.lineageKey (h : WellPlaced db) (hr : r ∈ db.deliverables) :
    r.lineageId = some (Deliverables.deliverableLineageKey r.toDeliverableRow) ∧
      ∃ root ∈ db.deliverables,
        root.deliverableId = Deliverables.deliverableLineageKey r.toDeliverableRow := by
  obtain ⟨e, he, hkey, -⟩ := h.deliverables.rooted r.entry (mem_map_of_mem hr)
  obtain ⟨root, hroot, rfl⟩ := mem_deliverableEntries.mp he
  have hlineage : r.lineageId = some root.deliverableId := hkey
  have hname : Deliverables.deliverableLineageKey r.toDeliverableRow = root.deliverableId := by
    obtain ⟨hex, hhex⟩ := h.deliverableNames root hroot
    unfold Deliverables.deliverableLineageKey orElse
    rw [hlineage]
    dsimp only
    rw [hhex]
    simp
  rw [hname]
  exact ⟨hlineage, root, hroot, rfl⟩

def Written (a : NewDeliverable) (r : DeliverableRow) : Prop :=
  a.supersedesDeliverableId = some r.deliverableId ∨
    ∃ s, a.stepRunId = some s ∧ r.stepRunId = some s ∧ r.status.isDraft = true

variable {row : Deliverables.DeliverableRow}

theorem inScope_of_step {s : String} (hs : a.stepRunId = some s) :
    a.inScope row ↔ row.stepRunId = some s := by
  unfold NewDeliverable.inScope
  rw [hs, Option.isSome_some, if_pos rfl, beq_iff_eq]

theorem mem_writtenRoots {root : String} :
    root ∈ writtenRoots a db ↔ ∃ r ∈ db.deliverables, Written a r ∧
      Deliverables.deliverableLineageKey r.toDeliverableRow = root := by
  unfold writtenRoots Written
  simp only [mem_map, mem_filter, Bool.or_eq_true, beq_iff_eq, Bool.and_eq_true, and_assoc]
  have hscope : ∀ r : DeliverableRow,
      (a.inScope r.toDeliverableRow ∧ a.stepRunId.isSome ∧ r.status.isDraft) ↔
        ∃ s, a.stepRunId = some s ∧ r.stepRunId = some s ∧ r.status.isDraft := by
    intro r
    cases hs : a.stepRunId with
    | none => simp
    | some s =>
      rw [inScope_of_step hs]
      constructor
      · intro h
        exact ⟨s, rfl, h.1, h.2.2⟩
      · rintro ⟨s', hs', hstep, hdraft⟩
        cases hs'
        exact ⟨hstep, rfl, hdraft⟩
  simp only [hscope]

/-- The roots of the target and of the drafts, as they were in `base`, are locked; the fence has
kept the drafts since. -/
structure RootsLocked (a : NewDeliverable) (base : Database) (t : DocumentView) : Prop where
  inv : WellPlaced base
  stays : Stays base t.db
  target : ∀ id, a.supersedesDeliverableId = some id → ∃ r ∈ base.deliverables, r.deliverableId = id
  fence : ∀ s, a.stepRunId = some s → t.held (.stepRun s) ∧ Protects (.stepRun s) base t.db
  held : ∀ root ∈ writtenRoots a base, t.held (.deliverable root)

variable {base : Database}

theorem RootsLocked.later (h : RootsLocked a base t) (hu : Later discipline t u) :
    RootsLocked a base u where
  inv := h.inv
  stays := h.stays.trans hu.interferes.always
  target := h.target
  fence s hs := by
    obtain ⟨hheld, hprotects⟩ := h.fence s hs
    exact ⟨hu.held _ hheld, protects_trans _ _ _ _ hprotects (hu.interferes.keeps _ hheld)⟩
  held root hroot := hu.held _ (h.held root hroot)

theorem RootsLocked.root_held (h : RootsLocked a base t) (hdb : WellPlaced t.db)
    (hr : r ∈ t.db.deliverables) (hwritten : Written a r) :
    t.held (.deliverable (Deliverables.deliverableLineageKey r.toDeliverableRow)) := by
  have hold : ∃ x ∈ base.deliverables, x.deliverableId = r.deliverableId ∧ Written a x := by
    rcases hwritten with htarget | ⟨s, hs, hstep, hdraft⟩
    · obtain ⟨x, hx, hid⟩ := h.target _ htarget
      exact ⟨x, hx, hid, .inl (by rw [hid]; exact htarget)⟩
    · obtain ⟨x, hx, hid, hstep', hdraft'⟩ := (h.fence s hs).2 r hr hstep hdraft
      exact ⟨x, hx, hid, .inr ⟨s, hs, hstep', hdraft'⟩⟩
  obtain ⟨x, hx, hid, hwritten'⟩ := hold
  have hsame := h.stays.deliverable hdb hx hr hid.symm
  have hkey : Deliverables.deliverableLineageKey r.toDeliverableRow =
      Deliverables.deliverableLineageKey x.toDeliverableRow := by
    have hnow := (hdb.lineageKey hr).1
    rw [hsame.lineage, (h.inv.lineageKey hx).1] at hnow
    exact (Option.some.inj hnow).symm
  rw [hkey]
  exact h.held _ (mem_writtenRoots.mpr ⟨x, hx, hwritten', rfl⟩)

end

section

variable {a : NewDeliverable} {lineage : NewDeliverableLineage}

theorem resolve_project {rows replaced : List Deliverables.DeliverableRow} {id : String}
    {supersedes : Option String}
    (h : Deliverables.resolveNewDeliverableLineage rows id supersedes replaced = .ok lineage) :
    (∃ r ∈ rows, supersedes = some r.deliverableId ∧
        lineage.lineageId = Deliverables.deliverableLineageKey r ∧ lineage.revision ≠ 1 ∧
        lineage.inheritProject ∧ lineage.projectId = r.projectId) ∨
      (∃ r ∈ replaced, lineage.lineageId = Deliverables.deliverableLineageKey r ∧
        lineage.inheritProject ∧ lineage.projectId = r.projectId) ∨
      (lineage.lineageId = id ∧ lineage.inheritProject = false) := by
  unfold Deliverables.resolveNewDeliverableLineage at h
  cases htarget : Deliverables.revisionTarget supersedes replaced with
  | some targetId =>
    rw [htarget] at h
    dsimp only at h
    unfold Deliverables.reviseTarget at h
    cases hfind : rows.find? (·.deliverableId == targetId) with
    | none =>
      rw [hfind] at h
      cases h
    | some r =>
      rw [hfind] at h
      dsimp only at h
      have hid : r.deliverableId = targetId := by simpa using find?_some hfind
      have hsupersedes : supersedes = some targetId := (Option.filter_eq_some_iff.mp htarget).1
      split_ifs at h
      cases h
      refine .inl ⟨r, mem_of_find?_eq_some hfind, by rw [hsupersedes, hid], rfl, ?_, rfl, rfl⟩
      unfold Deliverables.DeliverableRow.revisionOrOne
      dsimp only
      split_ifs <;> omega
  | none =>
    rw [htarget] at h
    cases hmax : replaced.argmax (·.version) with
    | none =>
      rw [hmax] at h
      cases h
      exact .inr (.inr ⟨rfl, rfl⟩)
    | some r =>
      rw [hmax] at h
      cases h
      exact .inr (.inl ⟨r, argmax_mem hmax, rfl, rfl, rfl⟩)

/-- The lineage is new, or read under its lock. -/
structure Resolved (a : NewDeliverable) (lineage : NewDeliverableLineage) (t : DocumentView) :
    Prop where
  placed : (lineage.lineageId = a.rowId ∧ lineage.inheritProject = false) ∨
    (lineage.inheritProject = true ∧ t.held (.deliverable lineage.lineageId) ∧
      ∃ e ∈ t.db.deliverableEntries, e.lineage = some lineage.lineageId ∧
        e.scope = lineage.projectId)
  first : a.stepRunId = none → lineage.revision = 1 → lineage.lineageId = a.rowId

theorem entry_later {l : String} {p : Option String} (hinv : WellPlaced t.db)
    (hheld : t.held (.deliverable l)) (hu : Later discipline t u)
    (h : ∃ e ∈ t.db.deliverableEntries, e.lineage = some l ∧ e.scope = p) :
    ∃ e ∈ u.db.deliverableEntries, e.lineage = some l ∧ e.scope = p := by
  obtain ⟨e, he, hkey, hscope⟩ := h
  obtain ⟨root, hroot, hid, -, -⟩ := hinv.deliverables.root he hkey
  have hkeeps : KeepsLineage l t.db.deliverableEntries u.db.deliverableEntries :=
    hu.interferes.keeps _ hheld
  exact ⟨e, ((hkeeps ⟨root, hroot, hid⟩).2 e hkey).mpr he, hkey, hscope⟩

theorem Resolved.later (h : Resolved a lineage t) (hinv : WellPlaced t.db)
    (hu : Later discipline t u) : Resolved a lineage u where
  placed := by
    rcases h.placed with hnew | ⟨hinherit, hheld, hentry⟩
    · exact .inl hnew
    · exact .inr ⟨hinherit, hu.held _ hheld, entry_later hinv hheld hu hentry⟩
  first := h.first

theorem mem_lockedDrafts {db : Database} (h : row ∈ lockedDrafts a locked db) :
    row ∈ db.deliverableRows ∧ row.status.isDraft ∧
      ∃ s, a.stepRunId = some s ∧ row.stepRunId = some s := by
  unfold lockedDrafts NewDeliverable.drafts at h
  simp only [mem_filter, Bool.and_eq_true] at h
  obtain ⟨⟨hrow, ⟨hscope, hsome⟩, hdraft⟩, -⟩ := h
  obtain ⟨s, hs⟩ := Option.isSome_iff_exists.mp hsome
  exact ⟨hrow, hdraft, s, hs, (inScope_of_step hs).mp hscope⟩

theorem resolved_of_rows {base : Database} {w : DocumentView} (hw : RootsLocked a base w)
    (hwinv : WellPlaced w.db) (hlater : Later discipline w t)
    (h : Deliverables.resolveNewDeliverableLineage t.db.deliverableRows a.rowId
      a.supersedesDeliverableId (replacedDrafts w.db (lockedDrafts a locked w.db)) = .ok lineage) :
    Resolved a lineage t where
  placed := by
    have hinv : WellPlaced t.db := hlater.inv
    have hlocked := hw.later hlater
    rcases resolve_project h with ⟨row, hrow, htarget, hkey, -, hinherit, hproject⟩ |
      ⟨row, hrow, hkey, hinherit, hproject⟩ | hnew
    · obtain ⟨r, hr, rfl⟩ := mem_map.mp hrow
      right
      rw [hkey, hproject]
      refine ⟨hinherit, hlocked.root_held hinv hr (.inl htarget), r.entry,
        mem_map_of_mem hr, (hinv.lineageKey hr).1, rfl⟩
    · obtain ⟨hmem, hdraft, s, hs, hstep⟩ := mem_lockedDrafts (mem_filter.mp hrow).1
      obtain ⟨r, hr, rfl⟩ := mem_map.mp hmem
      right
      rw [hkey, hproject]
      have hheld := hw.root_held hwinv hr (.inr ⟨s, hs, hstep, hdraft⟩)
      refine ⟨hinherit, hlater.held _ hheld, ?_⟩
      exact entry_later hwinv hheld hlater
        ⟨r.entry, mem_map_of_mem hr, (hwinv.lineageKey hr).1, rfl⟩
    · exact .inl hnew
  first := by
    intro hnone hone
    rcases resolve_project h with ⟨row, -, -, -, hrevision, -, -⟩ | ⟨row, hrow, -, -, -⟩ | hnew
    · exact absurd hone hrevision
    · obtain ⟨-, -, s, hs, -⟩ := mem_lockedDrafts (mem_filter.mp hrow).1
      rw [hnone] at hs
      cases hs
    · exact hnew.1

end

section

variable {a : NewDeliverable} {published : Option String}

theorem keeping_lockDrafts {R : List String → DocumentView → Prop} (hchanges : v.changes = [])
    (htarget : ∀ id, a.supersedesDeliverableId = some id →
      ∃ r ∈ v.db.deliverables, r.deliverableId = id)
    (hfence : ∀ s, a.stepRunId = some s → v.held (.stepRun s))
    (h : ∀ base t locked, Later discipline v t → t.changes = [] → RootsLocked a base t → R locked t)
      :
    Keeping Database.apply discipline (lockDrafts a) R v := by
  apply keeping_bind
  apply keeping_view
  intro t ht htchanges
  apply keeping_bind
  apply keeping_lockRows
  intro u w hu huchanges hw hwchanges hkeys
  have huseen : seen u = u.db := seen_of_nil (by rw [huchanges, htchanges, hchanges])
  have htseen : applyAll Database.apply t.db v.changes = t.db := by
    rw [hchanges]
    rfl
  rw [huseen, htseen] at hkeys
  have hlocked : RootsLocked a t.db w := by
    refine ⟨ht.inv, (hu.trans hw).interferes.always, ?_, ?_, ?_⟩
    · intro id hid
      obtain ⟨r, hr, hrid⟩ := htarget id hid
      obtain ⟨r', hr', hfixed⟩ := ht.interferes.always.deliverables r hr
      exact ⟨r', hr', (sameDeliverable_of_fixed hfixed).id.trans hrid⟩
    · intro s hs
      have hheld := ht.held _ (hfence s hs)
      exact ⟨(hu.trans hw).held _ hheld, (hu.trans hw).interferes.keeps _ hheld⟩
    · intro root hroot
      obtain ⟨r, hr, -, rfl⟩ := mem_writtenRoots.mp hroot
      obtain ⟨-, x, hx, hxid⟩ := ht.inv.lineageKey hr
      obtain ⟨x', hx', hfixed⟩ := hu.interferes.always.deliverables x hx
      have hid := (sameDeliverable_of_fixed hfixed).id.trans hxid
      rw [← hid]
      apply hkeys
      apply mem_map_of_mem
      refine mem_filter.mpr ⟨hx', ?_⟩
      rw [hid]
      exact contains_iff_mem.mpr hroot
  apply keeping_bind
  apply keeping_view
  intro x hx hxchanges
  apply keeping_bind
  apply keeping_lockAll hx.inv
  intro y hy _ hychanges
  apply keeping_pure
  apply h t.db y
  · exact (((ht.trans hu).trans hw).trans hx).trans hy
  · rw [hychanges, hxchanges, hwchanges, htchanges, hchanges]
  · exact (hlocked.later hx).later hy

theorem keeping_resolveLineage {base : Database}
    {R : NewDeliverableLineage × List String → DocumentView → Prop} (hchanges : v.changes = [])
    (hlocked : RootsLocked a base v)
    (h : ∀ t lineage ids, Later discipline v t → t.changes = [] → Resolved a lineage t →
      R (lineage, ids) t) :
    Keeping Database.apply discipline (resolveLineage a locked) R v := by
  apply keeping_bind
  apply keeping_view
  intro w hw hwchanges
  have hwseen : applyAll Database.apply w.db v.changes = w.db := by
    rw [hchanges]
    rfl
  rw [hwseen]
  dsimp only
  cases protectedDraft a w.db (lockedDrafts a locked w.db) with
  | some e => exact keeping_throw
  | none =>
    apply keeping_bind
    apply keeping_lockRows
    intro t u ht _ hu huchanges _
    apply keeping_bind
    apply keeping_view
    intro x hx hxchanges
    have hxseen : applyAll Database.apply x.db u.changes = x.db := by
      rw [huchanges, hwchanges, hchanges]
      rfl
    rw [hxseen]
    apply keeping_bind
    apply keeping_ofExcept
    intro lineage hlineage
    apply keeping_pure
    have hlater := (ht.trans hu).trans hx
    apply h x lineage
    · exact hw.trans hlater
    · rw [hxchanges, huchanges, hwchanges, hchanges]
    · exact resolved_of_rows (hlocked.later hw) hw.inv hlater hlineage

/-- What is known of the row when it is inserted. -/
structure Planned (row : DeliverableRow) (t : DocumentView) : Prop where
  named : ∃ hex, row.deliverableId = "dlv_" ++ hex
  placed : row.lineageId = some row.deliverableId ∨ ∃ l, row.lineageId = some l ∧
    t.held (.deliverable l) ∧ ∃ e ∈ t.db.deliverableEntries, e.lineage = some l ∧
      e.scope = row.projectId
  first : row.conversationId ≠ none → row.revision = 1 → row.lineageId = some row.deliverableId
  chat : ∀ c, row.conversationId = some c → c ≠ "" → t.held (.conversation c)
  step : ∀ s, row.stepRunId = some s → t.held (.stepRun s)

theorem Planned.later {row : DeliverableRow} (h : Planned row t) (hinv : WellPlaced t.db)
    (hu : Later discipline t u) : Planned row u where
  named := h.named
  placed := by
    rcases h.placed with hnew | ⟨l, hl, hheld, hentry⟩
    · exact .inl hnew
    · exact .inr ⟨l, hl, hu.held _ hheld, entry_later hinv hheld hu hentry⟩
  first := h.first
  chat c hc hne := hu.held _ (h.chat c hc hne)
  step s hs := hu.held _ (h.step s hs)

/-- The conversation and the step that are written for are locked. -/
structure Owned (a : NewDeliverable) (t : DocumentView) : Prop where
  generated : a.deliverableId = none
  chat : ∀ c, a.conversationId = some c → c ≠ "" → t.held (.conversation c)
  step : ∀ s, a.stepRunId = some s → t.held (.stepRun s)
  single : a.conversationId ≠ none → a.stepRunId = none

theorem Owned.later (h : Owned a t) (hu : Later discipline t u) : Owned a u :=
  ⟨h.generated, fun c hc hne => hu.held _ (h.chat c hc hne), fun s hs => hu.held _ (h.step s hs),
    h.single⟩

variable {lineage : NewDeliverableLineage}

theorem Resolved.planned {db : Database} (h : Resolved a lineage t) (howned : Owned a t) :
    Planned (newDeliverableRow db a published lineage) t where
  named := by
    refine ⟨a.uuidHex, ?_⟩
    change orElse a.deliverableId ("dlv_" ++ a.uuidHex) = "dlv_" ++ a.uuidHex
    rw [howned.generated]
    rfl
  placed := by
    rcases h.placed with ⟨hnew, -⟩ | ⟨hinherit, hheld, hentry⟩
    · left
      change some lineage.lineageId = some a.rowId
      rw [hnew]
    · right
      refine ⟨lineage.lineageId, rfl, hheld, ?_⟩
      have hproject : (newDeliverableRow db a published lineage).projectId = lineage.projectId := by
        change (if lineage.inheritProject then lineage.projectId else a.projectId) = _
        rw [hinherit]
        rfl
      rw [hproject]
      exact hentry
  first := by
    intro hchat hone
    have hnew : lineage.lineageId = a.rowId := h.first (howned.single hchat) hone
    change some lineage.lineageId = some a.rowId
    rw [hnew]
  chat := howned.chat
  step := howned.step

def insertChanges (db : Database) (row : DeliverableRow) (published : Option String)
    (ids : List String) : List Change :=
  [.supersede ids, .insertDeliverable row] ++
    (published.map fun ownerEmail =>
      Change.insertArtifact (deliverableRecord db ownerEmail row)).toList

theorem keeping_insertDeliverable {ids : List String} (hchanges : v.changes = [])
    (hinv : WellPlaced v.db) (hresolved : Resolved a lineage v) (howned : Owned a v)
    (h : ∀ t db row, Later discipline v t → t.changes = insertChanges db row published ids →
      Planned row t → row.conversationId = a.conversationId → R () t) :
    Keeping Database.apply discipline (insertDeliverable a published lineage ids) R v := by
  apply keeping_bind
  apply keeping_view
  intro t ht htchanges
  generalize applyAll Database.apply t.db v.changes = db
  have hplanned : Planned (newDeliverableRow db a published lineage) t :=
    (hresolved.later hinv ht).planned (howned.later ht)
  apply keeping_bind
  apply keeping_change
  intro u hu huchanges
  apply keeping_bind
  apply keeping_change
  intro w hw hwchanges
  have hplanned' := (hplanned.later ht.inv hu).later hu.inv hw
  have hlater := (ht.trans hu).trans hw
  have hwlist : w.changes =
      [.supersede ids, .insertDeliverable (newDeliverableRow db a published lineage)] := by
    rw [hwchanges, huchanges, htchanges, hchanges]
    rfl
  cases hpublished : published with
  | none =>
    subst hpublished
    apply keeping_pure
    exact h w db _ hlater hwlist hplanned' rfl
  | some =>
    subst hpublished
    apply keeping_change
    intro x hx hxchanges
    apply h x db _ (hlater.trans hx)
    · rw [hxchanges, hwlist]
      rfl
    · exact hplanned'.later hw.inv hx
    · rfl

theorem keeping_createDeliverable (hchanges : v.changes = []) (howned : Owned a v)
    (htarget : ∀ id, a.supersedesDeliverableId = some id →
      ∃ r ∈ v.db.deliverables, r.deliverableId = id)
    (h : ∀ t db row ids, Later discipline v t → t.changes = insertChanges db row published ids →
      Planned row t → row.conversationId = a.conversationId → R () t) :
    Keeping Database.apply discipline (createDeliverable a published) R v := by
  unfold createDeliverable
  split_ifs with hscope
  · exact keeping_throw
  · apply keeping_bind
    apply keeping_lockDrafts hchanges htarget howned.step
    intro base t locked ht htchanges hlocked
    apply keeping_bind
    apply keeping_resolveLineage htchanges hlocked
    intro u lineage ids hu huchanges hresolved
    apply keeping_insertDeliverable huchanges hu.inv hresolved ((howned.later ht).later hu)
    intro w db row hw hwchanges hplanned hsame
    exact h w db row ids ((ht.trans hu).trans hw) hwchanges hplanned hsame

end

theorem keeping_revisionTarget {w : DeliverableWrite}
    {R : Option DeliverableRow → DocumentView → Prop} (hchanges : v.changes = [])
    (hinv : WellPlaced v.db) (h : ∀ t target, Later discipline v t → t.changes = [] →
      (∀ id, w.supersedes = some id → ∃ r ∈ t.db.deliverables, r.deliverableId = id) → R target t) :
    Keeping Database.apply discipline (revisionTarget w) R v := by
  unfold revisionTarget
  cases hsupersedes : w.supersedes with
  | none =>
    apply keeping_pure
    apply h v none (.refl hinv) hchanges
    intro id hid
    rw [hsupersedes] at hid
    cases hid
  | some id =>
    apply keeping_bind
    apply keeping_bind
    apply keeping_lockRows
    intro t u ht _ hu huchanges _
    apply keeping_bind
    apply keeping_view
    intro x hx hxchanges
    have hxseen : applyAll Database.apply x.db u.changes = x.db := by
      rw [huchanges, hchanges]
      rfl
    rw [hxseen]
    cases hfind : (x.db.deliverables.find? (·.deliverableId == id)).filter (w.mayRevise x.db) with
    | none => exact keeping_throw
    | some row =>
      apply keeping_pure
      apply keeping_pure
      apply h x (some row) ((ht.trans hu).trans hx)
      · rw [hxchanges, huchanges, hchanges]
      · intro id' hid'
        rw [hsupersedes] at hid'
        cases hid'
        have hrow := Option.eq_some_of_filter_eq_some hfind
        exact ⟨row, mem_of_find?_eq_some hrow, by simpa using find?_some hrow⟩

end Cognis.Documents
