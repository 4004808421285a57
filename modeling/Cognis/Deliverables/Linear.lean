import Cognis.Deliverables.Lineage

namespace Cognis.Deliverables

open Ancestry Bool List Runs

section

variable {db : DeliverableStore} {id : String} {status : DeliverableStatus}

theorem updateDeliverableStatus_cases (db : DeliverableStore) (id : String)
    (status : DeliverableStatus) :
    (updateDeliverableStatus db id status).2 = db ∨ ((∃ r ∈ db.rows, r.deliverableId = id) ∧
        updateDeliverableStatus db id status = (.ok true,
          { db with rows := setStatus (fun r => r.deliverableId == id) status db.rows })) := by
  unfold updateDeliverableStatus
  cases hfind : db.rows.find? (·.deliverableId == id) with
  | none => exact .inl rfl
  | some r =>
    have hid : r.deliverableId = id := by simpa using find?_some hfind
    dsimp only
    split
    · exact .inl rfl
    · exact .inr ⟨⟨r, mem_of_find?_eq_some hfind, hid⟩, rfl⟩

theorem mem_updated {rows : List DeliverableRow} {x : DeliverableRow}
    (hx : x ∈ setStatus (fun r => r.deliverableId == id) status rows) :
    (∃ r ∈ rows, r.deliverableId = id ∧ x = { r with status := status }) ∨
      (x ∈ rows ∧ x.deliverableId ≠ id) := by
  obtain ⟨r, hr, rfl⟩ := mem_setStatus.mp hx
  by_cases hid : r.deliverableId = id
  · left
    exact ⟨r, hr, hid, by rw [if_pos (by simpa using hid)]⟩
  · right
    rw [if_neg (by simpa using hid)]
    exact ⟨hr, hid⟩

theorem Lineal.update (h : Lineal db) (hsafe : RevivesInLine db id status)
    (hmem : ∃ r ∈ db.rows, r.deliverableId = id) :
    Lineal { db with rows := setStatus (fun r => r.deliverableId == id) status db.rows } := by
  obtain ⟨r, hr, hid⟩ := hmem
  obtain ⟨hmarked, hrevived⟩ := hsafe r hr hid
  have hsame : ∀ r' ∈ db.rows, r'.deliverableId = id → r' = r := by
    intro r' hr' hid'
    exact eq_of_id h.table.nodup hr' hr (hid'.trans hid.symm)
  constructor
  · exact h.table.setStatus
  · intro x hx hlive
    rcases mem_updated hx with ⟨r', hr', hid', rfl⟩ | ⟨hx, -⟩
    · obtain rfl := hsame r' hr' hid'
      by_cases hwas : r'.status.isLive
      · exact h.stored r' hr' hwas
      · rw [hid']
        exact (hrevived hlive (by simpa using hwas)).1
    · exact h.stored x hx hlive
  · intro x hx hlive y hy hdesc
    rw [parentOf_setStatus] at hdesc
    -- what the live row descends from was kept before the update
    have hkept : ∀ y ∈ db.rows, Descends (parentOf db.rows) x.deliverableId y.deliverableId →
        y.status ≠ .superseded ∧ y.deliverableId ∈ db.payloads := by
      rcases mem_updated hx with ⟨r', hr', hid', rfl⟩ | ⟨hx, -⟩
      · obtain rfl := hsame r' hr' hid'
        by_cases hwas : r'.status.isLive
        · exact h.kept r' hr' hwas
        · intro y hy hdesc
          rw [hid'] at hdesc
          exact (hrevived hlive (by simpa using hwas)).2.1 y hy hdesc
      · exact h.kept x hx hlive
    rcases mem_updated hy with ⟨r', hr', hid', rfl⟩ | ⟨hy, -⟩
    · obtain rfl := hsame r' hr' hid'
      refine ⟨?_, (hkept r' hr' hdesc).2⟩
      intro hsuperseded
      rw [hid'] at hdesc
      rcases mem_updated hx with ⟨r'', _, _, rfl⟩ | ⟨hx, -⟩
      · rw [hsuperseded] at hlive
        cases hlive
      · exact hmarked hsuperseded x hx hlive hdesc
    · exact hkept y hy hdesc
  · intro x hx y hy hxlive hylive hlin hne
    rw [parentOf_setStatus]
    rcases mem_updated hx with ⟨rx, hrx, hidx, rfl⟩ | ⟨hx, hxid⟩
    · obtain rfl := hsame rx hrx hidx
      rcases mem_updated hy with ⟨ry, hry, hidy, rfl⟩ | ⟨hy, hyid⟩
      · obtain rfl := hsame ry hry hidy
        exact absurd rfl hne
      · by_cases hwas : rx.status.isLive
        · refine h.line rx hrx y hy hwas hylive hlin ?_
          intro heq
          exact hyid (heq ▸ hidx)
        · have hkey := (h.table.lineage_iff hy hrx).mpr hlin.symm
          rw [hidx]
          exact ((hrevived hxlive (by simpa using hwas)).2.2 y hy hylive hkey).symm
    · rcases mem_updated hy with ⟨ry, hry, hidy, rfl⟩ | ⟨hy, _⟩
      · obtain rfl := hsame ry hry hidy
        by_cases hwas : ry.status.isLive
        · refine h.line x hx ry hry hxlive hwas hlin ?_
          intro heq
          exact hxid (heq ▸ hidy)
        · have hkey := (h.table.lineage_iff hx hry).mpr hlin
          rw [hidy]
          exact (hrevived hylive (by simpa using hwas)).2.2 x hx hxlive hkey
      · exact h.line x hx y hy hxlive hylive hlin hne

end

section

variable {rows replaced : List DeliverableRow} {lineage : NewDeliverableLineage}
  {supersedes : Option String} {id : String}

/-- Where a new row stands: after an explicit target, in the place of a replaced draft,
or at the start of a lineage. -/
inductive Place (rows : List DeliverableRow) (supersedes : Option String)
    (replaced : List DeliverableRow) (id : String) (lineage : NewDeliverableLineage) : Prop
  | after (t : DeliverableRow) (htarget : revisionTarget supersedes replaced = some t.deliverableId)
      (hmem : t ∈ rows) (hlive : t.status.isLive = true)
      (hkey : lineage.lineageId = deliverableLineageKey t)
      (hrevision : lineage.revision = t.revisionOrOne + 1)
      (hlink : lineage.supersedesDeliverableId = some t.deliverableId)
  | instead (m : DeliverableRow) (hnone : revisionTarget supersedes replaced = none)
      (hmax : m ∈ replaced.argmax (·.version))
      (hkey : lineage.lineageId = deliverableLineageKey m)
      (hrevision : lineage.revision = m.revisionOrOne)
      (hlink : lineage.supersedesDeliverableId = m.supersedesDeliverableId)
  | start (hnone : revisionTarget supersedes replaced = none) (hempty : replaced = [])
      (hkey : lineage.lineageId = id) (hrevision : lineage.revision = 1)
      (hlink : lineage.supersedesDeliverableId = none)

theorem resolve_place (h : resolveNewDeliverableLineage rows id supersedes replaced = .ok lineage) :
    Place rows supersedes replaced id lineage := by
  unfold resolveNewDeliverableLineage at h
  cases htarget : revisionTarget supersedes replaced with
  | some targetId =>
    rw [htarget] at h
    dsimp only at h
    unfold reviseTarget at h
    cases hfind : rows.find? (·.deliverableId == targetId) with
    | none =>
      rw [hfind] at h
      cases h
    | some t =>
      rw [hfind] at h
      dsimp only at h
      have hid : t.deliverableId = targetId := by simpa using find?_some hfind
      have hmem := mem_of_find?_eq_some hfind
      split at h
      · cases h
      · rename_i hlive
        split at h
        · cases h
        · cases h
          exact .after t (by rw [htarget, hid]) hmem (by simpa using hlive) rfl rfl rfl
  | none =>
    rw [htarget] at h
    cases hmax : replaced.argmax (·.version) with
    | none =>
      rw [hmax] at h
      cases h
      exact .start htarget (argmax_eq_none.mp hmax) rfl rfl rfl
    | some m =>
      rw [hmax] at h
      cases h
      exact .instead m htarget hmax rfl rfl rfl

end

section

variable {db : DeliverableStore} {a : NewDeliverable} {lineage : NewDeliverableLineage}
  {d x y : DeliverableRow}

theorem rowId_ne (a : NewDeliverable) : a.rowId ≠ "" := by
  unfold NewDeliverable.rowId orElse
  split
  · split
    · simp
    · assumption
  · simp

theorem mem_replaced (h : d ∈ a.replaced db) : d ∈ db.rows ∧ d.status.isDraft := by
  unfold NewDeliverable.replaced NewDeliverable.drafts at h
  simp only [mem_filter, and_eq_true] at h
  exact ⟨h.1.1, h.1.2.2⟩

/-- The new state a successful `create_deliverable` commits. -/
def NewDeliverable.committed (a : NewDeliverable) (db : DeliverableStore)
    (lineage : NewDeliverableLineage) : DeliverableStore where
  rows := a.marked db ++ [a.row db lineage]
  payloads := (db.payloads.filter fun id =>
    !(a.replaced db).any (·.deliverableId == id)) ++ [a.rowId]

/-- What `create_deliverable` does: it is refused, with at most the payload saved for it
deleted again, or it inserts the row it has a place for. -/
theorem createDeliverable_cases (db : DeliverableStore) (a : NewDeliverable) :
    ((∃ e, (createDeliverable db a).1 = .error e) ∧
        ((createDeliverable db a).2 = db ∨ (createDeliverable db a).2 = a.rollback db)) ∨
      ∃ lineage, Place db.rows a.supersedesDeliverableId (a.replaced db) a.rowId lineage ∧
        createDeliverable db a = (.ok (a.row db lineage), a.committed db lineage) := by
  unfold createDeliverable
  split
  · exact .inl ⟨⟨_, rfl⟩, .inl rfl⟩
  split
  · exact .inl ⟨⟨_, rfl⟩, .inl rfl⟩
  · cases hresolve : resolveNewDeliverableLineage db.rows a.rowId a.supersedesDeliverableId
        (a.replaced db) with
    | error e => exact .inl ⟨⟨e, rfl⟩, .inl rfl⟩
    | ok lineage =>
      unfold NewDeliverable.insert
      dsimp only
      split
      · exact .inl ⟨⟨_, rfl⟩, .inr rfl⟩
      split
      · exact .inl ⟨⟨_, rfl⟩, .inr rfl⟩
      · exact .inr ⟨lineage, resolve_place hresolve, rfl⟩

theorem mem_marked (h : Table db.rows) : x ∈ a.marked db ↔
      (∃ d ∈ a.replaced db, x = { d with status := .superseded }) ∨
        (x ∈ db.rows ∧ x ∉ a.replaced db) := by
  have hselected : ∀ r ∈ db.rows,
      (((a.replaced db).any (·.deliverableId == r.deliverableId) && r.status.isDraft) ↔
        r ∈ a.replaced db) := by
    intro r hr
    constructor
    · intro hsel
      rw [and_eq_true, any_eq_true] at hsel
      obtain ⟨⟨d, hd, hid⟩, -⟩ := hsel
      rw [← eq_of_id h.nodup (mem_replaced hd).1 hr (by simpa using hid)]
      exact hd
    · intro hmem
      rw [and_eq_true, any_eq_true]
      exact ⟨⟨r, hmem, by simp⟩, (mem_replaced hmem).2⟩
  unfold NewDeliverable.marked
  rw [mem_setStatus]
  constructor
  · rintro ⟨r, hr, rfl⟩
    by_cases hmem : r ∈ a.replaced db
    · rw [if_pos ((hselected r hr).mpr hmem)]
      exact .inl ⟨r, hmem, rfl⟩
    · rw [if_neg (fun hsel => hmem ((hselected r hr).mp hsel))]
      exact .inr ⟨hr, hmem⟩
  · rintro (⟨d, hd, rfl⟩ | ⟨hx, hnot⟩)
    · have hmem := (mem_replaced hd).1
      exact ⟨d, hmem, by rw [if_pos ((hselected d hmem).mpr hd)]⟩
    · exact ⟨x, hx, by rw [if_neg (fun hsel => hnot ((hselected x hx).mp hsel))]⟩

theorem live_marked (h : Table db.rows) (hx : x ∈ a.marked db) (hlive : x.status.isLive) :
    x ∈ db.rows ∧ x ∉ a.replaced db := by
  rcases (mem_marked h).mp hx with ⟨d, -, rfl⟩ | hstays
  · cases hlive
  · exact hstays

theorem Table.marked (h : Table db.rows) (a : NewDeliverable) : Table (a.marked db) :=
  h.setStatus

theorem parentOf_marked : parentOf (a.marked db) = parentOf db.rows := parentOf_setStatus

theorem Placed.marked {r : DeliverableRow} (h : Placed db.rows r) : Placed (a.marked db) r := by
  have hcopy : ∀ t ∈ db.rows, ∃ t' ∈ a.marked db, t'.deliverableId = t.deliverableId ∧
      t'.lineageId = t.lineageId ∧ t'.revision = t.revision := by
    intro t ht
    refine ⟨_, mem_setStatus.mpr ⟨t, ht, rfl⟩, ?_⟩
    split <;> exact ⟨rfl, rfl, rfl⟩
  refine ⟨?_, h.named, h.positive, ?_, ?_⟩
  · intro x hx
    obtain ⟨t, ht, rfl⟩ := mem_setStatus.mp hx
    have hfresh := h.fresh t ht
    split <;> exact hfresh
  · rcases h.rooted with hself | ⟨root, hroot, hkey⟩
    · exact .inl hself
    · obtain ⟨root', hroot', hid, -, -⟩ := hcopy root hroot
      exact .inr ⟨root', hroot', by rw [hkey, hid]⟩
  · intro p hp
    obtain ⟨t, ht, hid, hlin, hrev⟩ := h.linked p hp
    obtain ⟨t', ht', hid', hlin', hrev'⟩ := hcopy t ht
    exact ⟨t', ht', hid'.trans hid, hlin'.trans hlin, by rw [hrev, hrev']⟩

theorem Table.revisionOrOne (h : Table db.rows) (hx : x ∈ db.rows) :
    x.revisionOrOne = x.revision := by
  have hpos := h.positive x hx
  rw [DeliverableRow.revisionOrOne, if_neg (by omega)]

theorem Place.placed (h : Table db.rows) (hfresh : ∀ r ∈ db.rows, r.deliverableId ≠ a.rowId)
    (hplace : Place db.rows a.supersedesDeliverableId (a.replaced db) a.rowId lineage) :
    Placed db.rows (a.row db lineage) := by
  have hold : ∀ t ∈ db.rows, lineage.lineageId = deliverableLineageKey t →
      (a.row db lineage).lineageId = t.lineageId := by
    intro t ht hkey
    rw [h.lineageKey ht, ← hkey]
    rfl
  refine ⟨hfresh, rowId_ne a, ?_, ?_, ?_⟩
  · change 1 ≤ lineage.revision
    cases hplace with
    | after | start => omega
    | instead m _ hmax _ hrevision _ =>
      have hm := (mem_replaced (argmax_mem hmax)).1
      rw [hrevision, h.revisionOrOne hm]
      exact h.positive m hm
  · cases hplace with
    | after t _ hmem _ hkey _ _ =>
      obtain ⟨root, hroot, hlin⟩ := h.rooted t hmem
      exact .inr ⟨root, hroot, (hold t hmem hkey).trans hlin⟩
    | instead m _ hmax hkey _ _ =>
      have hm := (mem_replaced (argmax_mem hmax)).1
      obtain ⟨root, hroot, hlin⟩ := h.rooted m hm
      exact .inr ⟨root, hroot, (hold m hm hkey).trans hlin⟩
    | start _ _ hkey _ _ => exact .inl (congrArg some hkey)
  · intro p hp
    change lineage.supersedesDeliverableId = some p at hp
    change ∃ t ∈ db.rows, _ ∧ _ ∧ lineage.revision = _
    cases hplace with
    | after t _ hmem _ hkey hrevision hlink =>
      rw [hlink] at hp
      refine ⟨t, hmem, Option.some.inj hp, (hold t hmem hkey).symm, ?_⟩
      rw [hrevision, h.revisionOrOne hmem]
    | instead m _ hmax hkey hrevision hlink =>
      have hm := (mem_replaced (argmax_mem hmax)).1
      rw [hlink] at hp
      obtain ⟨t, ht, hid, hlin, hrev⟩ := h.linked m hm p hp
      refine ⟨t, ht, hid, hlin.trans (hold m hm hkey).symm, ?_⟩
      rw [hrevision, h.revisionOrOne hm, hrev]
    | start _ _ _ _ hlink =>
      rw [hlink] at hp
      cases hp

variable {id : String}

theorem Placed.descends_committed_old (h : Table db.rows) (hr : Placed db.rows (a.row db lineage))
    (hx : x ∈ db.rows) :
    Descends (parentOf (a.committed db lineage).rows) x.deliverableId id ↔
      Descends (parentOf db.rows) x.deliverableId id := by
  have hcopy : ∃ x' ∈ a.marked db, x'.deliverableId = x.deliverableId := by
    refine ⟨_, mem_setStatus.mpr ⟨x, hx, rfl⟩, ?_⟩
    split <;> rfl
  obtain ⟨x', hx', hid⟩ := hcopy
  have hold : Descends _ _ id ↔ Descends _ _ id := hr.marked.descends_old (h.marked a) hx'
  rw [hid, parentOf_marked] at hold
  exact hold

theorem Placed.descends_committed_new (h : Table db.rows) (hr : Placed db.rows (a.row db lineage)) :
    Descends (parentOf (a.committed db lineage).rows) a.rowId id ↔
      ∃ q, lineage.supersedesDeliverableId = some q ∧
        (q = id ∨ Descends (parentOf db.rows) q id) := by
  have hnew : Descends _ _ id ↔ ∃ q, _ = some q ∧ (q = id ∨ Descends _ q id) :=
    hr.marked.descends_new (h.marked a)
  rw [parentOf_marked] at hnew
  exact hnew

theorem mem_payloads_committed (hid : id ∈ db.payloads)
    (hstays : ∀ d ∈ a.replaced db, d.deliverableId ≠ id) :
    id ∈ (a.committed db lineage).payloads := by
  apply mem_append_left
  rw [mem_filter]
  refine ⟨hid, ?_⟩
  rw [not_eq_true', any_eq_false]
  intro d hd
  simpa using hstays d hd

theorem id_ne_of_stays (h : Table db.rows) (hx : x ∈ db.rows) (hstays : x ∉ a.replaced db) :
    ∀ d ∈ a.replaced db, d.deliverableId ≠ x.deliverableId := by
  intro d hd hid
  exact hstays (eq_of_id h.nodup (mem_replaced hd).1 hx hid ▸ hd)

variable (h : Lineal db)
include h

theorem kept_committed {P : String → Prop}
    (hkept : ∀ y ∈ db.rows, P y.deliverableId →
      y.status ≠ .superseded ∧ y.deliverableId ∈ db.payloads)
    (hdrafts : ∀ d ∈ a.replaced db, ¬ P d.deliverableId) (hnew : ¬ P a.rowId)
    (hy : y ∈ (a.committed db lineage).rows) (hP : P y.deliverableId) :
    y.status ≠ .superseded ∧ y.deliverableId ∈ (a.committed db lineage).payloads := by
  rcases mem_append.mp hy with hy | hy
  · rcases (mem_marked h.table).mp hy with ⟨d, hd, rfl⟩ | ⟨hy, hstays⟩
    · exact absurd hP (hdrafts d hd)
    · obtain ⟨hstatus, hpayload⟩ := hkept y hy hP
      exact ⟨hstatus, mem_payloads_committed hpayload (id_ne_of_stays h.table hy hstays)⟩
  · obtain rfl : y = a.row db lineage := by simpa using hy
    exact absurd hP hnew

theorem Place.above (hfresh : ∀ r ∈ db.rows, r.deliverableId ≠ a.rowId)
    (hplace : Place db.rows a.supersedesDeliverableId (a.replaced db) a.rowId lineage)
    (hsafe : ReplacesUnrevised db a) (hx : x ∈ db.rows) (hlive : x.status.isLive)
    (hstays : x ∉ a.replaced db) (hlin : x.lineageId = some lineage.lineageId) :
    Descends (parentOf (a.committed db lineage).rows) a.rowId x.deliverableId := by
  have hr := hplace.placed h.table hfresh
  rw [hr.descends_committed_new h.table]
  cases hplace with
  | after t htarget hmem htlive hkey _ hlink =>
    refine ⟨t.deliverableId, hlink, ?_⟩
    by_cases heq : x = t
    · exact .inl (by rw [heq])
    · have hsame : x.lineageId = t.lineageId := by
        rw [hlin, hkey, ← h.table.lineageKey hmem]
      rcases h.line x hx t hmem hlive htlive hsame heq with hdesc | hdesc
      · exact absurd hdesc (hsafe.target _ htarget x hx hlive hstays)
      · exact .inr hdesc
  | instead m hnone hmax hkey _ hlink =>
    have hdraft := argmax_mem hmax
    obtain ⟨hm, hmdraft⟩ := mem_replaced hdraft
    have hne : x ≠ m := fun heq => hstays (heq ▸ hdraft)
    have hsame : x.lineageId = m.lineageId := by
      rw [hlin, hkey, ← h.table.lineageKey hm]
    have hmlive := DeliverableStatus.isLive_of_isDraft hmdraft
    rcases h.line x hx m hm hlive hmlive hsame hne with hdesc | hdesc
    · exact absurd hdesc (hsafe.drafts m hdraft x hx hlive hstays)
    · obtain ⟨q, hq, hrest⟩ := descends_iff.mp hdesc
      rw [parentOf_of_mem h.table.nodup hm] at hq
      exact ⟨q, hlink.trans hq, hrest⟩
  | start _ _ hkey _ _ =>
    obtain ⟨root, hroot, hroots⟩ := h.table.rooted x hx
    rw [hlin, hkey] at hroots
    exact absurd (Option.some.inj hroots).symm (hfresh root hroot)

theorem Place.history
    (hplace : Place db.rows a.supersedesDeliverableId (a.replaced db) a.rowId lineage)
    (hsafe : ReplacesUnrevised db a) :
    (∀ y ∈ db.rows, (∃ q, lineage.supersedesDeliverableId = some q ∧
        (q = y.deliverableId ∨ Descends (parentOf db.rows) q y.deliverableId)) →
      y.status ≠ .superseded ∧ y.deliverableId ∈ db.payloads) ∧
    ∀ d ∈ a.replaced db, ¬ ∃ q, lineage.supersedesDeliverableId = some q ∧
      (q = d.deliverableId ∨ Descends (parentOf db.rows) q d.deliverableId) := by
  cases hplace with
  | after t htarget hmem htlive _ _ hlink =>
    have hstays : t ∉ a.replaced db := by
      intro hreplaced
      rw [revisionTarget, Option.filter_eq_some_iff] at htarget
      have hnot := htarget.2
      rw [not_eq_true', any_eq_false] at hnot
      exact hnot t hreplaced (by simp)
    constructor
    · rintro y hy ⟨q, hq, hdesc⟩
      obtain rfl : t.deliverableId = q := Option.some.inj (hlink.symm.trans hq)
      rcases hdesc with hid | hdesc
      · obtain rfl := eq_of_id h.table.nodup hmem hy hid
        refine ⟨?_, h.stored t hmem htlive⟩
        intro hsuperseded
        rw [hsuperseded] at htlive
        cases htlive
      · exact h.kept t hmem htlive y hy hdesc
    · rintro d hd ⟨q, hq, hdesc⟩
      obtain rfl : t.deliverableId = q := Option.some.inj (hlink.symm.trans hq)
      rcases hdesc with hid | hdesc
      · exact id_ne_of_stays h.table hmem hstays d hd hid.symm
      · exact hsafe.drafts d hd t hmem htlive hstays hdesc
  | instead m hnone hmax _ _ hlink =>
    obtain ⟨hm, hmdraft⟩ := mem_replaced (argmax_mem hmax)
    have hup : ∀ id, (∃ q, lineage.supersedesDeliverableId = some q ∧
        (q = id ∨ Descends (parentOf db.rows) q id)) →
          Descends (parentOf db.rows) m.deliverableId id := by
      rintro id ⟨q, hq, hrest⟩
      apply descends_iff.mpr
      refine ⟨q, ?_, hrest⟩
      rw [parentOf_of_mem h.table.nodup hm, ← hlink, hq]
    constructor
    · intro y hy hdesc
      exact h.kept m hm (DeliverableStatus.isLive_of_isDraft hmdraft) y hy (hup _ hdesc)
    · intro d hd hdesc
      exact hsafe.place hnone m hmax d hd (hup _ hdesc)
  | start _ _ _ _ hlink =>
    constructor
    · rintro y - ⟨q, hq, -⟩
      rw [hlink] at hq
      cases hq
    · rintro d - ⟨q, hq, -⟩
      rw [hlink] at hq
      cases hq

variable (hfresh : ∀ r ∈ db.rows, r.deliverableId ≠ a.rowId)
include hfresh

section

variable (hplace : Place db.rows a.supersedesDeliverableId (a.replaced db) a.rowId lineage)
include hplace

theorem Place.lineal
    (hsafe : ReplacesUnrevised db a) : Lineal (a.committed db lineage) := by
  have hr := hplace.placed h.table hfresh
  have hnoself : ∀ x ∈ db.rows, ¬ Descends (parentOf db.rows) x.deliverableId a.rowId := by
    intro x hx hdesc
    obtain ⟨t, ht, hid, -⟩ := h.table.ancestor hx hdesc
    exact hfresh t ht hid
  have htable : Table (a.committed db lineage).rows := (h.table.marked a).append hr.marked
  have hnew : a.row db lineage ∈ (a.committed db lineage).rows := by
    simp [NewDeliverable.committed]
  have hcases : ∀ x ∈ (a.committed db lineage).rows, x.status.isLive →
      (x ∈ db.rows ∧ x ∉ a.replaced db) ∨ x = a.row db lineage := by
    intro x hx hlive
    rcases mem_append.mp hx with hx | hx
    · exact .inl (live_marked h.table hx hlive)
    · exact .inr (by simpa using hx)
  refine ⟨htable, ?_, ?_, ?_⟩
  · intro x hx hlive
    rcases hcases x hx hlive with ⟨hold, hstays⟩ | rfl
    · exact mem_payloads_committed (h.stored x hold hlive) (id_ne_of_stays h.table hold hstays)
    · simp [NewDeliverable.committed, NewDeliverable.row]
  · intro x hx hlive y hy hdesc
    rcases hcases x hx hlive with ⟨hold, hstays⟩ | rfl
    · rw [hr.descends_committed_old h.table hold] at hdesc
      refine kept_committed h (P := Descends (parentOf db.rows) x.deliverableId)
        (h.kept x hold hlive) ?_ (hnoself x hold) hy hdesc
      intro d hd
      exact hsafe.drafts d hd x hold hlive hstays
    · have hself : ¬ Descends (parentOf (a.committed db lineage).rows) a.rowId a.rowId := by
        intro hloop
        have hlt := htable.revision_lt hnew hnew hloop
        omega
      have hhistory := hplace.history h hsafe
      change Descends _ a.rowId _ at hdesc
      rw [hr.descends_committed_new h.table] at hdesc hself
      exact kept_committed h (P := fun id => ∃ q,
        lineage.supersedesDeliverableId = some q ∧ (q = id ∨ Descends (parentOf db.rows) q id))
        hhistory.1 hhistory.2 hself hy hdesc
  · intro x hx y hy hxlive hylive hlin hne
    rcases hcases x hx hxlive with ⟨hxold, hxstays⟩ | rfl
    · rcases hcases y hy hylive with ⟨hyold, _⟩ | rfl
      · rw [hr.descends_committed_old h.table hxold, hr.descends_committed_old h.table hyold]
        exact h.line x hxold y hyold hxlive hylive hlin hne
      · exact .inr (hplace.above h hfresh hsafe hxold hxlive hxstays hlin)
    · rcases hcases y hy hylive with ⟨hyold, hystays⟩ | rfl
      · exact .inl (hplace.above h hfresh hsafe hyold hylive hystays hlin.symm)
      · exact absurd rfl hne

theorem Place.isHead
    (hsafe : ReplacesUnrevised db a) :
    IsHead (a.committed db lineage).rows (a.row db lineage) := by
  have hnew : a.row db lineage ∈ (a.committed db lineage).rows := by
    simp [NewDeliverable.committed]
  have hlineal := hplace.lineal h hfresh hsafe
  refine ⟨hnew, rfl, ?_⟩
  intro y hy hlive hkey hne
  have hlin := (hlineal.table.lineage_iff hy hnew).mp hkey
  apply hlineal.table.revision_lt hnew hy
  rcases mem_append.mp hy with hmarked | hself
  · obtain ⟨hold, hstays⟩ := live_marked h.table hmarked hlive
    exact hplace.above h hfresh hsafe hold hlive hstays hlin
  · exact absurd (by simpa using hself) hne

theorem Place.replacesUnrevised
    (hhistory : LinearHistory (a.committed db lineage))
    (hhead : IsHead (a.committed db lineage).rows (a.row db lineage)) :
    ReplacesUnrevised db a := by
  have hr := hplace.placed h.table hfresh
  have hnotKept : ∀ d ∈ a.replaced db, ∀ x ∈ (a.committed db lineage).rows, x.status.isLive →
        ¬ Descends (parentOf (a.committed db lineage).rows) x.deliverableId d.deliverableId := by
    intro d hd x hx hlive hdesc
    have hmarked : { d with status := .superseded } ∈ (a.committed db lineage).rows :=
      mem_append_left _ ((mem_marked h.table).mpr (.inl ⟨d, hd, rfl⟩))
    exact (hhistory.kept x hx hlive _ hmarked hdesc).1 rfl
  have hstill : ∀ x ∈ db.rows, x ∉ a.replaced db → x ∈ (a.committed db lineage).rows := by
    intro x hx hstays
    exact mem_append_left _ ((mem_marked h.table).mpr (.inr ⟨hx, hstays⟩))
  constructor
  · intro d hd x hx hlive hstays hdesc
    apply hnotKept d hd x (hstill x hx hstays) hlive
    exact (hr.descends_committed_old h.table hx).mpr hdesc
  · intro id hid x hx hlive hstays hdesc
    cases hplace with
    | after t htarget hmem _ hkey hrevision _ =>
      obtain rfl : t.deliverableId = id := Option.some.inj (htarget.symm.trans hid)
      have hlt := h.table.revision_lt hx hmem hdesc
      obtain ⟨t', ht', hid', hlin, -⟩ := h.table.ancestor hx hdesc
      obtain rfl := eq_of_id h.table.nodup ht' hmem hid'
      have htable : Table (a.committed db lineage).rows := (h.table.marked a).append hr.marked
      have hsame : deliverableLineageKey x = deliverableLineageKey (a.row db lineage) := by
        rw [htable.lineage_iff (hstill x hx hstays) hhead.mem, ← hlin, h.table.lineageKey ht',
          ← hkey]
        rfl
      have hne : x ≠ a.row db lineage := by
        intro heq
        exact hfresh x hx (heq ▸ rfl)
      have hnewest := hhead.newest x (hstill x hx hstays) hlive hsame hne
      change x.revision < lineage.revision at hnewest
      rw [hrevision, h.table.revisionOrOne ht'] at hnewest
      omega
    | instead _ hnone | start hnone => rw [hnone] at hid; cases hid
  · intro hnone m hmax d hd hdesc
    have hm := (mem_replaced (argmax_mem hmax)).1
    apply hnotKept d hd _ hhead.mem hhead.live
    change Descends _ a.rowId _
    rw [hr.descends_committed_new h.table]
    cases hplace with
    | after _ htarget => rw [hnone] at htarget; cases htarget
    | instead m' _ hmax' _ _ hlink =>
      obtain rfl : m' = m := Option.some.inj (hmax'.symm.trans hmax)
      obtain ⟨q, hq, hrest⟩ := descends_iff.mp hdesc
      rw [parentOf_of_mem h.table.nodup hm] at hq
      exact ⟨q, hlink.trans hq, hrest⟩
    | start _ hempty =>
      rw [hempty] at hd
      cases hd

end

theorem Lineal.rollback :
    Lineal (a.rollback db) := by
  have hstays : ∀ x ∈ db.rows, x.deliverableId ∈ db.payloads →
      x.deliverableId ∈ (a.rollback db).payloads := by
    intro x hx hpayload
    exact mem_filter.mpr ⟨hpayload, by simpa using hfresh x hx⟩
  refine ⟨h.table, ?_, ?_, h.line⟩
  · intro x hx hlive
    exact hstays x hx (h.stored x hx hlive)
  · intro x hx hlive y hy hdesc
    obtain ⟨hstatus, hpayload⟩ := h.kept x hx hlive y hy hdesc
    exact ⟨hstatus, hstays y hy hpayload⟩

end

section

variable {db : DeliverableStore} {call : Call}

theorem Lineal.step (h : Lineal db) (horderly : Orderly db call)
    (hsafe : CreatesUnrevised db call) : Lineal (step db call) := by
  cases call with
  | create a =>
    rcases createDeliverable_cases db a with ⟨-, hsame | hrolled⟩ | ⟨lineage, hplace, hok⟩
    · rw [Deliverables.step, hsame]
      exact h
    · rw [Deliverables.step, hrolled]
      exact h.rollback horderly
    · have hcreated : (createDeliverable db a).1 = .ok (a.row db lineage) := by rw [hok]
      rw [Deliverables.step, hok]
      exact hplace.lineal h horderly (hsafe _ hcreated)
  | update id status =>
    rcases updateDeliverableStatus_cases db id status with hsame | ⟨hmem, hok⟩
    · rw [Deliverables.step, hsame]
      exact h
    · rw [Deliverables.step, hok]
      exact h.update (horderly (by rw [hok])) hmem

theorem Lineal.sound_iff (h : Lineal db) (horderly : Orderly db call) :
    Sound db call ↔ CreatesUnrevised db call := by
  constructor
  · intro hsound
    cases call with
    | create a =>
      intro row hrow
      rcases createDeliverable_cases db a with ⟨⟨e, herror⟩, -⟩ | ⟨lineage, hplace, hok⟩
      · rw [herror] at hrow
        cases hrow
      · have hhistory := hsound.history
        have hhead := hsound.head a row rfl hrow
        rw [hok] at hrow
        cases hrow
        rw [Deliverables.step, hok] at hhistory hhead
        exact hplace.replacesUnrevised h horderly hhistory hhead
    | update => trivial
  · intro hsafe
    refine ⟨(h.step horderly hsafe).linearHistory, ?_⟩
    rintro a row rfl hrow
    rcases createDeliverable_cases db a with ⟨⟨e, herror⟩, -⟩ | ⟨lineage, hplace, hok⟩
    · rw [herror] at hrow
      cases hrow
    · have hsafe' := hsafe row hrow
      rw [hok] at hrow
      cases hrow
      rw [Deliverables.step, hok]
      exact hplace.isHead h horderly hsafe'

/-- In an orderly run the lineages stay linear, each new row heading its own, exactly if
no create replaces a draft, or follows a target, that a live row descends from. -/
theorem lineages_linear_iff (calls : List Call) (horderly : Meets step Orderly empty calls) :
    Meets step Sound empty calls ↔ Meets step CreatesUnrevised empty calls :=
  meets_congr_of_invariant Lineal (fun _ _ h ho hs => h.step ho hs)
    (fun _ _ h ho => h.sound_iff ho) lineal_empty horderly

end

/-- A deliverable of a conversation. -/
def inChat (uuidHex : String) (supersedes : Option String) : Call :=
  .create ⟨none, some "c", none, none, none, uuidHex, none, supersedes, none⟩

def inStep (uuidHex : String) : Call :=
  .create ⟨some "s", none, none, none, none, uuidHex, none, none, none⟩

def revisedAgain : List Call :=
  [inChat "1" none, inChat "2" (some "dlv_1"), .update "dlv_2" .rejected, inChat "3" (some "dlv_1")]

theorem lineages_linear_revised_again : Meets step Sound empty revisedAgain := by
  have horderly : Meets step Orderly empty revisedAgain := by
    refine ⟨?_, ?_, ?_, ?_, trivial⟩
    · change ∀ r : DeliverableRow, r ∈ _ → r.deliverableId ≠ _
      decide +kernel
    · change ∀ r : DeliverableRow, r ∈ _ → r.deliverableId ≠ _
      decide +kernel
    · intro _ r _ _
      constructor
      · intro h
        cases h
      · intro h
        cases h
    · change ∀ r : DeliverableRow, r ∈ _ → r.deliverableId ≠ _
      decide +kernel
  refine (lineages_linear_iff revisedAgain horderly).mpr ?_
  -- at every create each live row is a root, and no drafts are replaced
  have hroots : Meets step (fun db call => ∀ a, call = .create a → a.replaced db = [] ∧
      ∀ x ∈ db.rows, x.status.isLive → parentOf db.rows x.deliverableId = none)
      empty revisedAgain := by
    refine ⟨?_, ?_, ?_, ?_, trivial⟩
    · rintro a ⟨⟩
      decide +kernel
    · rintro a ⟨⟩
      decide +kernel
    · rintro a ⟨⟩
    · rintro a ⟨⟩
      decide +kernel
  refine hroots.mono ?_
  intro db call hroot
  cases call with
  | create a =>
    obtain ⟨hnone, hparent⟩ := hroot a rfl
    intro row _
    refine ⟨?_, ?_, ?_⟩
    · rw [hnone]
      exact fun d hd => nomatch hd
    · intro t _ x hx hlive _
      exact not_descends_of_root (hparent x hx hlive)
    · rw [hnone]
      exact fun _ m hm => nomatch hm
  | update => trivial

def redrafted : List Call :=
  [inStep "1", inChat "2" (some "dlv_1"), inChat "3" (some "dlv_2"),
    .update "dlv_2" .rejected, inStep "4"]

/-- The first draft is replaced although a live revision descends from it, and the new
draft is not the head of its lineage. -/
theorem lineages_not_linear : ¬ ∀ calls, Meets step Sound empty calls := by
  intro hclaim
  have hsound := (hclaim redrafted).2.2.2.2.1
  obtain ⟨row, hrow, hkey, hrevision⟩ :
      ∃ row, (createDeliverable (run step empty (redrafted.take 4))
          ⟨some "s", none, none, none, none, "4", none, none, none⟩).1 = .ok row ∧
        deliverableLineageKey row = "dlv_1" ∧ row.revision = 1 := ⟨_, rfl, by decide, rfl⟩
  have hhead := hsound.head _ row rfl hrow
  obtain ⟨y, hy, hlive, hykey, hyrevision⟩ : ∃ y ∈ (run step empty redrafted).rows,
      y.status.isLive ∧ deliverableLineageKey y = "dlv_1" ∧ y.revision = 3 := by
    decide +kernel
  have hne : y ≠ row := by
    intro heq
    rw [heq, hrevision] at hyrevision
    cases hyrevision
  have hlt := hhead.newest y hy hlive (hykey.trans hkey.symm) hne
  omega

end Cognis.Deliverables
