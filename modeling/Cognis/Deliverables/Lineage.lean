import Mathlib.Data.List.Nodup
import Cognis.Library.Runs
import Cognis.Deliverables.Revision

namespace Cognis.Deliverables

open Ancestry List Runs

def parentOf (rows : List DeliverableRow) (id : String) : Option String :=
  (rows.find? (·.deliverableId == id)).bind (·.supersedesDeliverableId)

/-- What the columns of the table satisfy, whatever the statuses are. -/
structure Table (rows : List DeliverableRow) : Prop where
  nodup : (rows.map (·.deliverableId)).Nodup
  named : ∀ r ∈ rows, r.deliverableId ≠ ""
  positive : ∀ r ∈ rows, 1 ≤ r.revision
  rooted : ∀ r ∈ rows, ∃ root ∈ rows, r.lineageId = some root.deliverableId
  linked : ∀ r ∈ rows, ∀ p, r.supersedesDeliverableId = some p →
    ∃ t ∈ rows, t.deliverableId = p ∧ t.lineageId = r.lineageId ∧ r.revision = t.revision + 1

section

variable {rows : List DeliverableRow} {r x y : DeliverableRow}

theorem find?_id (h : (rows.map (·.deliverableId)).Nodup) (hr : r ∈ rows) :
    rows.find? (·.deliverableId == r.deliverableId) = some r := by
  induction rows with
  | nil => cases hr
  | cons a rows ih =>
    rw [map_cons, nodup_cons] at h
    rw [find?_cons]
    rcases mem_cons.mp hr with rfl | hr
    · simp
    · have hne : a.deliverableId ≠ r.deliverableId := by
        intro heq
        exact h.1 (heq ▸ mem_map_of_mem hr)
      rw [beq_false_of_ne hne]
      exact ih h.2 hr

theorem eq_of_id (h : (rows.map (·.deliverableId)).Nodup) (hx : x ∈ rows) (hy : y ∈ rows)
    (hid : x.deliverableId = y.deliverableId) : x = y := by
  have hfind := find?_id h hx
  rw [hid, find?_id h hy] at hfind
  exact (Option.some.inj hfind).symm

theorem parentOf_of_mem (h : (rows.map (·.deliverableId)).Nodup) (hr : r ∈ rows) :
    parentOf rows r.deliverableId = r.supersedesDeliverableId := by
  rw [parentOf, find?_id h hr]
  rfl

theorem mem_of_parentOf {id p : String} (h : parentOf rows id = some p) :
    ∃ r ∈ rows, r.deliverableId = id ∧ r.supersedesDeliverableId = some p := by
  rw [parentOf, Option.bind_eq_some_iff] at h
  obtain ⟨r, hr, hp⟩ := h
  have hid := find?_some hr
  exact ⟨r, mem_of_find?_eq_some hr, by simpa using hid, hp⟩

end

section

variable {rows : List DeliverableRow} {where_ : DeliverableRow → Bool}
  {status : DeliverableStatus}

@[simp] theorem map_id_setStatus :
    (setStatus where_ status rows).map (·.deliverableId) = rows.map (·.deliverableId) := by
  rw [setStatus, map_map]
  apply map_congr_left
  intro r _
  rw [Function.comp_apply]
  split <;> rfl

theorem mem_setStatus {x : DeliverableRow} : x ∈ setStatus where_ status rows ↔
      ∃ r ∈ rows, x = if where_ r then { r with status := status } else r := by
  rw [setStatus, mem_map]
  simp only [eq_comm]

theorem parentOf_setStatus : parentOf (setStatus where_ status rows) = parentOf rows := by
  funext id
  rw [parentOf, parentOf, setStatus]
  induction rows with
  | nil => rfl
  | cons a rows ih =>
    rw [map_cons, find?_cons, find?_cons]
    by_cases ha : where_ a
    · rw [if_pos ha]
      cases a.deliverableId == id with
      | true => rfl
      | false => exact ih
    · rw [if_neg ha]
      cases a.deliverableId == id with
      | true => rfl
      | false => exact ih

theorem Table.setStatus (h : Table rows) : Table (setStatus where_ status rows) := by
  have hcopy : ∀ r ∈ rows, ∃ x ∈ Deliverables.setStatus where_ status rows,
      x.deliverableId = r.deliverableId ∧ x.lineageId = r.lineageId ∧ x.revision = r.revision := by
    intro r hr
    refine ⟨_, mem_setStatus.mpr ⟨r, hr, rfl⟩, ?_⟩
    split <;> exact ⟨rfl, rfl, rfl⟩
  have hback : ∀ x ∈ Deliverables.setStatus where_ status rows, ∃ r ∈ rows,
      x.deliverableId = r.deliverableId ∧ x.lineageId = r.lineageId ∧
        x.revision = r.revision ∧ x.supersedesDeliverableId = r.supersedesDeliverableId := by
    intro x hx
    obtain ⟨r, hr, rfl⟩ := mem_setStatus.mp hx
    refine ⟨r, hr, ?_⟩
    split <;> exact ⟨rfl, rfl, rfl, rfl⟩
  constructor
  · rw [map_id_setStatus]
    exact h.nodup
  · intro x hx
    obtain ⟨r, hr, hid, -, -, -⟩ := hback x hx
    rw [hid]
    exact h.named r hr
  · intro x hx
    obtain ⟨r, hr, -, -, hrev, -⟩ := hback x hx
    rw [hrev]
    exact h.positive r hr
  · intro x hx
    obtain ⟨r, hr, -, hlin, -, -⟩ := hback x hx
    obtain ⟨root, hroot, hkey⟩ := h.rooted r hr
    obtain ⟨root', hroot', hid, -, -⟩ := hcopy root hroot
    exact ⟨root', hroot', by rw [hlin, hkey, hid]⟩
  · intro x hx p hp
    obtain ⟨r, hr, -, hlin, hrev, hsup⟩ := hback x hx
    obtain ⟨t, ht, hid, hkey, hnext⟩ := h.linked r hr p (hsup ▸ hp)
    obtain ⟨t', ht', hid', hkey', hrev'⟩ := hcopy t ht
    exact ⟨t', ht', hid'.trans hid, by rw [hkey', hkey, hlin], by rw [hrev, hnext, hrev']⟩

end

section

variable {rows : List DeliverableRow} {r x y : DeliverableRow}

section

variable (h : Table rows)
include h

theorem Table.lineageKey (hr : r ∈ rows) :
    r.lineageId = some (deliverableLineageKey r) := by
  obtain ⟨root, hroot, hlin⟩ := h.rooted r hr
  have hne := h.named root hroot
  rw [deliverableLineageKey, hlin, orElse, if_neg hne]

theorem Table.lineage_iff (hx : x ∈ rows) (hy : y ∈ rows) :
    deliverableLineageKey x = deliverableLineageKey y ↔ x.lineageId = y.lineageId := by
  rw [h.lineageKey hx, h.lineageKey hy, Option.some_inj]

theorem Table.ancestor (hr : r ∈ rows) {id : String}
    (hdesc : Descends (parentOf rows) r.deliverableId id) :
    ∃ t ∈ rows, t.deliverableId = id ∧ t.lineageId = r.lineageId ∧ t.revision < r.revision := by
  obtain ⟨p, hp, hrest⟩ := descends_iff.mp hdesc
  rw [parentOf_of_mem h.nodup hr] at hp
  obtain ⟨t, ht, hid, hlin, hrev⟩ := h.linked r hr p hp
  have hfirst : ∃ t ∈ rows, t.deliverableId = p ∧ t.lineageId = r.lineageId ∧
      t.revision < r.revision := ⟨t, ht, hid, hlin, by omega⟩
  rcases hrest with rfl | hrest
  · exact hfirst
  · refine Descends.lift (P := fun id => ∃ t ∈ rows, t.deliverableId = id ∧
      t.lineageId = r.lineageId ∧ t.revision < r.revision) ?_ hrest hfirst
    rintro a b hab ⟨s, hs, rfl, hslin, hsrev⟩
    rw [parentOf_of_mem h.nodup hs] at hab
    obtain ⟨u, hu, huid, hulin, hurev⟩ := h.linked s hs b hab
    exact ⟨u, hu, huid, hulin.trans hslin, by omega⟩

theorem Table.revision_lt (hx : x ∈ rows) (hy : y ∈ rows)
    (hdesc : Descends (parentOf rows) x.deliverableId y.deliverableId) :
    y.revision < x.revision := by
  obtain ⟨t, ht, hid, -, hlt⟩ := h.ancestor hx hdesc
  rw [← eq_of_id h.nodup ht hy hid]
  exact hlt

theorem Table.no_dangling {id : String}
    (hfresh : ∀ r ∈ rows, r.deliverableId ≠ id) : ∀ x, parentOf rows x ≠ some id := by
  intro x hx
  obtain ⟨r, hr, -, hp⟩ := mem_of_parentOf hx
  obtain ⟨t, ht, hid, -⟩ := h.linked r hr id hp
  exact hfresh t ht hid

end

theorem parentOf_append (hfresh : ∀ x ∈ rows, x.deliverableId ≠ r.deliverableId) :
    parentOf (rows ++ [r]) =
      Function.update (parentOf rows) r.deliverableId r.supersedesDeliverableId := by
  funext id
  rw [parentOf, find?_append]
  by_cases hid : id = r.deliverableId
  · subst hid
    have hnone : rows.find? (·.deliverableId == r.deliverableId) = none := by
      rw [find?_eq_none]
      intro x hx
      simpa using hfresh x hx
    rw [hnone, Function.update_self]
    simp
  · rw [Function.update_of_ne hid, parentOf]
    have hother : [r].find? (·.deliverableId == id) = none := by
      simp [Ne.symm hid]
    rw [hother, Option.or_none]

end

section

variable {rows : List DeliverableRow} {r x y : DeliverableRow} {id : String}

/-- A new row that fits in: a root, or the next revision of a row. -/
structure Placed (rows : List DeliverableRow) (r : DeliverableRow) : Prop where
  fresh : ∀ x ∈ rows, x.deliverableId ≠ r.deliverableId
  named : r.deliverableId ≠ ""
  positive : 1 ≤ r.revision
  rooted : r.lineageId = some r.deliverableId ∨ ∃ root ∈ rows, r.lineageId = some root.deliverableId
  linked : ∀ p, r.supersedesDeliverableId = some p →
    ∃ t ∈ rows, t.deliverableId = p ∧ t.lineageId = r.lineageId ∧ r.revision = t.revision + 1

theorem Table.append (h : Table rows) (hr : Placed rows r) : Table (rows ++ [r]) := by
  have hold : ∀ {x}, x ∈ rows → x ∈ rows ++ [r] := fun hx => mem_append_left _ hx
  have hself : r ∈ rows ++ [r] := by simp
  have hcases : ∀ {x}, x ∈ rows ++ [r] → x ∈ rows ∨ x = r := by
    intro x hx
    simpa using hx
  constructor
  · rw [map_append, nodup_append]
    refine ⟨h.nodup, by simp, ?_⟩
    intro a ha b hb
    obtain ⟨x, hx, rfl⟩ := mem_map.mp ha
    obtain rfl : b = r.deliverableId := by simpa using hb
    exact hr.fresh x hx
  · intro x hx
    rcases hcases hx with hx | rfl
    · exact h.named x hx
    · exact hr.named
  · intro x hx
    rcases hcases hx with hx | rfl
    · exact h.positive x hx
    · exact hr.positive
  · intro x hx
    rcases hcases hx with hx | rfl
    · obtain ⟨root, hroot, hkey⟩ := h.rooted x hx
      exact ⟨root, hold hroot, hkey⟩
    · rcases hr.rooted with hkey | ⟨root, hroot, hkey⟩
      · exact ⟨x, hself, hkey⟩
      · exact ⟨root, hold hroot, hkey⟩
  · intro x hx p hp
    rcases hcases hx with hx | rfl
    · obtain ⟨t, ht, hrest⟩ := h.linked x hx p hp
      exact ⟨t, hold ht, hrest⟩
    · obtain ⟨t, ht, hrest⟩ := hr.linked p hp
      exact ⟨t, hold ht, hrest⟩

theorem Placed.descends_old (h : Table rows) (hr : Placed rows r) (hx : x ∈ rows) :
    Descends (parentOf (rows ++ [r])) x.deliverableId id ↔
      Descends (parentOf rows) x.deliverableId id := by
  rw [parentOf_append hr.fresh]
  exact descends_update_of_ne (h.no_dangling hr.fresh) (hr.fresh x hx)

theorem Placed.descends_new (h : Table rows) (hr : Placed rows r) :
    Descends (parentOf (rows ++ [r])) r.deliverableId id ↔ ∃ q, r.supersedesDeliverableId = some q ∧
        (q = id ∨ Descends (parentOf rows) q id) := by
  rw [parentOf_append hr.fresh]
  apply descends_update_self (h.no_dangling hr.fresh)
  intro hself
  obtain ⟨t, ht, hid, -⟩ := hr.linked _ hself
  exact hr.fresh t ht hid

end

/-- The newest live row of its lineage. -/
structure IsHead (rows : List DeliverableRow) (row : DeliverableRow) : Prop where
  mem : row ∈ rows
  live : row.status.isLive = true
  newest : ∀ y ∈ rows, y.status.isLive = true →
    deliverableLineageKey y = deliverableLineageKey row → y ≠ row → y.revision < row.revision

/-- The history of every document is linear: no two live rows of a lineage share a
revision number, and what a live row descends from is kept with its payload. -/
structure LinearHistory (db : DeliverableStore) : Prop where
  distinct : ∀ x ∈ db.rows, ∀ y ∈ db.rows, x.status.isLive = true → y.status.isLive = true →
    deliverableLineageKey x = deliverableLineageKey y → x.revision = y.revision → x = y
  kept : ∀ x ∈ db.rows, x.status.isLive = true → ∀ y ∈ db.rows,
    Descends (parentOf db.rows) x.deliverableId y.deliverableId →
      y.status ≠ .superseded ∧ y.deliverableId ∈ db.payloads

/-- What is promised of a call: the history is linear after it, and a deliverable
it creates is the head of its lineage. -/
structure Sound (db : DeliverableStore) (call : Call) : Prop where
  history : LinearHistory (step db call)
  head : ∀ a row, call = .create a → (createDeliverable db a).1 = .ok row →
    IsHead (step db call).rows row

variable (db : DeliverableStore)

/-- The draft, live row or target `y` may lose its place: no row that stays live
descends from it. -/
def Unrevised (a : NewDeliverable) (id : String) : Prop :=
  ∀ x ∈ db.rows, x.status.isLive = true → x ∉ a.replaced db →
    ¬ Descends (parentOf db.rows) x.deliverableId id

/-- What the tests of `create_deliverable` miss when they look one link down: no
revision that stays live descends from a replaced draft or from the explicit target,
and the draft whose place is taken descends from no other replaced draft. -/
structure ReplacesUnrevised (db : DeliverableStore) (a : NewDeliverable) : Prop where
  drafts : ∀ d ∈ a.replaced db, Unrevised db a d.deliverableId
  target : ∀ t, revisionTarget a.supersedesDeliverableId (a.replaced db) = some t → Unrevised db a t
  place : revisionTarget a.supersedesDeliverableId (a.replaced db) = none →
    ∀ m ∈ (a.replaced db).argmax (·.version), ∀ d ∈ a.replaced db,
      ¬ Descends (parentOf db.rows) m.deliverableId d.deliverableId

def CreatesUnrevised : Call → Prop
  | .create a => ∀ row, (createDeliverable db a).1 = .ok row → ReplacesUnrevised db a
  | .update _ _ => True

/-- A status update that is not refused marks no row superseded that a live one
descends from, and brings a row back to life only in line with the live rows of its
lineage and with its own history kept. -/
def RevivesInLine (id : String) (status : DeliverableStatus) : Prop :=
  ∀ r ∈ db.rows, r.deliverableId = id →
    (status = .superseded → ∀ x ∈ db.rows, x.status.isLive = true →
      ¬ Descends (parentOf db.rows) x.deliverableId id) ∧
    (status.isLive = true → r.status.isLive = false → id ∈ db.payloads ∧
      (∀ y ∈ db.rows, Descends (parentOf db.rows) id y.deliverableId →
        y.status ≠ .superseded ∧ y.deliverableId ∈ db.payloads) ∧
      ∀ x ∈ db.rows, x.status.isLive = true → deliverableLineageKey x = deliverableLineageKey r →
          Descends (parentOf db.rows) x.deliverableId id ∨
            Descends (parentOf db.rows) id x.deliverableId)

def Orderly : Call → Prop
  | .create a => ∀ r ∈ db.rows, r.deliverableId ≠ a.rowId
  | .update id status =>
    (updateDeliverableStatus db id status).1 = .ok true → RevivesInLine db id status

/-- The live rows of a lineage stand in one line, with their payloads stored. -/
structure Lineal (db : DeliverableStore) : Prop where
  table : Table db.rows
  stored : ∀ x ∈ db.rows, x.status.isLive = true → x.deliverableId ∈ db.payloads
  kept : ∀ x ∈ db.rows, x.status.isLive = true → ∀ y ∈ db.rows,
    Descends (parentOf db.rows) x.deliverableId y.deliverableId →
      y.status ≠ .superseded ∧ y.deliverableId ∈ db.payloads
  line : ∀ x ∈ db.rows, ∀ y ∈ db.rows, x.status.isLive = true → y.status.isLive = true →
    x.lineageId = y.lineageId → x ≠ y →
      Descends (parentOf db.rows) x.deliverableId y.deliverableId ∨
        Descends (parentOf db.rows) y.deliverableId x.deliverableId

theorem Lineal.linearHistory {db : DeliverableStore} (h : Lineal db) : LinearHistory db := by
  constructor
  · intro x hx y hy hxlive hylive hkey hrev
    by_contra hne
    have hlin := (h.table.lineage_iff hx hy).mp hkey
    rcases h.line x hx y hy hxlive hylive hlin hne with hdesc | hdesc
    · have hlt := h.table.revision_lt hx hy hdesc
      omega
    · have hlt := h.table.revision_lt hy hx hdesc
      omega
  · exact h.kept

theorem lineal_empty : Lineal empty := by
  constructor
  · constructor <;> simp [empty]
  · simp [empty]
  · simp [empty]
  · simp [empty]

end Cognis.Deliverables
