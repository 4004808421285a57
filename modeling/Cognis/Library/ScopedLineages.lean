import Mathlib.Data.List.Nodup

universe u v

/-! Rows with a lineage and a scope: the revisions of a lineage share the scope of its root. -/

namespace ScopedLineages

open List

structure Entry (ι : Type u) (π : Type v) where
  id : ι
  lineage : Option ι
  scope : π
  deriving DecidableEq

variable {ι : Type u} {π : Type v} {rows rows' rows'' : List (Entry ι π)} {e e' : Entry ι π}
  {l : ι} {p : π}

/-- Every row has a root in the table, and every lineage one scope. -/
structure Placed (rows : List (Entry ι π)) : Prop where
  nodup : (rows.map (·.id)).Nodup
  rooted : ∀ e ∈ rows, ∃ root ∈ rows, e.lineage = some root.id ∧ root.lineage = some root.id
  uniform : ∀ e ∈ rows, ∀ e' ∈ rows, e.lineage = e'.lineage → e.scope = e'.scope

theorem placed_nil : Placed ([] : List (Entry ι π)) where
  nodup := nodup_nil
  rooted := by
    intro e he
    cases he
  uniform := by
    intro e he
    cases he

theorem Placed.root (h : Placed rows) (he : e ∈ rows) (hl : e.lineage = some l) :
    ∃ root ∈ rows, root.id = l ∧ root.lineage = some l ∧ root.scope = e.scope := by
  obtain ⟨root, hroot, hkey, hself⟩ := h.rooted e he
  have hid : l = root.id := Option.some.inj (hl.symm.trans hkey)
  subst hid
  exact ⟨root, hroot, rfl, hself, h.uniform root hroot e he (hself.trans hkey.symm)⟩

/-- A row may join the rows of its own scope. -/
theorem Placed.insert (h : Placed rows) (hnew : ∀ x ∈ rows, x.id ≠ e.id)
    (hroot : ∃ root ∈ rows ++ [e], e.lineage = some root.id ∧ root.lineage = some root.id)
    (hscope : ∀ x ∈ rows, x.lineage = e.lineage → x.scope = e.scope) : Placed (rows ++ [e]) where
  nodup := by
    rw [map_append]
    apply nodup_append'.mpr
    refine ⟨h.nodup, nodup_singleton _, ?_⟩
    intro id hid hin
    obtain ⟨x, hx, rfl⟩ := mem_map.mp hid
    exact hnew x hx (mem_singleton.mp hin)
  rooted := by
    intro x hx
    rcases mem_append.mp hx with hold | hlast
    · obtain ⟨root, hroot, hkey⟩ := h.rooted x hold
      exact ⟨root, mem_append_left _ hroot, hkey⟩
    · rwa [mem_singleton.mp hlast]
  uniform := by
    intro x hx y hy heq
    rcases mem_append.mp hx with hx | hx
    · rcases mem_append.mp hy with hy | hy
      · exact h.uniform x hx y hy heq
      · rw [mem_singleton.mp hy] at heq ⊢
        exact hscope x hx heq
    · rw [mem_singleton.mp hx] at heq ⊢
      rcases mem_append.mp hy with hy | hy
      · exact (hscope y hy heq.symm).symm
      · rw [mem_singleton.mp hy]

theorem Placed.insertRoot (h : Placed rows) (hnew : ∀ x ∈ rows, x.id ≠ e.id)
    (hself : e.lineage = some e.id) : Placed (rows ++ [e]) := by
  refine h.insert hnew ⟨e, mem_append_right _ (mem_singleton_self e), hself, hself⟩ ?_
  intro x hx heq
  obtain ⟨root, hroot, hid, -, -⟩ := h.root hx (heq.trans hself)
  exact absurd hid (hnew root hroot)

theorem Placed.insertRevision (h : Placed rows) (hnew : ∀ x ∈ rows, x.id ≠ e.id)
    (he' : e' ∈ rows) (hlineage : e.lineage = e'.lineage) (hscope : e.scope = e'.scope) :
    Placed (rows ++ [e]) := by
  obtain ⟨root, hroot, hkey, hself⟩ := h.rooted e' he'
  refine h.insert hnew ⟨root, mem_append_left _ hroot, hlineage.trans hkey, hself⟩ ?_
  intro x hx heq
  exact (h.uniform x hx e' he' (heq.trans hlineage)).trans hscope.symm

section

variable [DecidableEq ι]

def Entry.moved (ids : List ι) (p : π) (e : Entry ι π) : Entry ι π :=
  if ids.contains e.id then { e with scope := p } else e

variable {ids : List ι}

@[simp] theorem Entry.id_moved : (e.moved ids p).id = e.id := by
  unfold Entry.moved
  split <;> rfl

@[simp] theorem Entry.lineage_moved : (e.moved ids p).lineage = e.lineage := by
  unfold Entry.moved
  split <;> rfl

theorem Entry.moved_of_mem (h : e.id ∈ ids) : (e.moved ids p).scope = p := by
  unfold Entry.moved
  rw [if_pos (contains_iff_mem.mpr h)]

theorem Entry.moved_of_not_mem (h : e.id ∉ ids) : e.moved ids p = e := by
  unfold Entry.moved
  rw [if_neg fun hmem => h (contains_iff_mem.mp hmem)]

theorem Placed.moved (h : Placed rows)
    (hwhole : ∀ e ∈ rows, ∀ e' ∈ rows, e.lineage = e'.lineage → e.id ∈ ids → e'.id ∈ ids) :
    Placed (rows.map (Entry.moved ids p)) where
  nodup := by
    have hids : (rows.map (Entry.moved ids p)).map (·.id) = rows.map (·.id) := by
      rw [map_map]
      apply map_congr_left
      intro e _
      exact Entry.id_moved
    rw [hids]
    exact h.nodup
  rooted := by
    intro x hx
    obtain ⟨e, he, rfl⟩ := mem_map.mp hx
    obtain ⟨root, hroot, hkey, hself⟩ := h.rooted e he
    refine ⟨root.moved ids p, mem_map_of_mem hroot, ?_, ?_⟩
    · rw [Entry.lineage_moved, Entry.id_moved, hkey]
    · rw [Entry.lineage_moved, Entry.id_moved, hself]
  uniform := by
    intro x hx y hy heq
    obtain ⟨e, he, rfl⟩ := mem_map.mp hx
    obtain ⟨e', he', rfl⟩ := mem_map.mp hy
    rw [Entry.lineage_moved, Entry.lineage_moved] at heq
    by_cases hin : e.id ∈ ids
    · rw [Entry.moved_of_mem hin, Entry.moved_of_mem (hwhole e he e' he' heq hin)]
    · have hout : e'.id ∉ ids := fun hin' => hin (hwhole e' he' e he heq.symm hin')
      rw [Entry.moved_of_not_mem hin, Entry.moved_of_not_mem hout]
      exact h.uniform e he e' he' heq

end

def KeepsLineage (l : ι) (rows rows' : List (Entry ι π)) : Prop :=
  (∃ e ∈ rows, e.id = l) →
    (∃ e ∈ rows', e.id = l) ∧ ∀ e : Entry ι π, e.lineage = some l → (e ∈ rows' ↔ e ∈ rows)

theorem KeepsLineage.refl : KeepsLineage l rows rows := by
  intro hexists
  exact ⟨hexists, fun _ _ => Iff.rfl⟩

theorem KeepsLineage.trans (h : KeepsLineage l rows rows') (h' : KeepsLineage l rows' rows'') :
    KeepsLineage l rows rows'' := by
  intro hexists
  obtain ⟨hexists', hsame⟩ := h hexists
  obtain ⟨hexists'', hsame'⟩ := h' hexists'
  exact ⟨hexists'', fun e he => (hsame' e he).trans (hsame e he)⟩

theorem KeepsLineage.append (h : (∃ x ∈ rows, x.id = l) → e.lineage ≠ some l) :
    KeepsLineage l rows (rows ++ [e]) := by
  intro hexists
  constructor
  · obtain ⟨x, hx, hid⟩ := hexists
    exact ⟨x, mem_append_left _ hx, hid⟩
  · intro x hlineage
    constructor
    · intro hx
      rcases mem_append.mp hx with hold | hlast
      · exact hold
      · rw [mem_singleton.mp hlast] at hlineage
        exact absurd hlineage (h hexists)
    · intro hx
      exact mem_append_left _ hx

theorem KeepsLineage.moved [DecidableEq ι] {ids : List ι}
    (h : ∀ e ∈ rows, e.lineage = some l → e.id ∉ ids) :
    KeepsLineage l rows (rows.map (Entry.moved ids p)) := by
  intro hexists
  constructor
  · obtain ⟨x, hx, hid⟩ := hexists
    exact ⟨x.moved ids p, mem_map_of_mem hx, Entry.id_moved.trans hid⟩
  · intro e hlineage
    constructor
    · intro he
      obtain ⟨x, hx, hmoved⟩ := mem_map.mp he
      have hkey : x.lineage = some l := by
        have hsame : (x.moved ids p).lineage = x.lineage := Entry.lineage_moved
        rw [← hsame, hmoved]
        exact hlineage
      rw [Entry.moved_of_not_mem (h x hx hkey)] at hmoved
      rw [← hmoved]
      exact hx
    · intro he
      exact mem_map.mpr ⟨e, he, Entry.moved_of_not_mem (h e he hlineage)⟩

/-- The row is of a lineage whose root is one of `roots` and has the scope. -/
def Follows (rows : List (Entry ι π)) (roots : ι → Prop) (p : π) (e : Entry ι π) : Prop :=
  ∃ root ∈ rows, roots root.id ∧ root.lineage = some root.id ∧ root.scope = p ∧
    e.lineage = some root.id

variable {roots roots' : ι → Prop}

theorem Follows.scope (h : Placed rows) (he : e ∈ rows) (hfollows : Follows rows roots p e) :
    e.scope = p := by
  obtain ⟨root, hroot, -, hself, hscope, hlineage⟩ := hfollows
  rw [← hscope]
  exact h.uniform e he root hroot (hlineage.trans hself.symm)

theorem follows_iff (hkeeps : ∀ root ∈ rows, roots root.id → KeepsLineage root.id rows rows')
    (hforth : ∀ id, roots id → roots' id)
    (hback : ∀ id, roots' id → roots id ∧ ∃ root ∈ rows, root.id = id) :
    (e ∈ rows ∧ Follows rows roots p e) ↔ e ∈ rows' ∧ Follows rows' roots' p e := by
  constructor
  · rintro ⟨he, root, hroot, hmem, hself, hscope, hlineage⟩
    obtain ⟨-, hsame⟩ := hkeeps root hroot hmem ⟨root, hroot, rfl⟩
    exact ⟨(hsame e hlineage).mpr he, root, (hsame root hself).mpr hroot, hforth _ hmem, hself,
      hscope, hlineage⟩
  · rintro ⟨he, root, hroot, hmem, hself, hscope, hlineage⟩
    obtain ⟨hmem', x, hx, hid⟩ := hback root.id hmem
    have hkeep := hkeeps x hx (hid.symm ▸ hmem')
    rw [hid] at hkeep
    obtain ⟨-, hsame⟩ := hkeep ⟨x, hx, hid⟩
    exact ⟨(hsame e hlineage).mp he, root, (hsame root hself).mp hroot, hmem', hself, hscope,
      hlineage⟩

section

variable {ρ : Type*} {entry : ρ → Entry ι π} {table table' chosen chosen' : List ρ} {r r' : ρ}
  {id : ι}

theorem Placed.row_eq (h : Placed (table.map entry)) (hr : r ∈ table) (hr' : r' ∈ table)
    (hid : (entry r).id = (entry r').id) : r = r' := by
  have hnodup := h.nodup
  rw [map_map] at hnodup
  exact inj_on_of_nodup_map hnodup hr hr' hid

def Started (entry : ρ → Entry ι π) (chosen : List ρ) (id : ι) : Prop :=
  ∃ root ∈ chosen, (entry root).id = id

def Following (entry : ρ → Entry ι π) (chosen : List ρ) (p : π) (r : ρ) : Prop :=
  ∃ root ∈ chosen, (entry root).scope = p ∧ (entry r).lineage = some (entry root).id

/-- Some roots of a table of rows. -/
structure Roots (entry : ρ → Entry ι π) (table chosen : List ρ) : Prop where
  placed : Placed (table.map entry)
  mem : ∀ root ∈ chosen, root ∈ table
  own : ∀ root ∈ chosen, (entry root).lineage = some (entry root).id

variable (h : Roots entry table chosen)
include h

theorem Roots.following_iff : Following entry chosen p r ↔
      Follows (table.map entry) (Started entry chosen) p (entry r) := by
  constructor
  · rintro ⟨root, hroot, hscope, hlineage⟩
    exact ⟨entry root, mem_map_of_mem (h.mem root hroot), ⟨root, hroot, rfl⟩, h.own root hroot,
      hscope, hlineage⟩
  · rintro ⟨e, he, ⟨root, hroot, hid⟩, -, hscope, hlineage⟩
    obtain ⟨x, hx, rfl⟩ := mem_map.mp he
    obtain rfl := h.placed.row_eq (h.mem root hroot) hx hid
    exact ⟨root, hroot, hscope, hlineage⟩

theorem Roots.gathered_iff :
    (∃ r ∈ table, (entry r).id = id ∧ Following entry chosen p r) ↔ ∃ e : Entry ι π, e.id = id ∧
      e ∈ table.map entry ∧ Follows (table.map entry) (Started entry chosen) p e := by
  constructor
  · rintro ⟨r, hr, hid, hfollowing⟩
    exact ⟨entry r, hid, mem_map_of_mem hr, h.following_iff.mp hfollowing⟩
  · rintro ⟨e, hid, he, hfollows⟩
    obtain ⟨r, hr, rfl⟩ := mem_map.mp he
    exact ⟨r, hr, hid, h.following_iff.mpr hfollows⟩

/-- The rows that follow stay the same while the lineages of the roots are kept. -/
theorem Roots.gathered_congr (h' : Roots entry table' chosen')
    (hkeeps : ∀ id, Started entry chosen id → KeepsLineage id (table.map entry) (table'.map entry))
    (hstarted : ∀ id, Started entry chosen' id ↔ Started entry chosen id) :
    (∃ r ∈ table, (entry r).id = id ∧ Following entry chosen p r) ↔
      ∃ r ∈ table', (entry r).id = id ∧ Following entry chosen' p r := by
  rw [h.gathered_iff, h'.gathered_iff]
  refine exists_congr fun e => and_congr_right fun _ => ?_
  apply follows_iff
  · intro root _ hroot
    exact hkeeps root.id hroot
  · intro l hl
    exact (hstarted l).mpr hl
  · intro l hl
    obtain ⟨root, hroot, hid⟩ := (hstarted l).mp hl
    exact ⟨⟨root, hroot, hid⟩, entry root, mem_map_of_mem (h.mem root hroot), hid⟩

end

end ScopedLineages
