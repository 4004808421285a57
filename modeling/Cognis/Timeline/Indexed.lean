import Cognis.Library.SortedInsert
import Cognis.Timeline.Item

namespace Cognis.Timeline

open List SortByKey SortedInsert

/-- A timeline with its index by id. -/
structure Indexed where
  items : List TimelineItem
  byId : OrderedMap String TimelineItem
  deriving DecidableEq

def removeSortedTimelineItem (t : Indexed) (id : String) : Indexed :=
  ⟨t.items.eraseP (fun item => item.id = id), t.byId.erase id⟩

def upsertSortedTimelineItem (t : Indexed) (item : TimelineItem) : Indexed :=
  let cleared := if t.byId.contains item.id then removeSortedTimelineItem t item.id else t
  ⟨insertSorted itemKey cleared.items item, cleared.byId.set item.id item⟩

def upsertMerged (t : Indexed) (item : TimelineItem) : Indexed :=
  upsertSortedTimelineItem t (match t.byId.get? item.id with
    | some existing => mergeTimelineItem existing item
    | none => item)

def Indexed.ofItems (items : List TimelineItem) : Indexed := ⟨items, buildTimelineById items⟩

/-- No id occurs twice, and the index is right. -/
structure Indexed.Keyed (t : Indexed) : Prop where
  nodup : (t.items.map (·.id)).Nodup
  index : ∀ id item, t.byId.get? id = some item ↔ item ∈ t.items ∧ item.id = id

/-- Keyed, and strictly ascending by `(sort_key, id)`. -/
structure Indexed.WellFormed (t : Indexed) : Prop extends t.Keyed where
  ascending : Ascending itemKey t.items

theorem mergeTimelineItem_id {e i : TimelineItem} (h : e.id = i.id) :
    (mergeTimelineItem e i).id = i.id := by
  unfold mergeTimelineItem
  split
  · unfold mergeHandoff; dsimp only [spreadBase]; split_ifs <;> simp [h]
  · unfold mergeCompaction; split_ifs <;> simp [spreadBase, h]
  · rfl
  · rfl
  · unfold mergeMessageItem; split_ifs <;> simp [spreadBase, h]
  · unfold mergeOther; split_ifs <;> simp [spreadBase]
  · rfl

theorem itemKey_ne_of_id_ne {a b : TimelineItem} (h : a.id ≠ b.id) : itemKey a ≠ itemKey b := by
  intro hk
  have : (a.sortKey, a.id) = (b.sortKey, b.id) := hk
  exact h (Prod.ext_iff.mp this).2

variable {t : Indexed}

theorem Indexed.Keyed.contains_iff (h : t.Keyed) (id : String) :
    t.byId.contains id = true ↔ ∃ item ∈ t.items, item.id = id := by
  simp only [OrderedMap.contains, Option.isSome_iff_exists, h.index]

variable {items : List TimelineItem} {item x : TimelineItem}

theorem eraseP_id_eq_filter (h : (items.map (·.id)).Nodup) (id : String) :
    items.eraseP (fun item => item.id = id) = items.filter (fun item => item.id ≠ id) := by
  induction items with
  | nil => rfl
  | cons a t ih =>
    obtain ⟨ha, ht⟩ := nodup_cons.mp h
    by_cases hid : a.id = id
    · have hrest : t.filter (fun item => item.id ≠ id) = t := by
        rw [filter_eq_self]
        intro x hx
        have : x.id ≠ a.id := fun he => ha (mem_map.mpr ⟨x, hx, he⟩)
        simpa [← hid] using this
      simp only [eraseP_cons, hid, decide_true, filter_cons]
      simpa using hrest.symm
    · simp [hid, ih ht]

theorem removeSortedTimelineItem_items (h : t.Keyed) (id : String) :
    (removeSortedTimelineItem t id).items = t.items.filter (fun item => item.id ≠ id) :=
  eraseP_id_eq_filter h.nodup id

theorem Indexed.Keyed.remove (h : t.Keyed) (id : String) :
    (removeSortedTimelineItem t id).Keyed where
  nodup := h.nodup.sublist (Sublist.map _ eraseP_sublist)
  index j item := by
    rw [removeSortedTimelineItem_items h, removeSortedTimelineItem, OrderedMap.get?_erase]
    simp only [mem_filter, decide_not, Bool.not_eq_true', decide_eq_false_iff_not]
    split_ifs with hj
    · subst hj
      simp only [false_iff, not_and]
      exact fun hmem hid => hmem.2 hid
    · rw [h.index]
      constructor
      · rintro ⟨hmem, rfl⟩
        exact ⟨⟨hmem, hj⟩, rfl⟩
      · rintro ⟨⟨hmem, -⟩, hid⟩
        exact ⟨hmem, hid⟩

theorem Indexed.WellFormed.remove (h : t.WellFormed) (id : String) :
    (removeSortedTimelineItem t id).WellFormed where
  toKeyed := h.toKeyed.remove id
  ascending := h.ascending.sublist eraseP_sublist

theorem cleared_items (h : t.Keyed) (id : String) :
    (if t.byId.contains id then removeSortedTimelineItem t id else t).items =
      t.items.filter (fun item => item.id ≠ id) := by
  split_ifs with hc
  · exact removeSortedTimelineItem_items h id
  · rw [eq_comm, filter_eq_self]
    intro x hx
    rw [h.contains_iff] at hc
    have : x.id ≠ id := fun he => hc ⟨x, hx, he⟩
    simpa using this

theorem upsertSortedTimelineItem_perm (h : t.Keyed) (item : TimelineItem) :
    (upsertSortedTimelineItem t item).items.Perm
      (item :: t.items.filter (fun x => x.id ≠ item.id)) := by
  refine (insertSorted_perm _ _ _).trans (Perm.cons _ ?_)
  rw [cleared_items h]

theorem mem_upsertSortedTimelineItem (h : t.Keyed) :
    x ∈ (upsertSortedTimelineItem t item).items ↔ x = item ∨ (x ∈ t.items ∧ x.id ≠ item.id) := by
  rw [(upsertSortedTimelineItem_perm h item).mem_iff]
  simp

theorem upsertSortedTimelineItem_get? (t : Indexed) (item : TimelineItem) (id : String) :
    (upsertSortedTimelineItem t item).byId.get? id =
      if id = item.id then some item else t.byId.get? id := by
  unfold upsertSortedTimelineItem removeSortedTimelineItem
  rw [OrderedMap.get?_set]
  split_ifs with hid hc
  · rfl
  · rw [OrderedMap.get?_erase, if_neg hid]
  · rfl

theorem Indexed.Keyed.upsert (h : t.Keyed) (item : TimelineItem) :
    (upsertSortedTimelineItem t item).Keyed where
  nodup := by
    rw [((upsertSortedTimelineItem_perm h item).map _).nodup_iff, map_cons, nodup_cons]
    refine ⟨?_, h.nodup.sublist (Sublist.map _ filter_sublist)⟩
    simp
  index id x := by
    rw [mem_upsertSortedTimelineItem h, upsertSortedTimelineItem_get?]
    split_ifs with hid
    · subst hid
      constructor
      · intro hx
        obtain rfl : item = x := by simpa using hx
        exact ⟨.inl rfl, rfl⟩
      · rintro ⟨rfl | ⟨-, hne⟩, he⟩
        · rfl
        · exact absurd he hne
    · rw [h.index]
      constructor
      · rintro ⟨hx, rfl⟩
        exact ⟨.inr ⟨hx, hid⟩, rfl⟩
      · rintro ⟨rfl | ⟨hx, -⟩, he⟩
        · exact absurd he.symm hid
        · exact ⟨hx, he⟩

theorem Indexed.WellFormed.upsert (h : t.WellFormed) (item : TimelineItem) :
    (upsertSortedTimelineItem t item).WellFormed where
  toKeyed := h.toKeyed.upsert item
  ascending := by
    refine ascending_insertSorted ?_ ?_
    · rw [cleared_items h.toKeyed]
      exact h.ascending.sublist filter_sublist
    · rw [cleared_items h.toKeyed]
      intro y hy
      exact itemKey_ne_of_id_ne (by simpa using (mem_filter.mp hy).2)

theorem Indexed.WellFormed.upsertMerged (h : t.WellFormed) (item : TimelineItem) :
    (upsertMerged t item).WellFormed := h.upsert _

theorem get?_buildTimelineById (h : (items.map (·.id)).Nodup) (id : String) (item : TimelineItem) :
    (buildTimelineById items).get? id = some item ↔ item ∈ items ∧ item.id = id := by
  rw [buildTimelineById, OrderedMap.get?_ofList (by rwa [map_map])]
  simp only [mem_map, Prod.mk.injEq]
  constructor
  · rintro ⟨x, hx, rfl, rfl⟩
    exact ⟨hx, rfl⟩
  · rintro ⟨hx, rfl⟩
    exact ⟨item, hx, rfl, rfl⟩

theorem Indexed.keyed_ofItems (h : (items.map (·.id)).Nodup) : (Indexed.ofItems items).Keyed where
  nodup := h
  index := get?_buildTimelineById h

def Labelled (byId : OrderedMap String TimelineItem) : Prop :=
  ∀ id x, byId.get? id = some x → x.id = id

variable {id : String}

theorem mem_of_get?_buildTimelineById
    (h : (buildTimelineById items).get? id = some x) : x ∈ items ∧ x.id = id := by
  obtain ⟨y, hy, heq⟩ := mem_map.mp (OrderedMap.mem_of_get?_ofList h)
  obtain ⟨rfl, rfl⟩ := Prod.mk.inj heq
  exact ⟨hy, rfl⟩

theorem mem_values_buildTimelineById (h : x ∈ (buildTimelineById items).values) : x ∈ items := by
  obtain ⟨id, hid⟩ := OrderedMap.mem_values.mp h
  exact (mem_of_get?_buildTimelineById hid).1

theorem labelled_buildTimelineById (items : List TimelineItem) :
    Labelled (buildTimelineById items) :=
  fun _ _ h => (mem_of_get?_buildTimelineById h).2

theorem Labelled.set {byId : OrderedMap String TimelineItem} (h : Labelled byId)
    (item : TimelineItem) :
    Labelled (byId.set item.id item) := by
  intro id x hx
  rw [OrderedMap.get?_set] at hx
  split_ifs at hx with hid
  · cases hx
    exact hid.symm
  · exact h id x hx

theorem Labelled.upsert (h : Labelled t.byId) (item : TimelineItem) :
    Labelled (upsertSortedTimelineItem t item).byId := by
  intro id x hx
  rw [upsertSortedTimelineItem_get?] at hx
  split_ifs at hx with hid
  · cases hx
    exact hid.symm
  · exact h id x hx

theorem Labelled.upsertMerged (h : Labelled t.byId) (item : TimelineItem) :
    Labelled (upsertMerged t item).byId := h.upsert _

theorem upsertMerged_get? (h : Labelled t.byId) (item : TimelineItem) (id : String) :
    (upsertMerged t item).byId.get? id = if id = item.id then
      some (match t.byId.get? item.id with
        | some e => mergeTimelineItem e item
        | none => item) else t.byId.get? id := by
  unfold upsertMerged
  rw [upsertSortedTimelineItem_get?]
  cases hget : t.byId.get? item.id with
  | none => rfl
  | some e =>
    rw [mergeTimelineItem_id (h _ _ hget)]

/-- Every listed and every indexed item has the property, and the index files each under
its own id. -/
structure Indexed.All (P : TimelineItem → Prop) (t : Indexed) : Prop where
  items : ∀ x ∈ t.items, P x
  indexed : ∀ id x, t.byId.get? id = some x → P x
  labelled : Labelled t.byId

section

variable {P : TimelineItem → Prop} {t : Indexed}

theorem Indexed.All.upsert (h : t.All P) (hi : P item) :
    (upsertSortedTimelineItem t item).All P where
  items x hx := by
    rcases mem_insertSorted.mp hx with rfl | hx
    · exact hi
    · split_ifs at hx
      · exact h.items x (eraseP_sublist.subset hx)
      · exact h.items x hx
  indexed id x hx := by
    rw [upsertSortedTimelineItem_get?] at hx
    split_ifs at hx
    · cases hx
      exact hi
    · exact h.indexed id x hx
  labelled := h.labelled.upsert item

theorem Indexed.All.upsertMerged (h : t.All P) (hi : P item)
    (hm : ∀ e, t.byId.get? item.id = some e → e.id = item.id → P e → P (mergeTimelineItem e item)) :
    (upsertMerged t item).All P := by
  unfold Timeline.upsertMerged
  cases hget : t.byId.get? item.id with
  | none => exact h.upsert hi
  | some e => exact h.upsert (hm e hget (h.labelled _ _ hget) (h.indexed _ _ hget))

theorem Indexed.All.remove (h : t.All P) (id : String) : (removeSortedTimelineItem t id).All P := by
  have hget (j : String) (x : TimelineItem)
    (hx : (removeSortedTimelineItem t id).byId.get? j = some x) :
      t.byId.get? j = some x := by
    rw [removeSortedTimelineItem, OrderedMap.get?_erase] at hx
    split_ifs at hx
    exact hx
  exact ⟨fun x hx => h.items x (eraseP_sublist.subset hx),
    fun j x hx => h.indexed j x (hget j x hx), fun j x hx => h.labelled j x (hget j x hx)⟩

theorem Indexed.all_ofItems (h : ∀ x ∈ items, P x) : (Indexed.ofItems items).All P :=
  ⟨h, fun _ x hx => h x (mem_of_get?_buildTimelineById hx).1, labelled_buildTimelineById items⟩

end

/-- What merges of arriving items and removals make of a timeline. -/
inductive TimelineEdits (arriving : List TimelineItem) (t : Indexed) : Indexed → Prop
  | refl : TimelineEdits arriving t t
  | upsert {t' : Indexed} {item : TimelineItem} : TimelineEdits arriving t t' → item ∈ arriving →
      TimelineEdits arriving t (upsertMerged t' item)
  | remove {t' : Indexed} (id : String) : TimelineEdits arriving t t' →
      TimelineEdits arriving t (removeSortedTimelineItem t' id)

section

variable {arriving : List TimelineItem} {t t' : Indexed}

theorem TimelineEdits.foldl_upsertMerged (h : TimelineEdits arriving t t')
    (hi : ∀ x ∈ items, x ∈ arriving) :
      TimelineEdits arriving t (items.foldl Timeline.upsertMerged t') := by
  induction items generalizing t' with
  | nil => exact h
  | cons item items ih =>
    exact ih (h.upsert (hi item mem_cons_self)) (fun x hx => hi x (mem_cons_of_mem _ hx))

theorem TimelineEdits.all {P : TimelineItem → Prop} (h : TimelineEdits arriving t t')
    (hmerge : ∀ e i, e.id = i.id → P e → P i → P (mergeTimelineItem e i)) (ht : t.All P)
    (hi : ∀ x ∈ arriving, P x) : t'.All P := by
  induction h with
  | refl => exact ht
  | upsert _ hitem ih =>
      exact ih.upsertMerged (hi _ hitem) (fun e _ hid he => hmerge e _ hid he (hi _ hitem))
  | remove id _ ih => exact ih.remove id

theorem TimelineEdits.wellFormed (h : TimelineEdits arriving t t') (ht : t.WellFormed) :
    t'.WellFormed := by
  induction h with
  | refl => exact ht
  | upsert _ _ ih => exact ih.upsertMerged _
  | remove id _ ih => exact ih.remove id

end

/-- The id occurs once at most, and its index is right. -/
structure Indexed.OnceAt (id : String) (t : Indexed) : Prop where
  once : t.items.countP (·.id = id) ≤ 1
  index : ∀ x, t.byId.get? id = some x ↔ x ∈ t.items ∧ x.id = id

theorem eq_of_countP_le_one {y : TimelineItem} (h : items.countP (·.id = id) ≤ 1) (hx : x ∈ items)
    (hxid : x.id = id) (hy : y ∈ items) (hyid : y.id = id) : x = y := by
  rw [countP_eq_length_filter] at h
  have hmem (z : TimelineItem) (hz : z ∈ items) (hzid : z.id = id) :
      z ∈ items.filter (·.id = id) := mem_filter.mpr ⟨hz, by simpa using hzid⟩
  have hxm := hmem x hx hxid
  have hym := hmem y hy hyid
  cases hf : items.filter (·.id = id) with
  | nil => simp [hf] at hxm
  | cons a rest =>
    have hrest : rest = [] := by
      rw [hf, length_cons] at h
      exact length_eq_zero_iff.mp (by omega)
    rw [hf, hrest, mem_singleton] at hxm hym
    rw [hxm, hym]

theorem Indexed.onceAt_ofItems
    (h : items.countP (·.id = id) ≤ 1) : (Indexed.ofItems items).OnceAt id where
  once := h
  index x := by
    constructor
    · exact mem_of_get?_buildTimelineById
    · rintro ⟨hx, hxid⟩
      have hkey : id ∈ (items.map (fun item => (item.id, item))).map Prod.fst := by
        rw [map_map]
        exact mem_map.mpr ⟨x, hx, hxid⟩
      obtain ⟨y, hy⟩ := Option.isSome_iff_exists.mp (OrderedMap.isSome_get?_ofList hkey)
      obtain ⟨hmem, hyid⟩ := mem_of_get?_buildTimelineById hy
      rwa [eq_of_countP_le_one h hx hxid hmem hyid]

section

variable {id : String} {t : Indexed}

theorem Indexed.OnceAt.countP (h : t.OnceAt id) :
    t.items.countP (·.id = id) = if t.byId.contains id then 1 else 0 := by
  have hiff : t.byId.contains id = true ↔ 0 < t.items.countP (·.id = id) := by
    simp only [OrderedMap.contains, Option.isSome_iff_exists, h.index, countP_pos_iff,
      decide_eq_true_eq]
  have honce := h.once
  split_ifs with hc
  · have := hiff.mp hc
    omega
  · have := mt hiff.mpr hc
    omega

theorem countP_eraseP_of_ne {id id' : String} (h : id ≠ id') :
    (items.eraseP (fun item => item.id = id')).countP (·.id = id) = items.countP (·.id = id) := by
  rcases exists_or_eq_self_of_eraseP (fun item => decide (item.id = id')) items with
    heq | ⟨a, l₁, l₂, -, ha, hl, heq⟩
  · rw [heq]
  · have hne : a.id ≠ id := fun he => h (he ▸ by simpa using ha)
    rw [heq, hl]
    simp [countP_append, hne]

theorem Indexed.OnceAt.erase_self (h : t.OnceAt id) :
    (if t.byId.contains id then removeSortedTimelineItem t id else t).items.countP
      (·.id = id) = 0 := by
  have hcount := h.countP
  split_ifs at hcount ⊢ with hc
  · rcases exists_or_eq_self_of_eraseP (fun item => decide (item.id = id)) t.items with
      heq | ⟨a, l₁, l₂, -, ha, hl, heq⟩
    · have hnone : t.items.countP (·.id = id) = 0 := by
        obtain ⟨x, hx⟩ := Option.isSome_iff_exists.mp hc
        obtain ⟨hmem, hid⟩ := (h.index x).mp hx
        have hlen := length_eraseP_of_mem hmem (p := fun item => decide (item.id = id))
          (by simpa using hid)
        have hpos := length_pos_of_mem hmem
        rw [heq] at hlen
        omega
      omega
    · have hid : a.id = id := by simpa using ha
      rw [hl] at hcount
      simp only [removeSortedTimelineItem, heq]
      simp only [countP_append, countP_cons, hid, decide_true, if_true] at hcount ⊢
      omega
  · exact hcount

theorem Indexed.OnceAt.remove (h : t.OnceAt id) (id' : String) :
    (removeSortedTimelineItem t id').OnceAt id := by
  by_cases hid : id = id'
  · subst hid
    have hzero : (removeSortedTimelineItem t id).items.countP (·.id = id) = 0 := by
      have herase := h.erase_self
      split_ifs at herase with hc
      · exact herase
      · have hle : (removeSortedTimelineItem t id).items.countP (·.id = id) ≤
            t.items.countP (·.id = id) := eraseP_sublist.countP_le
        omega
    refine ⟨by omega, fun x => ?_⟩
    rw [removeSortedTimelineItem, OrderedMap.get?_erase, if_pos rfl]
    simp only [reduceCtorEq, false_iff, not_and]
    intro hx hxid
    exact countP_eq_zero.mp hzero x hx (by simpa using hxid)
  · refine ⟨?_, fun x => ?_⟩
    · rw [removeSortedTimelineItem, countP_eraseP_of_ne hid]
      exact h.once
    · rw [removeSortedTimelineItem, OrderedMap.get?_erase, if_neg hid, h.index]
      constructor
      · rintro ⟨hx, rfl⟩
        exact ⟨(mem_eraseP_of_neg (by simpa using hid)).mpr hx, rfl⟩
      · rintro ⟨hx, hxid⟩
        exact ⟨eraseP_sublist.subset hx, hxid⟩

theorem Indexed.OnceAt.upsert (h : t.OnceAt id) (item : TimelineItem) :
    (upsertSortedTimelineItem t item).OnceAt id := by
  unfold upsertSortedTimelineItem
  have hperm := fun l => insertSorted_perm itemKey l item
  by_cases hid : id = item.id
  · subst hid
    have hzero := h.erase_self
    refine ⟨?_, fun x => ?_⟩
    · rw [(hperm _).countP_eq, countP_cons]
      simp only [decide_true, if_true]
      omega
    · rw [OrderedMap.get?_set, if_pos rfl, mem_insertSorted]
      constructor
      · intro hx
        cases hx
        exact ⟨.inl rfl, rfl⟩
      · rintro ⟨rfl | hx, hxid⟩
        · rfl
        · exact absurd (by simpa using hxid) (countP_eq_zero.mp hzero x hx)
  · have hcleared :
      (if t.byId.contains item.id then removeSortedTimelineItem t item.id else t).OnceAt
        id := by
      split_ifs
      · exact h.remove item.id
      · exact h
    refine ⟨?_, fun x => ?_⟩
    · rw [(hperm _).countP_eq, countP_cons]
      simpa [Ne.symm hid] using hcleared.once
    · rw [OrderedMap.get?_set, if_neg hid, hcleared.index, mem_insertSorted]
      constructor
      · rintro ⟨hx, hxid⟩
        exact ⟨.inr hx, hxid⟩
      · rintro ⟨rfl | hx, hxid⟩
        · exact absurd hxid.symm hid
        · exact ⟨hx, hxid⟩

theorem Indexed.OnceAt.upsertMerged (h : t.OnceAt id) (item : TimelineItem) :
    (upsertMerged t item).OnceAt id := h.upsert _

theorem TimelineEdits.onceAt {arriving : List TimelineItem} {t' : Indexed}
    (h : TimelineEdits arriving t t') (ht : t.OnceAt id) : t'.OnceAt id := by
  induction h with
  | refl => exact ht
  | upsert _ _ ih => exact ih.upsertMerged _
  | remove id' _ ih => exact ih.remove id'

end

end Cognis.Timeline
