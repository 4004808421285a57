import Cognis.Library.FieldText
import Cognis.Timeline.Terminal

namespace Cognis.Timeline

open List SortByKey TimelineItem

def delegationField (item : TimelineItem) : JsField JsonRecord :=
  match item.body with
  | .toolCall t => t.delegation
  | _ => .absent

def bare (item : TimelineItem) : TimelineItem :=
  { item with
    sourceRefs := []
    body :=
      match item.body with
      | .toolCall t => .toolCall { t with delegation := .absent }
      | body => body }

def SameRecord (a b : JsField JsonRecord) : Prop :=
  match a.get, b.get with
  | some r, some r' => ∀ key, recordGet r key = recordGet r' key
  | none, none => True
  | _, _ => False

/-- Equal up to the order of the references and missing delegation keys. -/
structure SameItem (a b : TimelineItem) : Prop where
  bare : bare a = bare b
  refs : a.sourceRefs.Perm b.sourceRefs
  delegation : SameRecord (delegationField a) (delegationField b)

theorem SameRecord.refl (a : JsField JsonRecord) : SameRecord a a := by
  unfold SameRecord
  cases a.get with
  | none => trivial
  | some r => exact fun _ => rfl

theorem SameItem.refl (item : TimelineItem) : SameItem item item :=
  ⟨rfl, Perm.refl _, SameRecord.refl _⟩

variable (e : JsonRecord) (held : Option ThinkingBlock) (i : JsonRecord)
  (blocks : List ThinkingBlock) (key : String)

theorem get?_recordSpread : (recordSpread e i).get? key = (i.get? key).or (e.get? key) := by
  unfold recordSpread
  rw [OrderedMap.get?_foldl_set, OrderedMap.ofList_entries]

theorem get?_foldl_set_keys (keys : List String) (f : String → JsonValue) (r : JsonRecord)
    (key : String) :
    (keys.foldl (fun r key => r.set key (f key)) r).get? key =
      if key ∈ keys then some (f key) else r.get? key := by
  induction keys generalizing r with
  | nil => rfl
  | cons first keys ih =>
    rw [foldl_cons, ih, OrderedMap.get?_set]
    by_cases hkeys : key ∈ keys
    · rw [if_pos hkeys, if_pos (mem_cons_of_mem _ hkeys)]
    · rw [if_neg hkeys]
      by_cases hfirst : key = first
      · rw [if_pos hfirst, hfirst, if_pos mem_cons_self]
      · rw [if_neg hfirst, if_neg]
        exact fun hmem => (mem_cons.mp hmem).elim hfirst hkeys

def mergedTodos : JsonValue :=
  let incomingTerminal := match i.get? "status" with
    | some (.string s) => delegationTerminalStatuses.contains s
    | _ => false
  let existingTodos := (e.get? "todos").getD .null
  match i.get? "todos" with
  | some (.array items) =>
    if !items.isEmpty || incomingTerminal then .array items else existingTodos
  | _ => existingTodos

theorem nonNull_getD (v : Option JsonValue) :
    ((v.bind JsonValue.nonNull).getD .null).nonNull = v.bind JsonValue.nonNull := by
  cases v with
  | none => rfl
  | some v => cases v <;> rfl

theorem recordGet_mergeDelegationRecord : recordGet (mergeDelegationRecord e i) key =
      if key = "todos" then (mergedTodos e i).nonNull
      else if key ∈ delegationCoalescedKeys then (recordGet i key).or (recordGet e key)
      else ((i.get? key).or (e.get? key)).bind JsonValue.nonNull := by
  have hmerged : mergeDelegationRecord e i = (delegationCoalescedKeys.foldl (fun r key =>
        r.set key (((recordGet i key).or (recordGet e key)).getD .null))
        (recordSpread e i)).set "todos" (mergedTodos e i) := rfl
  unfold recordGet
  rw [hmerged, OrderedMap.get?_set]
  split_ifs with htodos hkey
  · rfl
  · rw [get?_foldl_set_keys, if_pos hkey, Option.bind_some]
    unfold recordGet
    cases i.get? key with
    | none =>
      exact nonNull_getD _
    | some v => cases v <;> first | rfl | exact nonNull_getD _
  · rw [get?_foldl_set_keys, if_neg hkey, get?_recordSpread]

theorem get?_todos_mergeDelegationRecord :
    (mergeDelegationRecord e i).get? "todos" = some (mergedTodos e i) := by
  exact OrderedMap.get?_set_self _ _ _

theorem mergedTodos_twice : mergedTodos (mergeDelegationRecord e i) i = mergedTodos e i := by
  have hheld := get?_todos_mergeDelegationRecord e i
  unfold mergedTodos at hheld ⊢
  rw [hheld]
  cases i.get? "todos" with
  | none => rfl
  | some v =>
    cases v with
    | array =>
      simp only [Option.getD_some]
      split_ifs <;> rfl
    | _ => rfl

theorem mergedTodos_self : (mergedTodos i i).nonNull = recordGet i "todos" := by
  unfold mergedTodos recordGet
  cases htodos : i.get? "todos" with
  | none => rfl
  | some v =>
    cases v with
    | array =>
      simp only [Option.getD_some, ite_self]
      rfl
    | _ => rfl

theorem recordGet_merge_twice :
    recordGet (mergeDelegationRecord (mergeDelegationRecord e i) i) key =
      recordGet (mergeDelegationRecord e i) key := by
  rw [recordGet_mergeDelegationRecord, recordGet_mergeDelegationRecord]
  split_ifs with htodos hkey
  · rw [mergedTodos_twice]
  · cases recordGet i key with
    | none => rw [Option.none_or, Option.none_or]
    | some v => rw [Option.some_or, Option.some_or]
  · have hheld := recordGet_mergeDelegationRecord e i key
    rw [if_neg htodos, if_neg hkey] at hheld
    unfold recordGet at hheld
    cases hincoming : i.get? key with
    | none =>
      rw [hincoming] at hheld
      rw [Option.none_or, hheld]
    | some v => rw [Option.some_or, Option.some_or]

theorem recordGet_merge_self : recordGet (mergeDelegationRecord i i) key = recordGet i key := by
  rw [recordGet_mergeDelegationRecord]
  split_ifs with htodos hkey
  · rw [htodos, mergedTodos_self]
  · cases recordGet i key <;> rfl
  · unfold recordGet
    cases i.get? key <;> rfl

theorem sameRecord_merge_twice (e i : JsField JsonRecord) :
    SameRecord (mergeDelegationRuntime (mergeDelegationRuntime e i) i)
      (mergeDelegationRuntime e i) := by
  unfold mergeDelegationRuntime
  cases hi : i.get with
  | none =>
    simp only [JsField.get_ofOption]
    exact SameRecord.refl _
  | some r =>
    cases he : e.get with
    | none => exact recordGet_merge_self r
    | some r' => exact recordGet_merge_twice r' r

theorem mergeBlock_assoc (a b c : ThinkingBlock) :
    mergeBlock (some (mergeBlock (some a) b)) c = mergeBlock (some a) (mergeBlock (some b) c) := by
  simp only [mergeBlock, JsField.spread_assoc]

theorem mergeBlock_self (b : ThinkingBlock) : mergeBlock (some b) b = b := by
  simp only [mergeBlock, JsField.spread_self]

theorem mergeBlock_id (b : ThinkingBlock) : (mergeBlock held b).id = b.id := by
  cases held <;> rfl

def mergedBlock : Option ThinkingBlock :=
  blocks.foldl (fun held b => some (mergeBlock held b)) held

theorem mergedBlock_some (held : ThinkingBlock) (b : ThinkingBlock) (blocks : List ThinkingBlock) :
    ∃ all, mergedBlock none (b :: blocks) = some all ∧
      mergedBlock (some held) (b :: blocks) = some (mergeBlock (some held) all) := by
  induction blocks using reverseRecOn with
  | nil => exact ⟨b, rfl, rfl⟩
  | append_singleton blocks last ih =>
    obtain ⟨all, hnone, hsome⟩ := ih
    unfold mergedBlock at hnone hsome ⊢
    rw [← cons_append, foldl_append, foldl_append, hnone, hsome]
    exact ⟨mergeBlock (some all) last, rfl, congrArg some (mergeBlock_assoc held all last)⟩

theorem mergedBlock_twice :
    mergedBlock (mergedBlock held blocks) blocks = mergedBlock held blocks := by
  cases blocks with
  | nil => rfl
  | cons b blocks =>
    have hagain : ∀ x : ThinkingBlock, ∀ all, mergedBlock none (b :: blocks) = some all →
        mergedBlock (some x) (b :: blocks) = some (mergeBlock (some x) all) := by
      intro x all hall
      obtain ⟨all', hnone, hsome⟩ := mergedBlock_some x b blocks
      rw [hall] at hnone
      rw [hsome, Option.some.inj hnone]
    cases held with
    | none =>
      obtain ⟨all, hnone, -⟩ := mergedBlock_some b b blocks
      rw [hnone, hagain all all hnone, mergeBlock_self]
    | some held =>
      obtain ⟨all, hnone, hsome⟩ := mergedBlock_some held b blocks
      rw [hsome, hagain _ all hnone, mergeBlock_assoc, mergeBlock_self]

def placeBlock (byId : OrderedMap String ThinkingBlock) (b : ThinkingBlock) :
    OrderedMap String ThinkingBlock :=
  byId.set b.id (mergeBlock (byId.get? b.id) b)

theorem get?_placed (byId : OrderedMap String ThinkingBlock) (blocks : List ThinkingBlock)
    (id : String) :
    (blocks.foldl placeBlock byId).get? id =
      mergedBlock (byId.get? id) (blocks.filter fun b => b.id == id) := by
  induction blocks generalizing byId with
  | nil => rfl
  | cons b blocks ih =>
    rw [foldl_cons, ih]
    unfold placeBlock
    rw [OrderedMap.get?_set]
    by_cases hid : id = b.id
    · rw [if_pos hid, filter_cons_of_pos (by simpa using hid.symm), hid]
      rfl
    · rw [if_neg hid, filter_cons_of_neg (by simpa using fun h => hid h.symm)]

variable {byId : OrderedMap String ThinkingBlock} {ref : SourceRef} {h h' : HandoffTimelineItem}

theorem keys_placed_of_mem {blocks : List ThinkingBlock}
    (h : ∀ b ∈ blocks, b.id ∈ byId.keys) : (blocks.foldl placeBlock byId).keys = byId.keys := by
  induction blocks generalizing byId with
  | nil => rfl
  | cons b blocks ih =>
    have hkeys : (placeBlock byId b).keys = byId.keys :=
      OrderedMap.keys_set_of_mem _ (h b mem_cons_self)
    rw [foldl_cons, ih, hkeys]
    intro b' hb'
    rw [hkeys]
    exact h b' (mem_cons_of_mem _ hb')

theorem mem_keys_placed {blocks : List ThinkingBlock} {id : String} :
    id ∈ (blocks.foldl placeBlock byId).keys ↔ id ∈ byId.keys ∨ ∃ b ∈ blocks, b.id = id := by
  induction blocks generalizing byId with
  | nil => simp
  | cons b blocks ih =>
    rw [foldl_cons, ih]
    unfold placeBlock
    rw [OrderedMap.mem_keys_set]
    simp only [mem_cons, exists_eq_or_imp, or_assoc, eq_comm (a := id)]
    tauto

theorem placed_twice (byId : OrderedMap String ThinkingBlock) (blocks : List ThinkingBlock) :
    blocks.foldl placeBlock (blocks.foldl placeBlock byId) = blocks.foldl placeBlock byId := by
  apply OrderedMap.ext_of_keys
  · apply keys_placed_of_mem
    intro b hb
    exact mem_keys_placed.mpr (.inr ⟨b, hb, rfl⟩)
  · intro id
    rw [get?_placed, get?_placed, mergedBlock_twice]

def HeldById (byId : OrderedMap String ThinkingBlock) : Prop := ∀ p ∈ byId.entries, p.2.id = p.1

theorem HeldById.set (h : HeldById byId)
    {b : ThinkingBlock} : HeldById (byId.set b.id b) := by
  intro p hp
  rcases (OrderedMap.mem_entries_set _ _ _ _).mp hp with rfl | ⟨hold, -⟩
  · rfl
  · exact h p hold

theorem HeldById.placed (h : HeldById byId)
    (blocks : List ThinkingBlock) : HeldById (blocks.foldl placeBlock byId) := by
  induction blocks generalizing byId with
  | nil => exact h
  | cons b _ ih =>
    have hplaced : HeldById (byId.set (mergeBlock (byId.get? b.id) b).id
        (mergeBlock (byId.get? b.id) b)) := h.set
    rw [mergeBlock_id] at hplaced
    exact ih hplaced

theorem heldById_ofList : HeldById (OrderedMap.ofList (blocks.map fun b => (b.id, b))) := by
  have hfold : ∀ byId : OrderedMap String ThinkingBlock, HeldById byId →
      HeldById ((blocks.map fun b => (b.id, b)).foldl (fun m p => m.set p.1 p.2) byId) := by
    induction blocks with
    | nil => exact fun _ h => h
    | cons b _ ih => exact fun byId h => ih _ h.set
  apply hfold
  intro p hp
  cases hp

theorem HeldById.ofList_values (h : HeldById byId) :
    OrderedMap.ofList (byId.values.map fun b => (b.id, b)) = byId := by
  have hentries : byId.values.map (fun b => (b.id, b)) = byId.entries := by
    unfold OrderedMap.values
    rw [map_map]
    apply (map_congr_left _).trans (map_id _)
    intro p hp
    exact Prod.ext (h p hp) rfl
  rw [hentries, OrderedMap.ofList_entries]

theorem mergeBlocks_twice (e i : List ThinkingBlock) :
    mergeBlocks (mergeBlocks e i) i = mergeBlocks e i := by
  have hheld := (heldById_ofList e).placed i
  have hfirst : mergeBlocks e i =
      (i.foldl placeBlock (OrderedMap.ofList (e.map fun b => (b.id, b)))).values := rfl
  have hsecond : mergeBlocks (mergeBlocks e i) i = (i.foldl placeBlock
        (OrderedMap.ofList ((mergeBlocks e i).map fun b => (b.id, b)))).values := rfl
  rw [hsecond, hfirst, hheld.ofList_values, placed_twice]

def mergedRefs (e i : List SourceRef) : List SourceRef :=
  sortBy (·.seq) (OrderedMap.ofList ((e ++ i).map fun ref => (sourceRefKey ref, ref))).values

def refsByKey (refs : List SourceRef) : OrderedMap String SourceRef :=
  OrderedMap.ofList (refs.map fun ref => (sourceRefKey ref, ref))

theorem key_of_get?_refsByKey {refs : List SourceRef} {key : String}
    (h : (refsByKey refs).get? key = some ref) : ref ∈ refs ∧ sourceRefKey ref = key := by
  obtain ⟨ref', hmem, heq⟩ := mem_map.mp (OrderedMap.mem_of_get?_ofList h)
  obtain ⟨hkey, rfl⟩ := Prod.mk.inj heq
  exact ⟨hmem, hkey⟩

theorem get?_refsByKey_append (e i : List SourceRef) (key : String) :
    (refsByKey (e ++ i)).get? key = ((refsByKey i).get? key).or ((refsByKey e).get? key) := by
  unfold refsByKey
  rw [map_append, OrderedMap.get?_ofList_append]

theorem mem_mergedRefs {e i : List SourceRef} :
    ref ∈ mergedRefs e i ↔ ∃ key, (refsByKey (e ++ i)).get? key = some ref := by
  unfold mergedRefs
  rw [mem_sortBy, OrderedMap.mem_values]
  rfl

theorem exists_mergedRef {e i : List SourceRef} (h : ref ∈ e ++ i) :
    ∃ ref' ∈ mergedRefs e i, sourceRefKey ref' = sourceRefKey ref := by
  have hkey :
    sourceRefKey ref ∈ ((e ++ i).map fun ref => (sourceRefKey ref, ref)).map Prod.fst := by
    rw [map_map]
    exact mem_map.mpr ⟨ref, h, rfl⟩
  obtain ⟨ref', href'⟩ := Option.isSome_iff_exists.mp (OrderedMap.isSome_get?_ofList hkey)
  exact ⟨ref', mem_mergedRefs.mpr ⟨_, href'⟩, (key_of_get?_refsByKey href').2⟩

theorem get?_refsByKey_mergedRefs (e i : List SourceRef) (key : String) :
    (refsByKey (mergedRefs e i)).get? key = (refsByKey (e ++ i)).get? key := by
  have hperm : ((mergedRefs e i).map fun ref => (sourceRefKey ref, ref)).Perm
      (refsByKey (e ++ i)).entries := by
    have hvalues : ((mergedRefs e i).map fun ref => (sourceRefKey ref, ref)).Perm
        ((refsByKey (e ++ i)).values.map fun ref => (sourceRefKey ref, ref)) :=
      (sortBy_perm _ _).map _
    refine hvalues.trans (Perm.of_eq ?_)
    unfold OrderedMap.values
    rw [map_map]
    apply (map_congr_left _).trans (map_id _)
    intro p hp
    have hget := ((refsByKey (e ++ i)).get?_eq_some_iff).mpr hp
    exact Prod.ext (key_of_get?_refsByKey hget).2 rfl
  exact OrderedMap.get?_ofList_perm hperm key

theorem mergedRefs_twice (e i : List SourceRef) :
    (mergedRefs (mergedRefs e i) i).Perm (mergedRefs e i) := by
  have hget : ∀ key, (refsByKey (mergedRefs e i ++ i)).get? key =
      (refsByKey (e ++ i)).get? key := by
    intro key
    rw [get?_refsByKey_append, get?_refsByKey_mergedRefs, get?_refsByKey_append]
    cases (refsByKey i).get? key <;> rfl
  have hentries : (refsByKey (mergedRefs e i ++ i)).entries.Perm (refsByKey (e ++ i)).entries := by
    apply (perm_ext_iff_of_nodup (Nodup.of_map _ (refsByKey _).nodup)
      (Nodup.of_map _ (refsByKey _).nodup)).mpr
    intro p
    rw [← Prod.mk.eta (p := p), ← OrderedMap.get?_eq_some_iff, ← OrderedMap.get?_eq_some_iff, hget]
  exact ((sortBy_perm _ _).trans (hentries.map Prod.snd)).trans (sortBy_perm _ _).symm

theorem handoffRevision_le_iff {item : TimelineItem} {n : Int} :
    handoffRevision item ≤ n ↔ 0 ≤ n ∧ ∀ ref ∈ item.sourceRefs, ref.seq ≤ n := by
  have hfold : ∀ (seqs : List Int) (start : Int),
      seqs.foldl max start ≤ n ↔ start ≤ n ∧ ∀ seq ∈ seqs, seq ≤ n := by
    intro seqs
    induction seqs with
    | nil => simp
    | cons seq seqs ih =>
      intro start
      rw [foldl_cons, ih, max_le_iff, forall_mem_cons, and_assoc]
  unfold handoffRevision
  rw [hfold, forall_mem_map]

theorem seq_eq_of_sourceRefKey {a b : SourceRef} (ha : ':' ∉ a.eventType.toList)
    (hb : ':' ∉ b.eventType.toList) (h : sourceRefKey a = sourceRefKey b) : a.seq = b.seq := by
  have hnumber : ∀ n : Int, ':' ∉ (toString n).toList := by
    intro n hmem
    rcases FieldText.isDigit_of_mem_intText hmem with hsign | hdigit
    · exact absurd hsign (by decide)
    · exact absurd hdigit (by decide)
  have hkey : ∀ ref : SourceRef, (sourceRefKey ref).toList =
      (ref.store.toList ++ ':' :: ref.sessionId.toList ++ ':' :: (toString ref.seq).toList) ++
        ':' :: ref.eventType.toList := by
    intro ref
    unfold sourceRefKey
    simp
  have htexts := congrArg String.toList h
  rw [hkey, hkey] at htexts
  obtain ⟨hfront, -⟩ := FieldText.append_sep_inj ha hb htexts
  obtain ⟨-, hseq⟩ := FieldText.append_sep_inj (hnumber _) (hnumber _) hfront
  exact FieldText.intText_injective (String.toList_inj.mp hseq)

theorem handoffRevision_merged {e i x : TimelineItem}
    (hx : x.sourceRefs = mergedRefs e.sourceRefs i.sourceRefs)
    (he : ∀ ref ∈ e.sourceRefs, ':' ∉ ref.eventType.toList)
    (hi : ∀ ref ∈ i.sourceRefs, ':' ∉ ref.eventType.toList) :
    handoffRevision x ≤ handoffRevision i ↔ handoffRevision e ≤ handoffRevision i := by
  have hself := handoffRevision_le_iff.mp (Int.le_refl (handoffRevision i))
  rw [handoffRevision_le_iff, handoffRevision_le_iff, hx]
  constructor
  · rintro ⟨hzero, hmerged⟩
    refine ⟨hzero, ?_⟩
    intro ref href
    obtain ⟨ref', href', hkey⟩ := exists_mergedRef (mem_append_left i.sourceRefs href)
    have hplain : ':' ∉ ref'.eventType.toList := by
      obtain ⟨key, hget⟩ := mem_mergedRefs.mp href'
      rcases mem_append.mp (key_of_get?_refsByKey hget).1 with hold | hnew
      · exact he ref' hold
      · exact hi ref' hnew
    rw [← seq_eq_of_sourceRefKey hplain (he ref href) hkey]
    exact hmerged ref' href'
  · rintro ⟨hzero, hheld⟩
    refine ⟨hzero, ?_⟩
    intro ref href
    obtain ⟨key, hget⟩ := mem_mergedRefs.mp href
    rcases mem_append.mp (key_of_get?_refsByKey hget).1 with hold | hnew
    · exact hheld ref hold
    · exact hself.2 ref hnew

variable {e i x : TimelineItem}

theorem mergedSortKey_le (e i : TimelineItem) : mergedSortKey e i ≤ i.sortKey := by
  unfold mergedSortKey
  split_ifs with hle
  · exact hle
  · exact le_refl _

theorem mergedSortKey_twice (hx : x.sortKey = mergedSortKey e i) :
    mergedSortKey x i = mergedSortKey e i := by
  have hle : x.sortKey ≤ i.sortKey := hx ▸ mergedSortKey_le e i
  rw [mergedSortKey, if_pos hle, hx]

theorem spreadBase_twice (e i : TimelineItem) (k k' : String) (b b' : ItemBody) :
    spreadBase (spreadBase e i k b) i k' b' = spreadBase e i k' b' := by
  simp only [spreadBase, JsField.spread_spread]

theorem ite_twice {α : Type} (p : Prop) [Decidable p] (a b : α) :
    (if p then if p then a else b else b) = if p then a else b := by
  split_ifs <;> rfl

theorem ite_twice_right {α : Type} (p : Prop) [Decidable p] (a b : α) :
    (if p then a else if p then a else b) = if p then a else b := by
  split_ifs <;> rfl

theorem mergeMessage_twice (m m' : MessageTimelineItem) :
    mergeMessage (mergeMessage m m') m' = mergeMessage m m' := by
  simp only [mergeMessage, JsField.spread_spread, JsField.coalesce_coalesce, ite_twice]

theorem mergeThinking_twice (t t' : ThinkingTimelineItem) :
    mergeThinking (mergeThinking t t') t' = mergeThinking t t' := by
  simp only [mergeThinking, JsField.spread_spread, JsField.coalesce_coalesce, mergeBlocks_twice]

theorem mergeToolCall_twice (terminal : Bool) (t t' : ToolCallTimelineItem) :
    { mergeToolCall terminal (mergeToolCall terminal t t') t' with delegation := .absent } =
      { mergeToolCall terminal t t' with delegation := .absent } := by
  simp only [mergeToolCall, JsField.coalesce_coalesce, ite_twice, ite_twice_right,
    ← Bool.or_assoc, Bool.or_self]
  congr 1
  by_cases htool : t'.toolName = "tool"
  · by_cases hheld : t.toolName = "tool"
    · simp [htool, hheld]
    · simp [htool, hheld]
  · simp [htool]

theorem SameItem.of_eq {a b : TimelineItem} (h : a = b) : SameItem a b := h ▸ SameItem.refl a

theorem sameItem_message {m m' : MessageTimelineItem} (he : e.body = .message m)
    (hi : i.body = .message m') (hrole : m.role = m'.role) :
    SameItem (mergeTimelineItem (mergeTimelineItem e i) i) (mergeTimelineItem e i) := by
  have hmerged : (mergeMessage m m').role = m'.role := rfl
  apply SameItem.of_eq
  rw [merge_message he hi]
  unfold mergeMessageItem
  rw [if_neg (not_not.mpr hrole)]
  by_cases hkept : keepsHeldMessage e i m
  · rw [if_pos hkept, merge_message he hi]
    unfold mergeMessageItem
    rw [if_neg (not_not.mpr hrole), if_pos hkept]
  · rw [if_neg hkept]
    obtain ⟨x, hx⟩ : ∃ x, x = ({ spreadBase e i (mergedSortKey e i)
        (.message (mergeMessage m m')) with
        createdAt := e.createdAt.coalesce i.createdAt } : TimelineItem) := ⟨_, rfl⟩
    have hbody : x.body = .message (mergeMessage m m') := by rw [hx]; rfl
    have hkey : x.sortKey = mergedSortKey e i := by rw [hx]; rfl
    rw [← hx, merge_message hbody hi]
    unfold mergeMessageItem
    rw [if_neg (not_not.mpr hmerged)]
    split_ifs
    · rfl
    · rw [mergedSortKey_twice hkey, mergeMessage_twice, hx]
      simp only [spreadBase, JsField.spread_spread, JsField.coalesce_coalesce_right]

theorem sameItem_thinking {t t' : ThinkingTimelineItem} (he : e.body = .thinking t)
    (hi : i.body = .thinking t') :
    SameItem (mergeTimelineItem (mergeTimelineItem e i) i) (mergeTimelineItem e i) := by
  apply SameItem.of_eq
  have hkey : (mergeThinkingItem e i t t' (mergedSortKey e i)).sortKey = mergedSortKey e i := rfl
  rw [merge_thinking he hi, merge_thinking rfl hi, mergedSortKey_twice hkey]
  unfold mergeThinkingItem
  rw [mergeThinking_twice]
  simp only [spreadBase, JsField.spread_spread, JsField.coalesce_coalesce_right]

theorem sameItem_toolCall {t t' : ToolCallTimelineItem} (he : e.body = .toolCall t)
    (hi : i.body = .toolCall t') :
    SameItem (mergeTimelineItem (mergeTimelineItem e i) i) (mergeTimelineItem e i) := by
  have hstatus : ∀ held incoming : JsField TimelineItemStatus,
      (if isTerminalStatus (if isTerminalStatus held.get && !isTerminalStatus incoming.get
          then held else incoming).get && !isTerminalStatus incoming.get
        then JsField.ofOption (if isTerminalStatus held.get && !isTerminalStatus incoming.get
          then held else incoming).get else incoming).get =
        (if isTerminalStatus held.get && !isTerminalStatus incoming.get then held
          else incoming).get := by
    intro held incoming
    cases hheld : isTerminalStatus held.get with
    | false => simp
    | true =>
      cases hincoming : isTerminalStatus incoming.get with
      | false => simp [hheld]
      | true => simp
  have hkey : (mergeToolCallItem e i t t' (mergedSortKey e i)).sortKey = mergedSortKey e i := rfl
  rw [merge_toolCall he hi, merge_toolCall rfl hi, mergedSortKey_twice hkey]
  unfold mergeToolCallItem
  refine ⟨?_, Perm.refl _, sameRecord_merge_twice t.delegation t'.delegation⟩
  simp only [bare, spreadBase, mergeToolCall_twice, JsField.spread_spread,
    JsField.coalesce_coalesce_right, JsField.get_ofOption, hstatus]

theorem sameItem_compaction {c c' : CompactionTimelineItem} (he : e.body = .compaction c)
    (hi : i.body = .compaction c') :
    SameItem (mergeTimelineItem (mergeTimelineItem e i) i) (mergeTimelineItem e i) := by
  apply SameItem.of_eq
  rw [merge_compaction he hi]
  unfold mergeCompaction
  by_cases hkept : e.status.get ≠ some .running ∧ i.status.get = some .running
  · rw [if_pos hkept, merge_compaction he hi]
    unfold mergeCompaction
    rw [if_pos hkept]
  · rw [if_neg hkept]
    obtain ⟨x, hx⟩ : ∃ x, x = spreadBase e i (mergedSortKey e i) (.compaction
        ⟨c.sessionId.spread c'.sessionId, c.previousSessionId.spread c'.previousSessionId⟩) :=
      ⟨_, rfl⟩
    have hkey : x.sortKey = mergedSortKey e i := by rw [hx]; rfl
    rw [← hx, merge_compaction (by rw [hx]; rfl) hi]
    unfold mergeCompaction
    split_ifs
    · rfl
    · rw [mergedSortKey_twice hkey, hx, spreadBase_twice, JsField.spread_spread,
        JsField.spread_spread]

theorem sameItem_other {o o' : OtherTimelineItem} (he : e.body = .other o) (hi : i.body = .other o')
    (hkind : o.kind = o'.kind) :
    SameItem (mergeTimelineItem (mergeTimelineItem e i) i) (mergeTimelineItem e i) := by
  apply SameItem.of_eq
  have hmerged : mergeOther e i o o' (mergedSortKey e i) = spreadBase e i (mergedSortKey e i)
      (.other ⟨o'.kind, o.turnId.spread o'.turnId,
        o.assistantPhaseIndex.spread o'.assistantPhaseIndex⟩) := if_pos hkind
  obtain ⟨x, hx⟩ : ∃ x, x = spreadBase e i (mergedSortKey e i)
      (.other ⟨o'.kind, o.turnId.spread o'.turnId,
        o.assistantPhaseIndex.spread o'.assistantPhaseIndex⟩) := ⟨_, rfl⟩
  have hkey : x.sortKey = mergedSortKey e i := by rw [hx]; rfl
  rw [merge_other he hi, hmerged, ← hx, merge_other (by rw [hx]; rfl) hi]
  unfold mergeOther
  rw [if_pos rfl, mergedSortKey_twice hkey, hx, spreadBase_twice, JsField.spread_spread,
    JsField.spread_spread]

theorem mergeHandoff_newer {k : String} (hnewer : handoffRevision e ≤ handoffRevision i) :
    mergeHandoff e i h h' k = { spreadBase e i k (.handoff
          { text := if h'.text = "" then h.text else h'.text
            focus := h'.focus
            sourceSessionId := h'.sourceSessionId
            sourceSeq := h'.sourceSeq
            error := .ofOption (if i.status.get = some .running ∧ e.status.get ≠ some .running
              then h.error else h'.error).get
            recipientConversationId :=
              h'.recipientConversationId.coalesce h.recipientConversationId }) with
        status := .ofOption (if i.status.get = some .running ∧ e.status.get ≠ some .running
          then e.status else i.status).get
        sourceRefs := mergedRefs e.sourceRefs i.sourceRefs
        createdAt := if e.sortKey ≤ i.sortKey then e.createdAt.coalesce i.createdAt
          else i.createdAt.coalesce e.createdAt } := by
  unfold mergeHandoff
  simp only [hnewer, if_true]
  by_cases hincoming : i.status.get = some .running
  · by_cases hheld : e.status.get = some .running
    · simp [hincoming, hheld, mergedRefs]
    · simp [hincoming, hheld, mergedRefs]
  · simp [hincoming, mergedRefs]

theorem mergeHandoff_older {k : String} (holder : ¬ handoffRevision e ≤ handoffRevision i) :
    mergeHandoff e i h h' k = { spreadBase i e k (.handoff
          { text := if h.text = "" then h'.text else h.text
            focus := h.focus
            sourceSessionId := h.sourceSessionId
            sourceSeq := h.sourceSeq
            error := .ofOption (if e.status.get = some .running ∧ i.status.get ≠ some .running
              then h'.error else h.error).get
            recipientConversationId :=
              h.recipientConversationId.coalesce h'.recipientConversationId }) with
        status := .ofOption (if e.status.get = some .running ∧ i.status.get ≠ some .running
          then i.status else e.status).get
        sourceRefs := mergedRefs e.sourceRefs i.sourceRefs
        createdAt := if e.sortKey ≤ i.sortKey then e.createdAt.coalesce i.createdAt
          else i.createdAt.coalesce e.createdAt } := by
  unfold mergeHandoff
  simp only [holder, if_false]
  by_cases hheld : e.status.get = some .running
  · by_cases hincoming : i.status.get = some .running
    · simp [hincoming, hheld, mergedRefs]
    · simp [hincoming, hheld, mergedRefs]
  · simp [hheld, mergedRefs]

theorem sameItem_handoff (he : e.body = .handoff h)
    (hi : i.body = .handoff h') (hplain : ∀ ref ∈ e.sourceRefs, ':' ∉ ref.eventType.toList)
    (hplain' : ∀ ref ∈ i.sourceRefs, ':' ∉ ref.eventType.toList) :
    SameItem (mergeTimelineItem (mergeTimelineItem e i) i) (mergeTimelineItem e i) := by
  obtain ⟨x, hx⟩ : ∃ x, x = mergeHandoff e i h h' (mergedSortKey e i) := ⟨_, rfl⟩
  have hkey : x.sortKey = mergedSortKey e i := by rw [hx]; rfl
  have hrefs : x.sourceRefs = mergedRefs e.sourceRefs i.sourceRefs := by rw [hx]; rfl
  have hle : x.sortKey ≤ i.sortKey := hkey ▸ mergedSortKey_le e i
  have hrevision := handoffRevision_merged hrefs hplain hplain'
  have hcreated : x.createdAt.coalesce i.createdAt = x.createdAt := by
    have hfield : x.createdAt = if e.sortKey ≤ i.sortKey then e.createdAt.coalesce i.createdAt
        else i.createdAt.coalesce e.createdAt := by rw [hx]; rfl
    rw [hfield]
    split_ifs
    · exact JsField.coalesce_coalesce_right _ _
    · unfold JsField.coalesce
      rw [JsField.get_ofOption]
      cases i.createdAt.get with
      | none => rw [Option.none_or, Option.or_none]
      | some a => rfl
  obtain ⟨b, hb⟩ : ∃ b, x.body = .handoff b := ⟨_, by rw [hx]; rfl⟩
  rw [merge_handoff he hi, ← hx, merge_handoff hb hi, mergedSortKey_twice hkey]
  by_cases hnewer : handoffRevision e ≤ handoffRevision i
  · rw [mergeHandoff_newer hnewer] at hx
    rw [mergeHandoff_newer (hrevision.mpr hnewer), if_pos hle, hcreated, hrefs]
    have hbody : b = _ := ItemBody.handoff.inj (hb.symm.trans (congrArg TimelineItem.body hx))
    refine ⟨?_, ?_, ?_⟩
    · rw [hbody, hx]
      by_cases hincoming : i.status.get = some .running
      · by_cases hheld : e.status.get = some .running
        · simp [bare, spreadBase, hincoming, hheld, ite_twice]
        · simp [bare, spreadBase, hincoming, hheld, ite_twice]
      · simp [bare, spreadBase, hincoming, ite_twice]
    · rw [hrefs]
      exact mergedRefs_twice _ _
    · rw [hx]
      exact SameRecord.refl _
  · rw [mergeHandoff_older hnewer] at hx
    rw [mergeHandoff_older (fun hlater => hnewer (hrevision.mp hlater)), if_pos hle, hcreated,
      hrefs]
    have hbody : b = _ := ItemBody.handoff.inj (hb.symm.trans (congrArg TimelineItem.body hx))
    refine ⟨?_, ?_, ?_⟩
    · have htext : (if h.text = "" then h'.text else h.text) = "" → ¬ h.text = "" →
          h'.text = h.text := by
        intro hnone hsome
        rw [if_neg hsome] at hnone
        exact absurd hnone hsome
      rw [hbody, hx]
      by_cases hheld : e.status.get = some .running
      · by_cases hincoming : i.status.get = some .running
        · simpa [bare, spreadBase, hincoming, hheld] using htext
        · simpa [bare, spreadBase, hincoming, hheld] using htext
      · simpa [bare, spreadBase, hheld] using htext
    · rw [hrefs]
      exact mergedRefs_twice _ _
    · rw [hx]
      exact SameRecord.refl _

theorem sameItem_merge_twice (hkind : e.kind = i.kind) (he : WellTyped e) (hi : WellTyped i) :
    SameItem (mergeTimelineItem (mergeTimelineItem e i) i) (mergeTimelineItem e i) := by
  rcases kind_cases hkind with ⟨m, m', hem, him, hrole⟩ | ⟨t, t', het, hit⟩ | ⟨t, t', het, hit⟩ |
    ⟨t, t', het, hit⟩ | ⟨c, c', hec, hic⟩ | ⟨o, o', heo, hio, hother⟩
  · exact sameItem_message hem him hrole
  · exact sameItem_thinking het hit
  · exact sameItem_toolCall het hit
  · simp only [WellTyped, het] at he
    simp only [WellTyped, hit] at hi
    exact sameItem_handoff het hit he.2 hi.2
  · exact sameItem_compaction hec hic
  · exact sameItem_other heo hio hother

theorem wellTyped_merge (hkind : e.kind = i.kind) (he : WellTyped e) (hi : WellTyped i) :
    WellTyped (mergeTimelineItem e i) := by
  rcases kind_cases hkind with ⟨m, m', hem, him, hrole⟩ | ⟨t, t', het, hit⟩ | ⟨t, t', het, hit⟩ |
    ⟨t, t', het, hit⟩ | ⟨c, c', hec, hic⟩ | ⟨o, o', heo, hio, hother⟩
  · rw [merge_message hem him]
    unfold mergeMessageItem
    rw [if_neg (not_not.mpr hrole)]
    split_ifs
    · exact he
    · trivial
  · rw [merge_thinking het hit]
    trivial
  · rw [merge_toolCall het hit]
    trivial
  · simp only [WellTyped, het] at he
    simp only [WellTyped, hit] at hi
    rw [merge_handoff het hit]
    have hrefs : ∀ ref ∈ mergedRefs e.sourceRefs i.sourceRefs, ':' ∉ ref.eventType.toList := by
      intro ref href
      obtain ⟨key, hget⟩ := mem_mergedRefs.mp href
      rcases mem_append.mp (key_of_get?_refsByKey hget).1 with hold | hnew
      · exact he.2 ref hold
      · exact hi.2 ref hnew
    refine ⟨?_, hrefs⟩
    intro status hstatus
    by_cases hnewer : handoffRevision e ≤ handoffRevision i
    · rw [mergeHandoff_newer hnewer] at hstatus
      simp only [JsField.get_ofOption] at hstatus
      split_ifs at hstatus
      · exact he.1 status hstatus
      · exact hi.1 status hstatus
    · rw [mergeHandoff_older hnewer] at hstatus
      simp only [JsField.get_ofOption] at hstatus
      split_ifs at hstatus
      · exact hi.1 status hstatus
      · exact he.1 status hstatus
  · rw [merge_compaction hec hic]
    unfold mergeCompaction
    split_ifs
    · exact he
    · simp only [WellTyped, hic] at hi
      obtain ⟨status, hmem, hstatus⟩ := hi
      refine ⟨status, hmem, ?_⟩
      change (e.status.spread i.status).get = _
      cases hfield : i.status with
      | absent | null =>
        rw [hfield] at hstatus
        cases hstatus
      | value s =>
        rw [hfield] at hstatus
        exact hstatus
  · rw [merge_other heo hio]
    unfold mergeOther
    rw [if_pos hother]
    trivial

theorem wellTyped_mergedVersions {first : TimelineItem} {versions : List TimelineItem}
    (hfirst : WellTyped first) (htyped : ∀ v ∈ versions, WellTyped v)
    (hkind : ∀ v ∈ versions, v.kind = first.kind) : WellTyped (mergedVersions first versions) := by
  induction versions using reverseRecOn with
  | nil => exact hfirst
  | append_singleton before version ih =>
    have hbefore : ∀ v ∈ before, v ∈ before ++ [version] := fun v hv => mem_append_left _ hv
    have hlast : version ∈ before ++ [version] :=
      mem_append_right _ (mem_singleton.mpr rfl)
    have hheld : (mergedVersions first before).kind = first.kind :=
      kind_mergedVersions fun v hv => hkind v (hbefore v hv)
    rw [mergedVersions_append]
    exact wellTyped_merge (hheld.trans (hkind version hlast).symm)
      (ih (fun v hv => htyped v (hbefore v hv)) fun v hv => hkind v (hbefore v hv))
      (htyped version hlast)

/-- Merged one after another, the versions of an item leave its terminal status, and each may be
merged twice in a row, exactly when no version reopens an assistant message. -/
theorem terminal_status_kept_iff (first : TimelineItem) (versions : List TimelineItem)
    (hfirst : WellTyped first) (htyped : ∀ v ∈ versions, WellTyped v)
    (hkind : ∀ v ∈ versions, v.kind = first.kind) :
    ((∀ before version, before ++ [version] <+: versions →
        (∃ earlier, earlier <+: before ∧ (mergedVersions first earlier).hasEnded) →
        (mergedVersions first (before ++ [version])).isOpen = false) ∧
      ∀ before version, before ++ [version] <+: versions →
        SameItem (mergeTimelineItem (mergedVersions first (before ++ [version])) version)
          (mergedVersions first (before ++ [version]))) ↔
      ∀ before version, before ++ [version] <+: versions → ¬ Reopens first before version := by
  have htwice : ∀ before version, before ++ [version] <+: versions →
      SameItem (mergeTimelineItem (mergedVersions first (before ++ [version])) version)
        (mergedVersions first (before ++ [version])) := by
    intro before version hpre
    have hbefore : ∀ v ∈ before, v ∈ versions :=
      fun v hv => hpre.subset (mem_append_left _ hv)
    have hlast : version ∈ versions :=
      hpre.subset (mem_append_right _ (mem_singleton.mpr rfl))
    have hheld : (mergedVersions first before).kind = first.kind :=
      kind_mergedVersions fun v hv => hkind v (hbefore v hv)
    rw [mergedVersions_append]
    exact sameItem_merge_twice (hheld.trans (hkind version hlast).symm)
      (wellTyped_mergedVersions hfirst (fun v hv => htyped v (hbefore v hv))
        fun v hv => hkind v (hbefore v hv)) (htyped version hlast)
  rw [and_iff_left htwice]
  exact ended_stays_closed_iff htyped hkind

def reply (status : TimelineItemStatus) : TimelineItem where
  id := "reply"
  sortKey := "1"
  status := .value status
  stable := true
  body := .message { role := .assistant, content := "text", messageId := "message" }

/-- A complete reply meets two stale versions that run. -/
theorem complete_reply_kept :
    (mergedVersions (reply .complete) [reply .running, reply .running]).isOpen = false := by
  have hsame : ∀ v ∈ [reply .running, reply .running], v = reply .running := by simp
  have hkept := (terminal_status_kept_iff (reply .complete) [reply .running, reply .running] trivial
    (fun v hv => hsame v hv ▸ trivial) (fun v hv => hsame v hv ▸ rfl)).mpr ?_
  · exact hkept.1 [reply .running] _ (prefix_refl _) ⟨[], nil_prefix, by decide⟩
  · rintro before version hpre ⟨⟨m, hm, -, hkeeps⟩, -⟩
    have hversion : version = reply .running := hsame _ (hpre.subset (by simp))
    match before, hpre.length_le with
    | [], _ =>
      subst hversion
      cases hm
      revert hkeeps
      decide
    | [other], _ =>
      obtain rfl := hsame other (hpre.subset (by simp))
      subst hversion
      cases hm
      revert hkeeps
      decide
    | _ :: _ :: _, hlong => simp at hlong

theorem failed_reply_runs_again :
    (reply .failed).hasEnded ∧ (reply .running).kind = (reply .failed).kind ∧
      (mergedVersions (reply .failed) []).hasEnded ∧
      (mergedVersions (reply .failed) [reply .running]).isOpen := by
  decide

end Cognis.Timeline
