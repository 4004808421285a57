import Cognis.Memory.Replay

namespace Cognis.Memory

open List Option SortByKey

section

variable (k : Codec)

def listedRevisions (records : List Record) (m : String) : List String :=
  (records.filter fun record => memoryIdOf k record = m).map fun record =>
    (memoryRevision k record).1

def hasAlias (s : MemoryAliasState) (m revision : String) : Bool :=
  (s.aliasesByRevision.get? (m, revision)).isSome

def newRevisions (s : MemoryAliasState) (records : List Record) (m : String) : List String :=
  ((listedRevisions k records m).filter fun revision => !hasAlias s m revision).eraseDups

variable {k} {s : MemoryAliasState} {records : List Record} {record : Record} {m : String}

theorem listedRevisions_append_self (h : memoryIdOf k record = m) :
    listedRevisions k (records ++ [record]) m =
      listedRevisions k records m ++ [(memoryRevision k record).1] := by
  simp [listedRevisions, h]

theorem listedRevisions_append_other (h : memoryIdOf k record ≠ m) :
    listedRevisions k (records ++ [record]) m = listedRevisions k records m := by
  simp [listedRevisions, h]

theorem eraseDups_append_singleton (l : List String) (a : String) :
    (l ++ [a]).eraseDups = if a ∈ l then l.eraseDups else l.eraseDups ++ [a] := by
  rw [eraseDups_append]
  by_cases h : a ∈ l <;> simp [removeAll, h, eraseDups_cons]

theorem newRevisions_append_other (h : memoryIdOf k record ≠ m) :
    newRevisions k s (records ++ [record]) m = newRevisions k s records m := by
  rw [newRevisions, listedRevisions_append_other h]
  rfl

theorem newRevisions_append_self (h : memoryIdOf k record = m) :
    newRevisions k s (records ++ [record]) m =
      if hasAlias s m (memoryRevision k record).1 ∨
          (memoryRevision k record).1 ∈ listedRevisions k records m then
        newRevisions k s records m
      else newRevisions k s records m ++ [(memoryRevision k record).1] := by
  unfold newRevisions
  rw [listedRevisions_append_self h, filter_append]
  by_cases halias : hasAlias s m (memoryRevision k record).1
  · simp [halias]
  · have hlast : [(memoryRevision k record).1].filter (fun revision => !hasAlias s m revision) =
        [(memoryRevision k record).1] := by simp [halias]
    rw [hlast, eraseDups_append_singleton]
    simp [halias]

theorem newRevisions_eq_nil_of_append (h : newRevisions k s (records ++ [record]) m = []) :
    newRevisions k s records m = [] := by
  by_cases hm : memoryIdOf k record = m
  · rw [newRevisions_append_self hm] at h
    split_ifs at h
    · exact h
    · simp at h
  · rwa [newRevisions_append_other hm] at h

end

/-- The new bindings continue the ledger. -/
structure Plan.Sound (bs : List MemoryAliasBinding) (p : Plan) : Prop where
  ledger : IsLedger (bs ++ p.newBindings)
  nextNumber : p.nextNumber = (bs ++ p.newBindings).length + 1
  byRevision : ∀ key a, p.plannedByRevision.get? key = some a ↔
    ∃ b ∈ p.newBindings, b.revisionKey = key ∧ b.aliasName = a
  active : ∀ m a, p.plannedActive.get? m = some a →
    ∃ b ∈ bs ++ p.newBindings, b.memoryId = m ∧ b.aliasName = a
  listed : Listed (bs ++ p.newBindings).length p.invalidated

section

variable {s : MemoryAliasState} {bs : List MemoryAliasBinding} {p : Plan} {m a : String}
  {key : String × String} {revision : String × Option String}

theorem Plan.Sound.knownAlias_iff (h : p.Sound bs) (hs : Reflects s bs) :
    s.knownAlias p key = some a ↔
      ∃ b ∈ bs ++ p.newBindings, b.revisionKey = key ∧ b.aliasName = a := by
  unfold MemoryAliasState.knownAlias
  simp only [or_eq_some_iff, hs.byRevision, h.byRevision, mem_append]
  constructor
  · rintro (⟨b, hb, hkey, hname⟩ | ⟨-, b, hb, hkey, hname⟩)
    · exact ⟨b, .inl hb, hkey, hname⟩
    · exact ⟨b, .inr hb, hkey, hname⟩
  · rintro ⟨b, hb | hb, hkey, hname⟩
    · exact .inl ⟨b, hb, hkey, hname⟩
    · refine .inr ⟨?_, b, hb, hkey, hname⟩
      rw [eq_none_iff_forall_ne_some]
      intro a' ha'
      obtain ⟨c, hc, hckey, -⟩ := (hs.byRevision _ _).mp ha'
      have hnodup := h.ledger.distinct
      rw [map_append, nodup_append] at hnodup
      exact hnodup.2.2 _ (mem_map_of_mem hc) _ (mem_map_of_mem hb) (hckey.trans hkey.symm)

theorem knownAlias_allocate (hnone : s.knownAlias p (m, revision.1) = none) :
    s.knownAlias (p.allocate m revision) key =
      if key = (m, revision.1) then some (aliasText p.nextNumber) else s.knownAlias p key := by
  obtain ⟨hold, -⟩ := or_eq_none_iff.mp hnone
  unfold MemoryAliasState.knownAlias Plan.allocate
  rw [OrderedMap.get?_set]
  by_cases hkey : key = (m, revision.1)
  · rw [if_pos hkey, if_pos hkey, hkey, hold]
    rfl
  · rw [if_neg hkey, if_neg hkey]

theorem Plan.Sound.allocate (h : p.Sound bs) (hs : Reflects s bs)
    (hnone : s.knownAlias p (m, revision.1) = none)
    (hvalid : MemoryAliasBinding.Valid ⟨aliasText p.nextNumber, m, revision.1, revision.2⟩) :
    (p.allocate m revision).Sound bs := by
  let b : MemoryAliasBinding := ⟨aliasText p.nextNumber, m, revision.1, revision.2⟩
  have hfresh : ∀ c ∈ bs ++ p.newBindings, c.revisionKey ≠ b.revisionKey := by
    intro c hc heq
    have hsome := (h.knownAlias_iff hs).mpr ⟨c, hc, heq, rfl⟩
    change s.knownAlias p (m, revision.1) = _ at hsome
    rw [hnone] at hsome
    cases hsome
  refine ⟨?_, ?_, ?_, ?_, ?_⟩
  · change IsLedger (bs ++ (p.newBindings ++ [b]))
    rw [← append_assoc, isLedger_append_singleton]
    exact ⟨h.ledger, congrArg aliasText h.nextNumber, hfresh, hvalid⟩
  · change p.nextNumber + 1 = (bs ++ (p.newBindings ++ [b])).length + 1
    rw [h.nextNumber]
    simp only [length_append, length_singleton]
    omega
  · intro key a
    change (p.plannedByRevision.set (m, revision.1) (aliasText p.nextNumber)).get? key = some a ↔
      ∃ c ∈ p.newBindings ++ [b], c.revisionKey = key ∧ c.aliasName = a
    rw [OrderedMap.get?_set]
    simp only [mem_append, mem_singleton]
    by_cases hkey : key = (m, revision.1)
    · rw [if_pos hkey, some.injEq]
      constructor
      · rintro rfl
        exact ⟨b, .inr rfl, hkey.symm, rfl⟩
      · rintro ⟨c, hc | rfl, hckey, hname⟩
        · exact absurd (hckey.trans hkey) (hfresh c (mem_append_right _ hc))
        · exact hname
    · rw [if_neg hkey, h.byRevision]
      constructor
      · rintro ⟨c, hc, hckey, hname⟩
        exact ⟨c, .inl hc, hckey, hname⟩
      · rintro ⟨c, hc | rfl, hckey, hname⟩
        · exact ⟨c, hc, hckey, hname⟩
        · exact absurd hckey.symm hkey
  · intro m' a ha
    obtain ⟨c, hc, hcm, hname⟩ := h.active m' a ha
    refine ⟨c, ?_, hcm, hname⟩
    change c ∈ bs ++ (p.newBindings ++ [b])
    rw [← append_assoc]
    exact mem_append_left _ hc
  · refine h.listed.mono ?_
    change _ ≤ (bs ++ (p.newBindings ++ [b])).length
    simp only [length_append]
    omega

theorem mem_invalidated_list {record : Record} {c : String} : c ∈ (p.list record m a).invalidated ↔
      c ∈ p.invalidated ∨ (p.plannedActive.get? m = some c ∧ c ≠ a) := by
  unfold Plan.list
  split
  · rename_i previous hprevious
    obtain ⟨hactive, hne⟩ := filter_eq_some_iff.mp hprevious
    rw [mem_insert_iff, hactive, some.injEq]
    constructor
    · rintro (rfl | hc)
      · exact .inr ⟨rfl, by simpa using hne⟩
      · exact .inl hc
    · rintro (hc | ⟨rfl, -⟩)
      · exact .inr hc
      · exact .inl rfl
  · rename_i hnone
    rw [or_iff_left]
    rintro ⟨hactive, hne⟩
    rw [hactive] at hnone
    simp [hne] at hnone

theorem Plan.Sound.list {record : Record} {r : String} (h : p.Sound bs) (hs : Reflects s bs)
    (hknown : s.knownAlias p (m, r) = some a) : (p.list record m a).Sound bs := by
  obtain ⟨b, hb, hkey, hname⟩ := (h.knownAlias_iff hs).mp hknown
  refine ⟨h.ledger, h.nextNumber, h.byRevision, ?_, ?_, ?_⟩
  · intro m' a' ha'
    change (p.plannedActive.set m a).get? m' = some a' at ha'
    rw [OrderedMap.get?_set] at ha'
    split_ifs at ha' with hm
    · cases ha'
      have hmemory := congrArg Prod.fst hkey
      exact ⟨b, hb, hmemory.trans hm.symm, hname⟩
    · exact h.active m' a' ha'
  · unfold Plan.list
    split
    · exact h.listed.nodup.insert
    · exact h.listed.nodup
  · intro c hc
    obtain hc | ⟨hactive, -⟩ := mem_invalidated_list.mp hc
    · exact h.listed.numbered c hc
    · obtain ⟨d, hd, -, rfl⟩ := h.active _ _ hactive
      exact h.ledger.exists_number hd

theorem Plan.Sound.start (hs : Reflects s bs) : s.startPlan.Sound bs where
  ledger := by simpa [MemoryAliasState.startPlan] using hs.ledger
  nextNumber := by simpa [MemoryAliasState.startPlan] using hs.nextNumber
  byRevision := by
    intro key a
    constructor
    · intro h
      cases h
    · rintro ⟨b, hb, -⟩
      cases hb
  active := by
    intro m a ha
    change s.activeByMemoryId.get? m = some a at ha
    rw [hs.active] at ha
    obtain ⟨b, hb, rfl⟩ := map_eq_some_iff.mp ha
    obtain ⟨hmem, hm⟩ := lastOf_spec hb
    exact ⟨b, mem_append_left _ hmem, hm, rfl⟩
  listed := listed_nil _

end

def MemoryAliasState.projectedRecord (k : Codec) (s : MemoryAliasState) (p : Plan)
    (record : Record) : Record :=
  if memoryIdOf k record = "" then record
  else
    match s.knownAlias p (memoryIdOf k record, (memoryRevision k record).1) with
    | some aliasName => JsonValue.insert record "id" (.str aliasName)
    | none => record

/-- The plan is what the records ask for. -/
structure Plan.Follows (k : Codec) (s : MemoryAliasState) (bs : List MemoryAliasBinding)
    (records : List Record) (p : Plan) : Prop where
  sound : p.Sound bs
  known : ∀ m ≠ "", ∀ r ∈ listedRevisions k records m, (s.knownAlias p (m, r)).isSome = true
  active : ∀ m ≠ "", p.plannedActive.get? m =
    match (listedRevisions k records m).getLast? with
    | some r => s.knownAlias p (m, r)
    | none => s.activeByMemoryId.get? m
  added : ∀ m ≠ "", (p.newBindings.filter (·.memoryId = m)).map (·.revision) =
    newRevisions k s records m
  kept : ∀ m ≠ "", ∀ c, newRevisions k s records m = [] → s.activeByMemoryId.get? m = some c →
    (c ∈ p.invalidated ↔
      ∃ r ∈ listedRevisions k records m, s.aliasesByRevision.get? (m, r) ≠ some c)
  projected : p.projected = records.map (s.projectedRecord k p)

section

variable {k : Codec} {s : MemoryAliasState} {bs : List MemoryAliasBinding}
  {records : List Record} {record : Record} {p : Plan}

theorem Plan.Follows.skip (h : p.Follows k s bs records) (hid : memoryIdOf k record = "") :
    Plan.Follows k s bs (records ++ [record]) { p with projected := p.projected ++ [record] } := by
  have hsame (m : String) (hm : m ≠ "") :
      listedRevisions k (records ++ [record]) m = listedRevisions k records m :=
    listedRevisions_append_other fun heq => hm (heq.symm.trans hid)
  have hnew (m : String) (hm : m ≠ "") :
      newRevisions k s (records ++ [record]) m = newRevisions k s records m :=
    newRevisions_append_other fun heq => hm (heq.symm.trans hid)
  refine ⟨?_, ?_, ?_, ?_, ?_, ?_⟩
  · exact ⟨h.sound.ledger, h.sound.nextNumber, h.sound.byRevision, h.sound.active, h.sound.listed⟩
  · intro m hm
    rw [hsame m hm]
    exact h.known m hm
  · intro m hm
    rw [hsame m hm]
    exact h.active m hm
  · intro m hm
    rw [hnew m hm]
    exact h.added m hm
  · intro m hm c
    rw [hnew m hm, hsame m hm]
    exact h.kept m hm c
  · change p.projected ++ [record] = _
    rw [h.projected, map_append, map_singleton]
    congr 2
    rw [MemoryAliasState.projectedRecord, if_pos hid]

theorem Plan.Follows.start (hs : Reflects s bs) : s.startPlan.Follows k s bs [] where
  sound := .start hs
  known := by
    intro m _ r hr
    cases hr
  active := fun m _ => rfl
  added := fun m _ => rfl
  kept := by
    intro m _ c _ _
    constructor
    · intro hc
      cases hc
    · rintro ⟨r, hr, -⟩
      cases hr
  projected := rfl

/-- Listing a record under the alias of its revision, which `q` knows. -/
theorem Plan.Follows.list {q : Plan} {m a : String} (h : p.Follows k s bs records)
    (hs : Reflects s bs) (hm : memoryIdOf k record = m) (hne : m ≠ "") (hq : q.Sound bs)
    (hactive : q.plannedActive = p.plannedActive) (hinvalidated : q.invalidated = p.invalidated)
    (hprojected : q.projected = p.projected)
    (hmono : ∀ key a, s.knownAlias p key = some a → s.knownAlias q key = some a)
    (hknown : s.knownAlias q (m, (memoryRevision k record).1) = some a)
    (hadded : ∀ m' ≠ "", (q.newBindings.filter (·.memoryId = m')).map (·.revision) =
      newRevisions k s (records ++ [record]) m')
    (hold : newRevisions k s (records ++ [record]) m = [] →
      s.aliasesByRevision.get? (m, (memoryRevision k record).1) = some a) :
    (q.list record m a).Follows k s bs (records ++ [record]) := by
  have hplanned (m' : String) : (q.list record m a).plannedActive.get? m' =
      if m' = m then some a else p.plannedActive.get? m' := by
    change (q.plannedActive.set m a).get? m' = _
    rw [OrderedMap.get?_set, hactive]
  have hsome (key : String × String) (hp : (s.knownAlias p key).isSome) :
      s.knownAlias q key = s.knownAlias p key := by
    obtain ⟨a', ha'⟩ := isSome_iff_exists.mp hp
    rw [ha', hmono key a' ha']
  refine ⟨hq.list hs hknown, ?_, ?_, hadded, ?_, ?_⟩
  · intro m' hm' r hr
    change (s.knownAlias q (m', r)).isSome
    by_cases hsame : m = m'
    · subst hsame
      rw [listedRevisions_append_self hm, mem_append, mem_singleton] at hr
      obtain hr | rfl := hr
      · rw [hsome _ (h.known m hm' r hr)]
        exact h.known m hm' r hr
      · rw [hknown]
        rfl
    · rw [listedRevisions_append_other (fun heq => hsame (hm.symm.trans heq))] at hr
      rw [hsome _ (h.known m' hm' r hr)]
      exact h.known m' hm' r hr
  · intro m' hm'
    rw [hplanned]
    by_cases hsame : m' = m
    · subst hsame
      rw [if_pos rfl, listedRevisions_append_self hm, getLast?_concat]
      exact hknown.symm
    · rw [if_neg hsame, listedRevisions_append_other fun heq => hsame (heq.symm.trans hm),
        h.active m' hm']
      cases hlast : (listedRevisions k records m').getLast? with
      | none => rfl
      | some r => exact (hsome _ (h.known m' hm' r (mem_of_getLast? hlast))).symm
  · intro m' hm' c hnew hc
    have hkept := h.kept m' hm' c (newRevisions_eq_nil_of_append hnew) hc
    rw [mem_invalidated_list, hinvalidated, hactive, hkept]
    by_cases hsame : m = m'
    · subst hsame
      rw [listedRevisions_append_self hm]
      have hlisted := hold hnew
      constructor
      · rintro (⟨r, hr, hne⟩ | ⟨-, hne⟩)
        · exact ⟨r, mem_append_left _ hr, hne⟩
        · refine ⟨_, mem_append_right _ mem_cons_self, ?_⟩
          rw [hlisted]
          intro heq
          exact hne (some.inj heq).symm
      · rintro ⟨r, hr, hne⟩
        rw [mem_append, mem_singleton] at hr
        by_cases hbefore : ∃ r ∈ listedRevisions k records m,
            s.aliasesByRevision.get? (m, r) ≠ some c
        · exact .inl hbefore
        · -- every record before this one carries the active alias
          simp only [not_exists, not_and, not_not] at hbefore
          obtain hr | rfl := hr
          · exact absurd (hbefore r hr) hne
          · refine .inr ⟨?_, ?_⟩
            · rw [h.active m hm']
              cases hlast : (listedRevisions k records m).getLast? with
              | none => exact hc
              | some r =>
                change s.knownAlias p (m, r) = some c
                rw [MemoryAliasState.knownAlias, hbefore r (mem_of_getLast? hlast)]
                rfl
            · rintro rfl
              exact hne hlisted
    · rw [listedRevisions_append_other fun heq => hsame (hm.symm.trans heq), or_iff_left]
      -- the alias of one memory is not the planned one of another
      rintro ⟨hother, -⟩
      obtain ⟨b, hb, hbm, hbname⟩ := h.sound.active m c hother
      rw [hs.active] at hc
      obtain ⟨d, hd, hdname⟩ := map_eq_some_iff.mp hc
      obtain ⟨hdmem, hdm⟩ := lastOf_spec hd
      have hbd := h.sound.ledger.eq_of_name hb (mem_append_left _ hdmem) (hbname.trans hdname.symm)
      exact hsame (by rw [← hbm, hbd, hdm])
  · change q.projected ++ [JsonValue.insert record "id" (.str a)] = _
    rw [map_append, map_singleton, hprojected, h.projected]
    congr 1
    · apply map_congr_left
      intro r hr
      unfold MemoryAliasState.projectedRecord
      by_cases hid : memoryIdOf k r = ""
      · rw [if_pos hid, if_pos hid]
      · rw [if_neg hid, if_neg hid]
        have hin : (memoryRevision k r).1 ∈ listedRevisions k records (memoryIdOf k r) := by
          exact mem_map_of_mem (mem_filter.mpr ⟨hr, by simp⟩)
        have hsame := hsome _ (h.known _ hid _ hin)
        change _ = match s.knownAlias q (memoryIdOf k r, (memoryRevision k r).1) with
          | some aliasName => JsonValue.insert r "id" (.str aliasName)
          | none => r
        rw [hsame]
    · unfold MemoryAliasState.projectedRecord
      rw [if_neg (by rw [hm]; exact hne), hm]
      change _ = [match s.knownAlias q (m, (memoryRevision k record).1) with
        | some aliasName => JsonValue.insert record "id" (.str aliasName)
        | none => record]
      rw [hknown]

theorem Plan.Follows.mem_newRevisions (h : p.Follows k s bs records) {m r : String}
    (hm : m ≠ "") {b : MemoryAliasBinding} (hb : b ∈ p.newBindings)
    (hkey : b.revisionKey = (m, r)) : r ∈ newRevisions k s records m := by
  obtain ⟨rfl, rfl⟩ := Prod.mk.inj hkey
  rw [← h.added b.memoryId hm]
  exact mem_map_of_mem (mem_filter.mpr ⟨hb, by simp⟩)

theorem mem_of_newRevisions {m r : String} (h : r ∈ newRevisions k s records m) :
    r ∈ listedRevisions k records m ∧ hasAlias s m r = false := by
  rw [newRevisions, mem_eraseDups, mem_filter] at h
  simpa using h

theorem Plan.Follows.planRecord (h : p.Follows k s bs records) (hs : Reflects s bs)
    (record : Record) : (s.planRecord k p record).Follows k s bs (records ++ [record]) := by
  unfold MemoryAliasState.planRecord
  extract_lets m revision
  split
  · rename_i hid
    exact h.skip hid
  · rename_i hm
    cases hknown : s.knownAlias p (m, revision.1) with
    | some a =>
      have hcases : hasAlias s m revision.1 ∨ revision.1 ∈ newRevisions k s records m := by
        by_cases halias : hasAlias s m revision.1
        · exact .inl halias
        · rw [hasAlias, not_isSome_iff_eq_none] at halias
          rw [MemoryAliasState.knownAlias, halias, none_or] at hknown
          obtain ⟨b, hb, hkey, -⟩ := (h.sound.byRevision _ _).mp hknown
          exact .inr (h.mem_newRevisions hm hb hkey)
      refine h.list hs rfl hm h.sound rfl rfl rfl (fun _ _ ha => ha) hknown ?_ ?_
      · intro m' hm'
        rw [h.added m' hm']
        by_cases hsame : memoryIdOf k record = m'
        · subst hsame
          rw [newRevisions_append_self rfl, if_pos]
          exact hcases.imp_right fun hnew => (mem_of_newRevisions hnew).1
        · rw [newRevisions_append_other hsame]
      · intro hnew
        obtain halias | hmem := hcases
        · obtain ⟨a', ha'⟩ := isSome_iff_exists.mp halias
          rw [MemoryAliasState.knownAlias, ha', some_or] at hknown
          rw [ha', hknown]
        · rw [newRevisions_eq_nil_of_append hnew] at hmem
          cases hmem
    | none =>
      obtain ⟨hvalid, hexpected⟩ := memoryRevision_valid k record
      have hallocate (key : String × String) : s.knownAlias (p.allocate m revision) key =
          if key = (m, revision.1) then some (aliasText p.nextNumber) else s.knownAlias p key :=
        knownAlias_allocate hknown
      have hnew : ¬(hasAlias s m revision.1 ∨ revision.1 ∈ listedRevisions k records m) := by
        rintro (halias | hlisted)
        · rw [hasAlias, isSome_iff_ne_none] at halias
          exact halias (or_eq_none_iff.mp hknown).1
        · have hsome := h.known m hm _ hlisted
          rw [hknown] at hsome
          cases hsome
      refine h.list hs rfl hm (h.sound.allocate hs hknown ⟨hm, hvalid, hexpected⟩) rfl rfl rfl
        ?_ ?_ ?_ ?_
      · intro key a ha
        rw [hallocate]
        by_cases hkey : key = (m, revision.1)
        · rw [hkey, hknown] at ha
          cases ha
        · rw [if_neg hkey]
          exact ha
      · rw [hallocate, if_pos rfl]
      · intro m' hm'
        change ((p.newBindings ++ [_]).filter _).map _ = _
        rw [filter_append, map_append, h.added m' hm']
        by_cases hsame : memoryIdOf k record = m'
        · subst hsame
          rw [newRevisions_append_self rfl, if_neg hnew]
          simp [m, revision]
        · rw [newRevisions_append_other hsame]
          simp [m, hsame]
      · intro hnil
        rw [newRevisions_append_self rfl, if_neg hnew] at hnil
        simp at hnil

theorem plan_follows (hs : Reflects s bs) (records : List Record) :
    (s.plan k records).Follows k s bs records := by
  induction records using reverseRecOn with
  | nil => exact .start hs
  | append_singleton records record ih =>
    rw [MemoryAliasState.plan, foldl_append]
    exact ih.planRecord hs record

end

end Cognis.Memory
