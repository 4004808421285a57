import Cognis.Memory.Planning

namespace Cognis.Memory

open List SortByKey

variable {names : List String} {a : String}

/-- What holds of a state whatever the session did. -/
structure MemoryAliasState.Sound (s : MemoryAliasState) (bs : List MemoryAliasBinding) :
    Prop where
  reflects : Reflects s bs
  listed : Listed bs.length s.invalidated

section

variable {k : Codec} {s : MemoryAliasState} {bs : List MemoryAliasBinding}

theorem Listed.sorted {limit : Nat} (h : Listed limit names) :
    Listed limit (sortBy aliasSortKey names) := by
  have hperm := sortBy_perm aliasSortKey names
  refine ⟨hperm.nodup_iff.mpr h.nodup, ?_⟩
  intro a ha
  exact h.numbered a (hperm.mem_iff.mp ha)

theorem MemoryAliasState.Sound.commit (h : s.Sound bs) {cs : List MemoryAliasBinding}
    (hl : IsLedger (bs ++ cs)) (hnames : Listed (bs ++ cs).length names) :
    (s.commit cs names).Sound (bs ++ cs) := by
  refine ⟨h.reflects.commit hl, ?_⟩
  refine Listed.commit h.reflects hl (h.listed.mono ?_) hnames le_rfl
  rw [length_append]
  omega

theorem MemoryAliasState.Sound.applyPlanned (h : s.Sound bs) (records : List Record) :
    s.applyPlanned (s.planRecords k records).2 = s.commit (s.plan k records).newBindings
          (sortBy aliasSortKey (s.plan k records).invalidated) ∧
      ∀ delta, (s.planRecords k records).2 = some delta → (s.apply delta).2 = true := by
  have hplan := (plan_follows (k := k) h.reflects records).sound
  have happly := h.reflects.apply hplan.ledger hplan.listed.sorted
  unfold MemoryAliasState.planRecords
  dsimp only
  split
  · rename_i hempty
    rw [Bool.and_eq_true, List.isEmpty_iff, List.isEmpty_iff] at hempty
    refine ⟨?_, ?_⟩
    · rw [hempty.1, hempty.2]
      rfl
    · intro delta hdelta
      cases hdelta
  · refine ⟨?_, ?_⟩
    · change (s.apply _).1 = _
      rw [happly]
    · rintro delta ⟨⟩
      rw [happly]

theorem MemoryAliasState.Sound.records (h : s.Sound bs) (records : List Record) :
    (s.applyPlanned (s.planRecords k records).2).Sound (bs ++ (s.plan k records).newBindings) := by
  have hplan := (plan_follows (k := k) h.reflects records).sound
  rw [(h.applyPlanned records).1]
  exact h.commit hplan.ledger hplan.listed.sorted

theorem MemoryAliasState.Sound.invalidate (h : s.Sound bs) (m : String) :
    (s.applyPlanned (s.invalidateMemory m)).Sound bs := by
  unfold MemoryAliasState.invalidateMemory
  cases ha : s.activeAlias m with
  | none => exact h
  | some a =>
    have hactive := (Option.filter_eq_some_iff.mp ha).1
    rw [h.reflects.active] at hactive
    obtain ⟨b, hb, rfl⟩ := Option.map_eq_some_iff.mp hactive
    have hnames : Listed (bs ++ []).length [b.aliasName] := by
      refine ⟨nodup_singleton _, ?_⟩
      intro a ha
      rw [mem_singleton.mp ha, append_nil]
      exact h.reflects.ledger.exists_number (lastOf_spec hb).1
    have hl : IsLedger (bs ++ []) := by
      rw [append_nil]
      exact h.reflects.ledger
    have hcommit := h.commit hl hnames
    rw [append_nil] at hcommit
    change (s.apply (deltaDict [] [b.aliasName])).1.Sound bs
    rw [h.reflects.apply hl hnames]
    exact hcommit

theorem sound_fresh : MemoryAliasState.Sound {} [] := ⟨reflects_fresh, listed_nil _⟩

theorem MemoryAliasState.Sound.step (h : s.Sound bs) (e : Step) :
    ∃ cs, (s.step k e).Sound (bs ++ cs) := by
  cases e with
  | records records => exact ⟨_, h.records records⟩
  | invalidate m =>
    refine ⟨[], ?_⟩
    rw [append_nil]
    exact h.invalidate m

theorem MemoryAliasState.Sound.run (h : s.Sound bs) (steps : List Step) :
    ∃ cs, (Runs.run (MemoryAliasState.step k) s steps).Sound (bs ++ cs) := by
  induction steps generalizing s bs with
  | nil =>
    refine ⟨[], ?_⟩
    rw [append_nil]
    exact h
  | cons e steps ih =>
    obtain ⟨cs, hcs⟩ := h.step (k := k) e
    obtain ⟨ds, hds⟩ := ih hcs
    refine ⟨cs ++ ds, ?_⟩
    rw [← append_assoc]
    exact hds

theorem sessionAfter_sound (k : Codec) (steps : List Step) :
    ∃ bs, (sessionAfter k steps).Sound bs := by
  obtain ⟨bs, h⟩ := sound_fresh.run (k := k) steps
  exact ⟨bs, h⟩

theorem bindings_persist {steps : List Step} (later : List Step) {b : MemoryAliasBinding}
    (h : (sessionAfter k steps).bindings.get? a = some b) :
    (sessionAfter k (steps ++ later)).bindings.get? a = some b := by
  obtain ⟨bs, hbs⟩ := sessionAfter_sound k steps
  obtain ⟨cs, hcs⟩ := hbs.run (k := k) later
  rw [sessionAfter, Runs.run_append]
  rw [hbs.reflects.bindings] at h
  exact (hcs.reflects.bindings a b).mpr ⟨mem_append_left _ h.1, h.2⟩

end

section

variable {s : MemoryAliasState} {bs : List MemoryAliasBinding} {b : MemoryAliasBinding}

theorem Reflects.resolveBinding (h : Reflects s bs) (hb : b ∈ bs) : s.resolveBinding b.aliasName =
      if s.activeAlias b.memoryId = some b.aliasName then .ok (some b)
      else .error ⟨b.aliasName, "stale"⟩ := by
  obtain ⟨i, -, hname⟩ := h.ledger.exists_number hb
  have hbound := (h.bindings b.aliasName b).mpr ⟨hb, rfl⟩
  have hstrip : strip b.aliasName = b.aliasName := by rw [hname, strip_aliasText]
  have hnumber : (aliasNumber b.aliasName).isNone = false := by
    rw [hname, aliasNumber_aliasText (Nat.succ_pos i)]
    rfl
  unfold MemoryAliasState.resolveBinding MemoryAliasState.activeAlias
  dsimp only
  rw [hstrip, hnumber, hbound]
  by_cases hactive : s.activeByMemoryId.get? b.memoryId = some b.aliasName
  · simp [hactive]
  · simp [hactive]

theorem Reflects.activeAlias_eq_some_iff (h : Reflects s bs) {m : String} :
    s.activeAlias m = some a ↔ ∃ b, lastOf bs m = some b ∧ b.aliasName = a ∧ a ∉ s.invalidated := by
  unfold MemoryAliasState.activeAlias
  rw [Option.filter_eq_some_iff, h.active, Option.map_eq_some_iff]
  constructor
  · rintro ⟨⟨b, hb, hname⟩, hlive⟩
    exact ⟨b, hb, hname, by simpa using hlive⟩
  · rintro ⟨b, hb, hname, hlive⟩
    exact ⟨⟨b, hb, hname⟩, by simpa using hlive⟩

end

section

variable (k : Codec)

def lastListed (records projected : List Record) (m : String) : Option (Record × Record) :=
  ((records.zip projected).filter fun pair => memoryIdOf k pair.1 = m).getLast?

def LastResolves (t : MemoryAliasState) (records projected : List Record) (m : String) : Prop :=
  ∃ record item a b, lastListed k records projected m = some (record, item) ∧
    JsonValue.get? item "id" = some (.str a) ∧ t.resolveBinding a = .ok (some b) ∧
    b.memoryId = m ∧ b.revision = (memoryRevision k record).1

/-- Among the records of a memory the revision allotted the last alias comes last, or, if
none is allotted, all of them carry the memory's active alias. -/
def KeepsAlias (s : MemoryAliasState) (records : List Record) (m : String) : Prop :=
  match (newRevisions k s records m).getLast? with
  | some newest => (listedRevisions k records m).getLast? = some newest
  | none => ∃ c, s.activeAlias m = some c ∧
      ∀ r ∈ listedRevisions k records m, s.aliasesByRevision.get? (m, r) = some c

variable {k} {s : MemoryAliasState} {bs : List MemoryAliasBinding} {records : List Record}
  {m : String}

theorem lastListed_map (f : Record → Record) : lastListed k records (records.map f) m =
      ((records.filter fun record => memoryIdOf k record = m).getLast?).map
        fun record => (record, f record) := by
  have hzip : records.zip (records.map f) = records.map fun record => (record, f record) := by
    induction records with
    | nil => rfl
    | cons record records ih => simp [ih]
  rw [lastListed, hzip, filter_map, getLast?_map]
  rfl

theorem getLast?_newRevisions {p : Plan} (h : p.Follows k s bs records) (hm : m ≠ "") :
    (newRevisions k s records m).getLast? = (lastOf p.newBindings m).map (·.revision) := by
  rw [← h.added m hm, getLast?_map]
  rfl

theorem Plan.Follows.lastResolves_iff {t : MemoryAliasState} {p : Plan}
    (h : p.Follows k s bs records) (hs : Reflects s bs) (ht : Reflects t (bs ++ p.newBindings))
    (hm : m ≠ "") (hmem : m ∈ records.map (memoryIdOf k)) :
    ∃ b ∈ bs ++ p.newBindings, b.memoryId = m ∧
      (listedRevisions k records m).getLast? = some b.revision ∧
      s.knownAlias p (m, b.revision) = some b.aliasName ∧
      (LastResolves k t records p.projected m ↔ t.activeAlias m = some b.aliasName) := by
  obtain ⟨record, hlast⟩ : ∃ record,
      (records.filter fun record => memoryIdOf k record = m).getLast? = some record := by
    obtain ⟨record, hrecord, hid⟩ := mem_map.mp hmem
    rw [← Option.isSome_iff_exists, getLast?_isSome]
    exact ne_nil_of_mem (mem_filter.mpr ⟨hrecord, by simpa using hid⟩)
  have hid : memoryIdOf k record = m := by
    simpa using (mem_filter.mp (mem_of_getLast? hlast)).2
  have hlisted : (listedRevisions k records m).getLast? = some (memoryRevision k record).1 := by
    rw [listedRevisions, getLast?_map, hlast]
    rfl
  obtain ⟨a, ha⟩ := Option.isSome_iff_exists.mp (h.known m hm _ (mem_of_getLast? hlisted))
  obtain ⟨b, hb, hkey, rfl⟩ := (h.sound.knownAlias_iff hs).mp ha
  obtain ⟨hbm, hbr⟩ := Prod.mk.inj hkey
  have hshown : lastListed k records p.projected m =
      some (record, JsonValue.insert record "id" (.str b.aliasName)) := by
    rw [h.projected, lastListed_map, hlast, Option.map_some,
      MemoryAliasState.projectedRecord, hid, if_neg hm, ha]
  have hresolve := ht.resolveBinding hb
  rw [hbm] at hresolve
  refine ⟨b, hb, hbm, hbr ▸ hlisted, hbr ▸ ha, ?_⟩
  unfold LastResolves
  rw [hshown]
  constructor
  · rintro ⟨_, _, a', b', ⟨⟩, hget, hok, -⟩
    rw [JsonValue.get?_insert_self] at hget
    cases hget
    rw [hresolve] at hok
    by_contra hstale
    rw [if_neg hstale] at hok
    cases hok
  · intro hactive
    rw [if_pos hactive] at hresolve
    exact ⟨record, _, b.aliasName, b, rfl, JsonValue.get?_insert_self _ _ _, hresolve, hbm, hbr⟩

theorem Plan.Follows.live_iff {p : Plan} (h : p.Follows k s bs records) (hs : Reflects s bs)
    (hm : m ≠ "") (hnew : lastOf p.newBindings m = none) {d : MemoryAliasBinding}
    (hd : lastOf bs m = some d) :
    d.aliasName ∉ (s.commit p.newBindings (sortBy aliasSortKey p.invalidated)).invalidated ↔
      d.aliasName ∉ s.invalidated ∧ ∀ r ∈ listedRevisions k records m,
        s.aliasesByRevision.get? (m, r) = some d.aliasName := by
  have hnone : newRevisions k s records m = [] := by
    have hgetLast := getLast?_newRevisions h hm
    rw [hnew, Option.map_none, getLast?_eq_none_iff] at hgetLast
    exact hgetLast
  have hactive : s.activeByMemoryId.get? m = some d.aliasName := by
    rw [hs.active, hd]
    rfl
  have htotal : lastOf (bs ++ p.newBindings) m = some d := by
    rw [lastOf_append, hnew, hd]
    rfl
  rw [hs.mem_invalidated_commit h.sound.ledger htotal, (sortBy_perm _ _).mem_iff,
    h.kept m hm d.aliasName hnone hactive, and_iff_right hnew, not_or, and_comm]
  apply and_congr_right
  intro _
  rw [not_exists]
  apply forall_congr'
  intro r
  rw [not_and, not_not]

theorem MemoryAliasState.Sound.lastResolves_iff (h : s.Sound bs) (hm : m ≠ "")
    (hmem : m ∈ records.map (memoryIdOf k)) :
    LastResolves k (s.applyPlanned (s.planRecords k records).2) records
      (s.planRecords k records).1 m ↔ KeepsAlias k s records m := by
  have hplan := plan_follows (k := k) h.reflects records
  have hledger := hplan.sound.ledger
  rw [(h.applyPlanned (k := k) records).1]
  change LastResolves k _ records (s.plan k records).projected m ↔ _
  revert hplan hledger
  generalize s.plan k records = p
  intro hplan hledger
  have hcommit : Reflects (s.commit p.newBindings (sortBy aliasSortKey p.invalidated))
      (bs ++ p.newBindings) := h.reflects.commit hledger
  obtain ⟨b, hb, hbm, hlisted, hknown, hresolves⟩ :=
    hplan.lastResolves_iff h.reflects hcommit hm hmem
  rw [hresolves, hcommit.activeAlias_eq_some_iff]
  unfold KeepsAlias
  rw [getLast?_newRevisions hplan hm, lastOf_append]
  cases hnew : lastOf p.newBindings m with
  | some d =>
    -- the last binding of the memory in the batch is the active one
    have hd : lastOf (bs ++ p.newBindings) m = some d := by
      rw [lastOf_append, hnew]
      rfl
    obtain ⟨hdmem, hdm⟩ := lastOf_spec hd
    simp only [Option.some_or, Option.map_some]
    rw [hlisted]
    constructor
    · rintro ⟨_, ⟨⟩, hname, -⟩
      rw [hledger.eq_of_name hb hdmem hname.symm]
    · intro hrevision
      obtain rfl : b = d := hledger.eq_of_key hb hdmem
        (Prod.ext (hbm.trans hdm.symm) (Option.some.inj hrevision))
      refine ⟨b, rfl, rfl, ?_⟩
      rw [h.reflects.mem_invalidated_commit hledger hd, hnew]
      rintro ⟨hnone, -⟩
      cases hnone
  | none =>
    simp only [Option.none_or, Option.map_none, h.reflects.activeAlias_eq_some_iff]
    constructor
    · rintro ⟨d, hd, hname, hlive⟩
      rw [← hname, hplan.live_iff h.reflects hm hnew hd] at hlive
      exact ⟨d.aliasName, ⟨d, hd, rfl, hlive.1⟩, hlive.2⟩
    · rintro ⟨c, ⟨d, hd, rfl, hold⟩, hall⟩
      have hname : d.aliasName = b.aliasName := by
        rw [MemoryAliasState.knownAlias, hall _ (mem_of_getLast? hlisted), Option.some_or] at hknown
        exact Option.some.inj hknown
      refine ⟨d, hd, hname, ?_⟩
      rw [← hname, hplan.live_iff h.reflects hm hnew hd]
      exact ⟨hold, hall⟩

end

/-- After any session, the alias that the projection of some records shows last for a memory
resolves to that memory and revision exactly if the records keep its alias; and no alias is
ever bound to two memories or revisions. -/
theorem listed_alias_resolves_iff (k : Codec) (steps : List Step) :
    (∀ (records : List Record), ∀ m ∈ records.map (memoryIdOf k), m ≠ "" → (LastResolves k
          ((sessionAfter k steps).applyPlanned ((sessionAfter k steps).planRecords k records).2)
          records ((sessionAfter k steps).planRecords k records).1 m ↔
        KeepsAlias k (sessionAfter k steps) records m)) ∧
      ∀ (i j : Nat) (a : String) (b c : MemoryAliasBinding),
        (sessionAfter k (steps.take i)).bindings.get? a = some b →
        (sessionAfter k (steps.take j)).bindings.get? a = some c → b = c := by
  obtain ⟨bs, hbs⟩ := sessionAfter_sound k steps
  refine ⟨fun records m hmem hm => hbs.lastResolves_iff hm hmem, ?_⟩
  intro i j a b c hb hc
  have hfinal (n : Nat) {d : MemoryAliasBinding}
      (hd : (sessionAfter k (steps.take n)).bindings.get? a = some d) :
      (sessionAfter k steps).bindings.get? a = some d := by
    have hlater := bindings_persist (steps.drop n) hd
    rw [take_append_drop] at hlater
    exact hlater
  have hbc := (hfinal i hb).symm.trans (hfinal j hc)
  exact Option.some.inj hbc

/-- Text functions for records that carry a revision of their own. -/
def plainCodec : Codec where
  str _ := ""
  formatFloat text := text
  dumps _ := ""
  sha256 text := text

def revisedRecord (id revision : String) : Record :=
  [("id", .str id), ("revision_id", .str revision)]

def reverted : MemoryAliasState :=
  sessionAfter plainCodec [.records [revisedRecord "a" "1"], .records [revisedRecord "a" "2"]]

/-- The alias shown for a reverted memory is stale at once. -/
theorem reverted_alias_stale : ¬LastResolves plainCodec
      (reverted.applyPlanned (reverted.planRecords plainCodec [revisedRecord "a" "1"]).2)
      [revisedRecord "a" "1"]
      (reverted.planRecords plainCodec [revisedRecord "a" "1"]).1 "a" := by
  have hshown : lastListed plainCodec [revisedRecord "a" "1"]
      (reverted.planRecords plainCodec [revisedRecord "a" "1"]).1 "a" =
        some (revisedRecord "a" "1", revisedRecord "m1" "1") := by decide +kernel
  have hstale : ∀ b, (reverted.applyPlanned
      (reverted.planRecords plainCodec [revisedRecord "a" "1"]).2).resolveBinding "m1" ≠
        .ok b := by
    have herror : ((reverted.applyPlanned
        (reverted.planRecords plainCodec [revisedRecord "a" "1"]).2).resolveBinding "m1").isOk =
          false := by decide +kernel
    intro b hb
    rw [hb] at herror
    cases herror
  rintro ⟨record, item, a, b, hlast, hid, hok, -⟩
  cases hlast
  cases hid
  exact hstale _ hok

/-- The states resolve every value alike. -/
structure Agree (s t : MemoryAliasState) : Prop where
  bindings : ∀ a, t.bindings.get? a = s.bindings.get? a
  byRevision : ∀ key, t.aliasesByRevision.get? key = s.aliasesByRevision.get? key
  nextNumber : t.nextNumber = s.nextNumber
  resolves : ∀ value, t.resolveBinding value = s.resolveBinding value

section

variable {s t : MemoryAliasState} {bs : List MemoryAliasBinding}

theorem Reflects.sorted_values (h : Reflects s bs) :
    sortBy (fun b : MemoryAliasBinding => aliasSortKey b.aliasName) s.bindings.values = bs := by
  refine sortBy_eq_of_perm h.ledger.ascending ?_
  have hkeys : s.bindings.values.map (·.aliasName) = s.bindings.keys := by
    unfold OrderedMap.values OrderedMap.keys
    rw [map_map]
    apply map_congr_left
    rintro ⟨a, b⟩ hentry
    exact ((h.bindings a b).mp (s.bindings.get?_eq_some_iff.mpr hentry)).2
  have hvalues : s.bindings.values.Nodup := by
    apply Nodup.of_map (·.aliasName)
    rw [hkeys]
    exact s.bindings.nodup
  rw [perm_ext_iff_of_nodup hvalues (Nodup.of_map _ h.ledger.names_nodup)]
  intro b
  rw [OrderedMap.mem_values]
  constructor
  · rintro ⟨a, ha⟩
    exact ((h.bindings a b).mp ha).1
  · intro hb
    exact ⟨b.aliasName, (h.bindings _ b).mpr ⟨hb, rfl⟩⟩

theorem MemoryAliasState.Sound.apply_snapshot (h : s.Sound bs) :
    MemoryAliasState.apply {} s.snapshot =
      (MemoryAliasState.commit {} bs (sortBy aliasSortKey s.invalidated), true) := by
  have hledger : IsLedger ([] ++ bs) := h.reflects.ledger
  unfold MemoryAliasState.snapshot
  rw [h.reflects.sorted_values]
  exact reflects_fresh.apply hledger h.listed.sorted

theorem Reflects.agree_iff (hs : Reflects s bs) (ht : Reflects t bs) :
    Agree s t ↔ ∀ value, t.resolveBinding value = s.resolveBinding value := by
  constructor
  · exact fun h => h.resolves
  · intro hresolves
    refine ⟨?_, ?_, ht.nextNumber.trans hs.nextNumber.symm, hresolves⟩
    · intro a
      apply Option.ext
      intro b
      exact (ht.bindings a b).trans (hs.bindings a b).symm
    · intro key
      apply Option.ext
      intro a
      exact (ht.byRevision key a).trans (hs.byRevision key a).symm

theorem Reflects.resolves_iff (hs : Reflects s bs) (ht : Reflects t bs) :
    (∀ value, t.resolveBinding value = s.resolveBinding value) ↔
      ∀ b ∈ bs, (t.activeAlias b.memoryId = some b.aliasName ↔
        s.activeAlias b.memoryId = some b.aliasName) := by
  constructor
  · intro h b hb
    have hvalue := h b.aliasName
    rw [hs.resolveBinding hb, ht.resolveBinding hb] at hvalue
    by_cases htlive : t.activeAlias b.memoryId = some b.aliasName
    · rw [if_pos htlive] at hvalue
      by_cases hslive : s.activeAlias b.memoryId = some b.aliasName
      · exact iff_of_true htlive hslive
      · rw [if_neg hslive] at hvalue
        cases hvalue
    · rw [if_neg htlive] at hvalue
      by_cases hslive : s.activeAlias b.memoryId = some b.aliasName
      · rw [if_pos hslive] at hvalue
        cases hvalue
      · exact iff_of_false htlive hslive
  · intro h value
    have hbindings : t.bindings.get? (strip value) = s.bindings.get? (strip value) := by
      apply Option.ext
      intro b
      exact (ht.bindings _ b).trans (hs.bindings _ b).symm
    cases hb : s.bindings.get? (strip value) with
    | none =>
      unfold MemoryAliasState.resolveBinding
      dsimp only
      rw [hbindings, hb]
    | some b =>
      obtain ⟨hmem, hname⟩ := (hs.bindings _ b).mp hb
      have hstrip : ∀ u : MemoryAliasState,
          u.resolveBinding value = u.resolveBinding b.aliasName := by
        intro u
        obtain ⟨i, -, htext⟩ := hs.ledger.exists_number hmem
        unfold MemoryAliasState.resolveBinding
        rw [← hname, htext, strip_aliasText]
      rw [hstrip t, hstrip s, ht.resolveBinding hmem, hs.resolveBinding hmem]
      by_cases hslive : s.activeAlias b.memoryId = some b.aliasName
      · rw [if_pos hslive, if_pos ((h b hmem).mpr hslive)]
      · rw [if_neg hslive, if_neg fun htlive => hslive ((h b hmem).mp htlive)]

theorem MemoryAliasState.Sound.restored_active (h : s.Sound bs) {m : String} :
    (MemoryAliasState.commit {} bs names).activeAlias m = some a ↔
      s.activeByMemoryId.get? m = some a := by
  have hledger : IsLedger ([] ++ bs) := h.reflects.ledger
  have hcommit : Reflects (MemoryAliasState.commit {} bs names) bs :=
    reflects_fresh.commit hledger
  rw [hcommit.activeAlias_eq_some_iff, h.reflects.active, Option.map_eq_some_iff]
  constructor
  · rintro ⟨b, hb, hname, -⟩
    exact ⟨b, hb, hname⟩
  · rintro ⟨b, hb, rfl⟩
    refine ⟨b, hb, rfl, ?_⟩
    rw [reflects_fresh.mem_invalidated_commit hledger hb, hb]
    rintro ⟨hnone, -⟩
    cases hnone

end

/-- After any session a snapshot is restored, and the restored state agrees with the one it
was taken from exactly if no memory's newest alias stands invalidated. -/
theorem snapshot_restores_iff (k : Codec) (steps : List Step) :
    (MemoryAliasState.apply {} (sessionAfter k steps).snapshot).2 = true ∧
      (Agree (sessionAfter k steps) (MemoryAliasState.apply {} (sessionAfter k steps).snapshot).1 ↔
        ∀ m a, (sessionAfter k steps).activeByMemoryId.get? m = some a →
          a ∉ (sessionAfter k steps).invalidated) := by
  obtain ⟨bs, h⟩ := sessionAfter_sound k steps
  revert h
  generalize sessionAfter k steps = s
  intro h
  have hledger : IsLedger ([] ++ bs) := h.reflects.ledger
  rw [h.apply_snapshot]
  refine ⟨rfl, ?_⟩
  have hcommit : Reflects (MemoryAliasState.commit {} bs (sortBy aliasSortKey s.invalidated)) bs :=
    reflects_fresh.commit hledger
  rw [h.reflects.agree_iff hcommit, h.reflects.resolves_iff hcommit]
  have hfilter (m a : String) : s.activeAlias m = some a ↔
      s.activeByMemoryId.get? m = some a ∧ a ∉ s.invalidated := by
    rw [MemoryAliasState.activeAlias, Option.filter_eq_some_iff]
    simp
  constructor
  · intro hactive m a ha
    have hlast := ha
    rw [h.reflects.active] at hlast
    obtain ⟨b, hb, rfl⟩ := Option.map_eq_some_iff.mp hlast
    obtain ⟨hmem, rfl⟩ := lastOf_spec hb
    have hlive := (hactive b hmem).mp (h.restored_active.mpr ha)
    exact ((hfilter _ _).mp hlive).2
  · intro hlive b _
    rw [h.restored_active, hfilter]
    exact ⟨fun ha => ⟨ha, hlive _ _ ha⟩, fun ha => ha.1⟩

def deleted : MemoryAliasState :=
  sessionAfter plainCodec [.records [revisedRecord "a" "1"], .invalidate "a"]

/-- The alias of a deleted memory resolves again after a restore. -/
theorem snapshot_revives_deleted :
    ¬Agree deleted (MemoryAliasState.apply {} deleted.snapshot).1 := by
  have hstale : (deleted.resolveBinding "m1").isOk = false := by decide +kernel
  have hlive : ((MemoryAliasState.apply {} deleted.snapshot).1.resolveBinding "m1").isOk =
      true := by decide +kernel
  intro h
  rw [h.resolves, hstale] at hlive
  cases hlive

/-- A session numbers the aliases as it gives them, one to each revision; what later steps give
comes behind, and the newest of a memory is its active one. -/
theorem aliases_only_grow (k : Codec) (steps later : List Step) :
    ∃ bs cs, IsLedger (bs ++ cs) ∧ Reflects (sessionAfter k steps) bs ∧
      Reflects (sessionAfter k (steps ++ later)) (bs ++ cs) := by
  obtain ⟨bs, h⟩ := sessionAfter_sound k steps
  obtain ⟨cs, hlater⟩ := h.run (k := k) later
  rw [sessionAfter, ← Runs.run_append] at hlater
  exact ⟨bs, cs, hlater.reflects.ledger, h.reflects, hlater.reflects⟩

end Cognis.Memory
