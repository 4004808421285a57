import Cognis.Library.LateInsert
import Cognis.SessionCache.Applied

namespace Cognis.SessionCache

open List

open Memory (MemoryAliasState)
open SortByKey LateInsert CachedSessionState

variable (events : List CachedEvent)

def Distinct : Prop :=
  ∀ e ∈ events, ∀ e' ∈ events, e.seq = e'.seq → e = e'

def inOrder : List CachedEvent :=
  sortBy CachedEvent.seq events.dedup

def behind (seq : Nat) : List CachedEvent :=
  (inOrder events).filter fun e => decide (seq < e.seq)

def ahead (seq : Nat) : List CachedEvent :=
  (inOrder events).filter fun e => decide (e.seq < seq)

def decideEvent (decisions : Decisions) (e : CachedEvent) : Decisions :=
  e.decisions.foldl addDecision decisions

def aliasEvent (aliases : MemoryAliasState) (e : CachedEvent) : MemoryAliasState :=
  e.aliasDelta.elim aliases fun delta => (aliases.apply delta).1

def decisionsOn (e : CachedEvent) (callId : String) : List ProjectionDecision :=
  (e.decisions.filter fun p => p.1 == callId).map Prod.snd

def Visible (summary : Nat) (e : CachedEvent) : Prop :=
  retains e = true ∧ summary < e.seq ∧
    ∀ later ∈ events, e.seq < later.seq → e.legacySkillId ≠ none →
      later.legacySkillId ≠ e.legacySkillId

def Decisions.Same (a b : Decisions) : Prop := ∀ callId, a.get? callId = b.get? callId

/-- Two deltas that come to the same in either order, whatever was applied before. -/
def DeltasCommute (a b : JsonValue) : Prop :=
  ∀ deltas : List JsonValue,
    let aliases := deltas.foldl (fun aliases delta => (aliases.apply delta).1)
      ({} : MemoryAliasState)
    MemoryAliasState.Same ((aliases.apply a).1.apply b).1 ((aliases.apply b).1.apply a).1

structure Synced (entry : CachedSessionState) : Prop where
  distinct : Distinct entry.applied
  positive : ∀ e ∈ entry.applied, 1 ≤ e.seq
  events : ∀ e, e ∈ entry.events ↔
    e ∈ entry.applied ∧ Visible entry.applied entry.lastCompactionSeq e
  nodup : (entry.events.map CachedEvent.seq).Nodup
  summary_le : ∀ e ∈ entry.applied, e.isCompaction = true → e.seq ≤ entry.lastCompactionSeq
  summary_mem : entry.lastCompactionSeq = 0 ∨
    ∃ e ∈ entry.applied, e.isCompaction = true ∧ e.seq = entry.lastCompactionSeq
  decisions : Decisions.Same entry.projectionDecisions
    ((behind entry.applied entry.lastCompactionSeq).foldl decideEvent .empty)
  aliases : MemoryAliasState.Same entry.memoryAliases ((inOrder entry.applied).foldl aliasEvent {})

section

variable {events events' : List CachedEvent} {e : CachedEvent} {seq : Nat}

@[simp] theorem mem_inOrder : e ∈ inOrder events ↔ e ∈ events := by
  unfold inOrder
  rw [mem_sortBy, mem_dedup]

@[simp] theorem mem_behind : e ∈ behind events seq ↔ e ∈ events ∧ seq < e.seq := by
  simp [behind]

@[simp] theorem mem_ahead : e ∈ ahead events seq ↔ e ∈ events ∧ e.seq < seq := by
  simp [ahead]

section

variable (h : Distinct events)

include h

theorem Distinct.nodup : (events.dedup.map CachedEvent.seq).Nodup := by
  rw [nodup_map_iff_inj_on (nodup_dedup events)]
  intro e he e' he' hseq
  exact h e (mem_dedup.mp he) e' (mem_dedup.mp he') hseq

theorem Distinct.ascending : Ascending CachedEvent.seq (inOrder events) :=
  ascending_sortBy h.nodup

theorem inOrder_congr (hmem : ∀ e, e ∈ events' ↔ e ∈ events) :
    inOrder events' = inOrder events := by
  apply sortBy_eq_of_perm h.ascending
  refine Perm.trans ?_ (sortBy_perm CachedEvent.seq events.dedup).symm
  apply (perm_ext_iff_of_nodup (nodup_dedup _) (nodup_dedup _)).mpr
  intro e
  rw [mem_dedup, mem_dedup]
  exact hmem e

theorem inOrder_append (hnew : ∀ f ∈ events, f.seq ≠ e.seq) :
    inOrder (events ++ [e]) = ahead events e.seq ++ e :: behind events e.seq := by
  have hnot : e ∉ events.dedup := by
    intro hmem
    exact hnew e (mem_dedup.mp hmem) rfl
  have hperm : ((events ++ [e]).dedup).Perm (events.dedup ++ [e]) := by
    apply (perm_ext_iff_of_nodup (nodup_dedup _) ?_).mpr
    · intro f
      simp only [mem_dedup, mem_append]
    · rw [nodup_append]
      refine ⟨nodup_dedup _, nodup_singleton e, ?_⟩
      intro f hf g hg heq
      rw [heq, mem_singleton.mp hg] at hf
      exact hnot hf
  have hinsert : sortBy CachedEvent.seq (events.dedup ++ [e]) = _ :=
    sortBy_append_singleton h.nodup fun f hf => hnew f (mem_dedup.mp hf)
  unfold ahead behind inOrder
  rw [← hinsert]
  have hsorted : Ascending CachedEvent.seq (sortBy CachedEvent.seq (events.dedup ++ [e])) := by
    apply ascending_sortBy
    rw [map_append, map_singleton, nodup_append]
    refine ⟨h.nodup, nodup_singleton _, ?_⟩
    intro n hn m hm heq
    obtain ⟨f, hf, rfl⟩ := mem_map.mp hn
    rw [mem_singleton] at hm
    exact hnew f (mem_dedup.mp hf) (heq.trans hm)
  exact sortBy_eq_of_perm hsorted (hperm.trans (sortBy_perm _ _).symm)

theorem inOrder_split (hnew : ∀ f ∈ events, f.seq ≠ seq) :
    inOrder events = ahead events seq ++ behind events seq :=
  sortBy_split h.nodup fun f hf => hnew f (mem_dedup.mp hf)

theorem behind_congr (hmem : ∀ e, e ∈ events' ↔ e ∈ events) (seq : Nat) :
    behind events' seq = behind events seq := by
  unfold behind
  rw [inOrder_congr h hmem]

theorem Distinct.append (he : ∀ f ∈ events, f.seq = e.seq → f = e) : Distinct (events ++ [e]) := by
  intro f hf g hg hseq
  rw [mem_append, mem_singleton] at hf hg
  rcases hf with hold | hnew
  · rcases hg with hold' | hnew'
    · exact h f hold g hold' hseq
    · rw [hnew'] at hseq ⊢
      exact he f hold hseq
  · rcases hg with hold' | hnew'
    · rw [hnew] at hseq ⊢
      exact (he g hold' hseq.symm).symm
    · exact hnew.trans hnew'.symm

end

end

section

variable {a b c : Decisions} {e f : CachedEvent}

theorem Decisions.Same.refl (a : Decisions) : Decisions.Same a a := fun _ => rfl

theorem Decisions.Same.symm (h : Decisions.Same a b) : Decisions.Same b a :=
  fun callId => (h callId).symm

theorem Decisions.Same.trans (h : Decisions.Same a b) (h' : Decisions.Same b c) :
    Decisions.Same a c :=
  fun callId => (h callId).trans (h' callId)

theorem get?_decideEvent (a : Decisions) (e : CachedEvent) (callId : String) :
    (decideEvent a e).get? callId =
      if decisionsOn e callId = [] then a.get? callId
      else some (appendNew ((a.get? callId).getD []) (decisionsOn e callId)) := by
  unfold decideEvent decisionsOn
  induction e.decisions generalizing a with
  | nil => rfl
  | cons p rest ih =>
    rw [foldl_cons, ih]
    by_cases hcall : p.1 = callId
    · have hfirst : (addDecision a p).get? callId =
          some (appendNew ((a.get? callId).getD []) [p.2]) := by
        unfold addDecision
        rw [hcall, OrderedMap.get?_set_self]
        rfl
      rw [hfirst, filter_cons_of_pos (by simpa using hcall), map_cons, if_neg (cons_ne_nil _ _)]
      split_ifs with hrest
      · rw [hrest]
      · rfl
    · have hother : (addDecision a p).get? callId = a.get? callId := by
        unfold addDecision
        rw [OrderedMap.get?_set_of_ne]
        exact fun h => hcall h.symm
      rw [hother, filter_cons_of_neg (by simpa using hcall)]

theorem Decisions.Same.decideEvent (h : Decisions.Same a b) (e : CachedEvent) :
    Decisions.Same (decideEvent a e) (decideEvent b e) := by
  intro callId
  rw [get?_decideEvent, get?_decideEvent, h callId]

theorem decideEvent_comm (a : Decisions)
    (h : ∀ callId, decisionsOn e callId = [] ∨ decisionsOn f callId = [] ∨
      decisionsOn e callId = decisionsOn f callId) :
    Decisions.Same (decideEvent (decideEvent a f) e) (decideEvent (decideEvent a e) f) := by
  intro callId
  simp only [get?_decideEvent]
  rcases h callId with he | hf | hboth
  · simp only [he, if_true]
  · simp only [hf, if_true]
  · simp only [hboth]

theorem decideEvent_nil (a : Decisions) (h : e.decisions = []) : decideEvent a e = a := by
  unfold SessionCache.decideEvent
  rw [h]
  rfl

theorem foldl_decideEvent_nil {events : List CachedEvent} (h : ∀ e ∈ events, e.decisions = [])
    (a : Decisions) : events.foldl decideEvent a = a := by
  induction events generalizing a with
  | nil => rfl
  | cons e events ih =>
    rw [foldl_cons, decideEvent_nil a (h e mem_cons_self)]
    exact ih (fun f hf => h f (mem_cons_of_mem _ hf)) a

theorem decideEvent_held (h : ∀ p ∈ e.decisions, p.2 ∈ (a.get? p.1).getD []) :
    Decisions.Same (decideEvent a e) a := by
  intro callId
  rw [get?_decideEvent]
  split_ifs with hnone
  · rfl
  · have hall : ∀ d ∈ decisionsOn e callId, d ∈ (a.get? callId).getD [] := by
      intro d hd
      obtain ⟨p, hp, rfl⟩ := mem_map.mp hd
      obtain ⟨hmem, hcall⟩ := mem_filter.mp hp
      have heq : p.1 = callId := by simpa using hcall
      rw [← heq]
      exact h p hmem
    rw [appendNew_eq_self hall]
    cases hget : a.get? callId with
    | some => rfl
    | none =>
      obtain ⟨d, hd⟩ := exists_mem_of_ne_nil _ hnone
      have hmem := hall d hd
      rw [hget] at hmem
      cases hmem

end

section

variable {s t : MemoryAliasState} {e f : CachedEvent}

theorem aliasEvent_congr (h : MemoryAliasState.Same s t) (e : CachedEvent) :
    MemoryAliasState.Same (aliasEvent s e) (aliasEvent t e) := by
  unfold aliasEvent
  cases e.aliasDelta with
  | none => exact h
  | some delta => exact h.apply delta

variable (events : List CachedEvent)

theorem foldl_aliasEvent (s : MemoryAliasState) :
    events.foldl aliasEvent s = (events.filterMap CachedEvent.aliasDelta).foldl
        (fun aliases delta => (aliases.apply delta).1) s := by
  induction events generalizing s with
  | nil => rfl
  | cons e events ih =>
    rw [foldl_cons, ih]
    unfold aliasEvent
    cases hdelta : e.aliasDelta with
    | none => rw [filterMap_cons_none hdelta, Option.elim_none]
    | some => rw [filterMap_cons_some hdelta, Option.elim_some, foldl_cons]

theorem aliasEvent_comm
    (h : ∀ a, e.aliasDelta = some a → ∀ b, f.aliasDelta = some b → DeltasCommute b a) :
    MemoryAliasState.Same (aliasEvent (aliasEvent (events.foldl aliasEvent {}) f) e)
      (aliasEvent (aliasEvent (events.foldl aliasEvent {}) e) f) := by
  unfold aliasEvent
  cases ha : e.aliasDelta with
  | none => exact MemoryAliasState.Same.refl _
  | some a =>
    cases hb : f.aliasDelta with
    | none => exact MemoryAliasState.Same.refl _
    | some b =>
      have hcommute := h a ha b hb (events.filterMap CachedEvent.aliasDelta)
      have hfold := foldl_aliasEvent events {}
      unfold aliasEvent at hfold
      rw [hfold]
      exact hcommute

end

open SortByKey LateInsert CachedSessionState

/-- What an event must meet where it is applied, so that it leaves what it leaves in the order
of the log. Nothing is asked of an event that comes after all the others. -/
structure Orderly (entry : CachedSessionState) (e : CachedEvent) : Prop where
  /-- Only a summary without aliases is applied a second time. -/
  repeated : e ∈ entry.applied → e.isCompaction = true ∧ e.aliasDelta = none
  /-- No summary comes after a later one. -/
  summary : e.isCompaction = true → entry.lastCompactionSeq ≤ e.seq
  /-- No summary comes after decisions behind it. -/
  summaryDecisions : e.isCompaction = true → ∀ later ∈ entry.applied, e.seq < later.seq →
    later.decisions = []
  /-- An event that a summary covers decides only what is decided. -/
  summarised : e.isCompaction = false → e.seq ≤ entry.lastCompactionSeq →
    ∀ p ∈ e.decisions, p.2 ∈ (entry.projectionDecisions.get? p.1).getD []
  /-- No event comes after a later one that decides a call otherwise. -/
  decisions : e.isCompaction = false → entry.lastCompactionSeq < e.seq →
    ∀ later ∈ entry.applied, e.seq < later.seq → ∀ callId, decisionsOn e callId = [] ∨
      decisionsOn later callId = [] ∨ decisionsOn e callId = decisionsOn later callId
  /-- No delta comes after a later one with which it does not commute. -/
  aliases : ∀ later ∈ entry.applied, e.seq < later.seq → ∀ a, e.aliasDelta = some a →
    ∀ b, later.aliasDelta = some b → DeltasCommute b a
  /-- No load of a skill deletes a later one, or stays beside it. -/
  loads : ∀ later ∈ entry.applied, e.seq < later.seq → e.legacySkillId ≠ none →
    later.legacySkillId = e.legacySkillId →
      later ∉ entry.events ∧ ¬ (retains e = true ∧ entry.lastCompactionSeq < e.seq)

variable {entry : CachedSessionState} {e : CachedEvent}

theorem legacySkillId_of_compaction (h : e.isCompaction) : e.legacySkillId = none := by
  have htype : e.type = "compaction_summary" := by simpa [CachedEvent.isCompaction] using h
  simp [CachedEvent.legacySkillId, CachedEvent.loadedSkillId, htype]

theorem retains_of_compaction (h : e.isCompaction) : retains e = false := by
  obtain ⟨hretry, hprefix⟩ := not_special_of_compaction e h
  unfold retains
  rw [hretry, hprefix, h]
  rfl

theorem mem_supersede {events : List CachedEvent} (hnodup : (events.map CachedEvent.seq).Nodup)
    {x : CachedEvent} :
    x ∈ supersede events e ↔
      x ∈ events ∧ (e.legacySkillId ≠ none → x.legacySkillId ≠ e.legacySkillId) := by
  unfold supersede
  cases hskill : e.legacySkillId with
  | none => simp
  | some =>
    simp only [mem_filter, Bool.not_eq_true', contains_eq_mem, decide_eq_false_iff_not,
      mem_map, beq_iff_eq, not_exists, not_and, and_imp]
    constructor
    · rintro ⟨hmem, hkept⟩
      exact ⟨hmem, fun _ hsame => hkept x hmem hsame rfl⟩
    · rintro ⟨hmem, hother⟩
      refine ⟨hmem, ?_⟩
      intro y hy hsame hseq
      have hxy : y = x := inj_on_of_nodup_map hnodup hy hmem hseq
      rw [hxy] at hsame
      exact hother (by simp) hsame

theorem supersede_sublist (events : List CachedEvent) (e : CachedEvent) :
    (supersede events e).Sublist events := by
  unfold supersede
  cases e.legacySkillId with
  | none => exact Sublist.refl _
  | some => exact filter_sublist

variable (hs : Synced entry) (hdistinct : ∀ f ∈ entry.applied, f.seq = e.seq → f = e)

include hs

theorem Synced.mem_cut (hsummary : entry.lastCompactionSeq ≤ e.seq) (x : CachedEvent) :
    (x ∈ entry.events ∧ e.seq < x.seq) ↔
      x ∈ entry.applied ++ [e] ∧ Visible (entry.applied ++ [e]) e.seq x := by
  rw [hs.events]
  constructor
  · rintro ⟨⟨hmem, hretained, -, hlast⟩, hafter⟩
    refine ⟨mem_append_left _ hmem, hretained, hafter, ?_⟩
    intro later hlater hbehind
    rcases mem_append.mp hlater with hold | hnew
    · exact hlast later hold hbehind
    · rw [mem_singleton.mp hnew] at hbehind
      omega
  · rintro ⟨hmem, hretained, hafter, hlast⟩
    rcases mem_append.mp hmem with hold | hnew
    · refine ⟨⟨hold, hretained, by omega, ?_⟩, hafter⟩
      intro later hlater
      exact hlast later (mem_append_left _ hlater)
    · rw [mem_singleton.mp hnew] at hafter
      exact absurd hafter (Nat.lt_irrefl _)

include hdistinct

theorem Synced.mem_retain (ho : Orderly entry e) (hnew : e ∉ entry.applied) (x : CachedEvent) :
    (x ∈ supersede entry.events e ∨ (retains e ∧ entry.lastCompactionSeq < e.seq) ∧ x = e) ↔
      x ∈ entry.applied ++ [e] ∧ Visible (entry.applied ++ [e]) entry.lastCompactionSeq x := by
  rw [mem_supersede hs.nodup]
  constructor
  · rintro (⟨hmem, hother⟩ | ⟨⟨hretained, hafter⟩, rfl⟩)
    · obtain ⟨happlied, hretained, hafter, hlast⟩ := (hs.events x).mp hmem
      refine ⟨mem_append_left _ happlied, hretained, hafter, ?_⟩
      intro later hlater hbehind hload
      rcases mem_append.mp hlater with hold | hlater
      · exact hlast later hold hbehind hload
      · rw [mem_singleton.mp hlater]
        intro hsame
        exact hother (hsame ▸ hload) hsame.symm
    · refine ⟨mem_append_right _ (mem_singleton.mpr rfl), hretained, hafter, ?_⟩
      intro later hlater hbehind hload hsame
      rcases mem_append.mp hlater with hold | hlater
      · exact (ho.loads later hold hbehind hload hsame).2 ⟨hretained, hafter⟩
      · rw [mem_singleton.mp hlater] at hbehind
        exact absurd hbehind (Nat.lt_irrefl _)
  · rintro ⟨hmem, hretained, hafter, hlast⟩
    rcases mem_append.mp hmem with hold | hself
    · left
      have hcached : x ∈ entry.events := by
        refine (hs.events x).mpr ⟨hold, hretained, hafter, ?_⟩
        intro later hlater
        exact hlast later (mem_append_left _ hlater)
      refine ⟨hcached, ?_⟩
      intro hload hsame
      rcases Nat.lt_trichotomy x.seq e.seq with hlt | heq | hgt
      · exact hlast e (mem_append_right _ (mem_singleton.mpr rfl)) hlt (hsame ▸ hload) hsame.symm
      · exact hnew (hdistinct x hold heq ▸ hold)
      · exact (ho.loads x hold hgt hload hsame).1 hcached
    · obtain rfl := mem_singleton.mp hself
      exact .inr ⟨⟨hretained, hafter⟩, rfl⟩

omit hs hdistinct in
theorem behind_append {events : List CachedEvent} (h : Distinct events)
    (hnew : ∀ f ∈ events, f.seq ≠ e.seq) {seq : Nat} (hseq : seq < e.seq) :
    behind (events ++ [e]) seq =
        (ahead events e.seq).filter (fun f => decide (seq < f.seq)) ++ e :: behind events e.seq ∧
      behind events seq =
        (ahead events e.seq).filter (fun f => decide (seq < f.seq)) ++ behind events e.seq := by
  have hall : (behind events e.seq).filter (fun f => decide (seq < f.seq)) =
      behind events e.seq := by
    rw [filter_eq_self]
    intro f hf
    have hlt := (mem_behind.mp hf).2
    simp only [decide_eq_true_eq]
    omega
  have hinsert := inOrder_append h hnew
  have hsplit := inOrder_split h hnew
  constructor
  · rw [behind, hinsert, filter_append, filter_cons_of_pos (by simpa using hseq), hall]
  · rw [behind, hsplit, filter_append, hall]

omit hs hdistinct in
theorem behind_append_of_le {events : List CachedEvent} (h : Distinct events)
    (hnew : ∀ f ∈ events, f.seq ≠ e.seq) {seq : Nat} (hseq : e.seq ≤ seq) :
    behind (events ++ [e]) seq = behind events seq := by
  have hinsert := inOrder_append h hnew
  have hsplit := inOrder_split h hnew
  have hdropped : (e :: behind events e.seq).filter (fun f => decide (seq < f.seq)) =
      (behind events e.seq).filter (fun f => decide (seq < f.seq)) :=
    filter_cons_of_neg (by simpa using hseq)
  rw [behind, hinsert, filter_append, hdropped, ← filter_append, ← hsplit]
  rfl

theorem Synced.decisions_retain (ho : Orderly entry e) (hnew : e ∉ entry.applied)
    (hplain : e.isCompaction = false) :
    Decisions.Same (decideEvent entry.projectionDecisions e)
      ((behind (entry.applied ++ [e]) entry.lastCompactionSeq).foldl decideEvent .empty) := by
  have hfresh : ∀ f ∈ entry.applied, f.seq ≠ e.seq := by
    intro f hf hseq
    exact hnew (hdistinct f hf hseq ▸ hf)
  by_cases hcovered : e.seq ≤ entry.lastCompactionSeq
  · rw [behind_append_of_le hs.distinct hfresh hcovered]
    exact (decideEvent_held (ho.summarised hplain hcovered)).trans hs.decisions
  · have hafter := Nat.lt_of_not_le hcovered
    obtain ⟨hinsert, hsplit⟩ := behind_append hs.distinct hfresh hafter
    have hold := hs.decisions
    rw [hsplit, foldl_append] at hold
    rw [hinsert, foldl_append]
    refine (hold.decideEvent e).trans ?_
    apply foldl_late Decisions.Same.refl (fun _ _ _ => Decisions.Same.trans)
      (fun _ _ f h => h.decideEvent f)
    rintro pre f ⟨rest, hrest⟩
    have hf : f ∈ behind entry.applied e.seq := by
      rw [← hrest]
      exact mem_append_left _ (mem_append_right _ (mem_singleton.mpr rfl))
    obtain ⟨happlied, hlater⟩ := mem_behind.mp hf
    exact decideEvent_comm _ (ho.decisions hplain hafter f happlied hlater)

omit hs hdistinct in
theorem decisions_cut (ho : Orderly entry e) (hcompaction : e.isCompaction) :
    (behind (entry.applied ++ [e]) e.seq).foldl decideEvent .empty = .empty := by
  apply foldl_decideEvent_nil
  intro f hf
  obtain ⟨hmem, hlater⟩ := mem_behind.mp hf
  rcases mem_append.mp hmem with hold | hself
  · exact ho.summaryDecisions hcompaction f hold hlater
  · rw [mem_singleton.mp hself] at hlater
    exact absurd hlater (Nat.lt_irrefl _)

theorem Synced.aliases_append (ho : Orderly entry e) :
    MemoryAliasState.Same (aliasEvent entry.memoryAliases e)
      ((inOrder (entry.applied ++ [e])).foldl aliasEvent {}) := by
  by_cases hnew : e ∈ entry.applied
  · have hsame : inOrder (entry.applied ++ [e]) = inOrder entry.applied := by
      apply inOrder_congr hs.distinct
      intro f
      rw [mem_append, mem_singleton]
      constructor
      · rintro (hold | rfl)
        · exact hold
        · exact hnew
      · exact Or.inl
    rw [hsame, aliasEvent, (ho.repeated hnew).2]
    exact hs.aliases
  · have hfresh : ∀ f ∈ entry.applied, f.seq ≠ e.seq := by
      intro f hf hseq
      exact hnew (hdistinct f hf hseq ▸ hf)
    have hold := hs.aliases
    rw [inOrder_split hs.distinct hfresh, foldl_append] at hold
    rw [inOrder_append hs.distinct hfresh, foldl_append]
    refine (aliasEvent_congr hold e).trans ?_
    apply foldl_late MemoryAliasState.Same.refl (fun _ _ _ => MemoryAliasState.Same.trans)
      (fun _ _ f h => aliasEvent_congr h f)
    rintro pre f ⟨rest, hrest⟩
    have hf : f ∈ behind entry.applied e.seq := by
      rw [← hrest]
      exact mem_append_left _ (mem_append_right _ (mem_singleton.mpr rfl))
    obtain ⟨happlied, hlater⟩ := mem_behind.mp hf
    rw [← foldl_append]
    exact aliasEvent_comm _ (ho.aliases f happlied hlater)

theorem Synced.applyCachedEvent (hpos : 1 ≤ e.seq) (ho : Orderly entry e) :
    Synced (entry.applyCachedEvent e) := by
  have hall : Distinct (entry.applied ++ [e]) := hs.distinct.append hdistinct
  have hpositive : ∀ f ∈ entry.applied ++ [e], 1 ≤ f.seq := by
    intro f hf
    rcases mem_append.mp hf with hold | hself
    · exact hs.positive f hold
    · rw [mem_singleton.mp hself]
      exact hpos
  have haliases := hs.aliases_append hdistinct ho
  rw [applyCachedEvent_eq]
  by_cases hcompaction : e.isCompaction
  · have hsupersede : supersede entry.events e = entry.events := by
      unfold supersede
      rw [legacySkillId_of_compaction hcompaction]
    simp only [hcompaction, if_true, hsupersede]
    refine ⟨hall, hpositive, ?_, ?_, ?_, ?_, ?_, haliases⟩
    · intro x
      rw [mem_filter, decide_eq_true_iff]
      exact hs.mem_cut (ho.summary hcompaction) x
    · exact hs.nodup.sublist (filter_sublist.map _)
    · intro f hf hsummary
      rcases mem_append.mp hf with hold | hself
      · exact (hs.summary_le f hold hsummary).trans (ho.summary hcompaction)
      · rw [mem_singleton.mp hself]
    · exact .inr ⟨e, mem_append_right _ (mem_singleton.mpr rfl), hcompaction, rfl⟩
    · rw [decisions_cut ho hcompaction]
      exact Decisions.Same.refl _
  · rw [Bool.not_eq_true] at hcompaction
    have hnew : e ∉ entry.applied := by
      intro hmem
      rw [(ho.repeated hmem).1] at hcompaction
      cases hcompaction
    simp only [hcompaction, Bool.false_eq_true, if_false]
    refine ⟨hall, hpositive, ?_, ?_, ?_, ?_, hs.decisions_retain hdistinct ho hnew hcompaction,
      haliases⟩
    · intro x
      rw [← hs.mem_retain hdistinct ho hnew x]
      split_ifs with hretained
      · rw [mem_append, mem_singleton, and_iff_right hretained]
      · rw [eq_false hretained, false_and, or_false]
    · have hkept : ((supersede entry.events e).map CachedEvent.seq).Nodup :=
        hs.nodup.sublist ((supersede_sublist _ _).map _)
      split_ifs with hretained
      · rw [map_append, map_singleton, nodup_append]
        refine ⟨hkept, nodup_singleton _, ?_⟩
        intro n hn m hm heq
        obtain ⟨f, hf, rfl⟩ := mem_map.mp hn
        have happlied := ((hs.events f).mp ((supersede_sublist _ _).subset hf)).1
        rw [mem_singleton] at hm
        exact hnew (hdistinct f happlied (heq.trans hm) ▸ happlied)
      · exact hkept
    · intro f hf hsummary
      rcases mem_append.mp hf with hold | hself
      · exact hs.summary_le f hold hsummary
      · rw [mem_singleton.mp hself, hcompaction] at hsummary
        cases hsummary
    · rcases hs.summary_mem with hzero | ⟨f, hf, hsummary, hlast⟩
      · exact .inl hzero
      · exact .inr ⟨f, mem_append_left _ hf, hsummary, hlast⟩

end Cognis.SessionCache
