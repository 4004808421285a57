import Cognis.Compaction.Split

namespace Cognis.Compaction

open List

open SessionCache (CachedEvent)

variable (events : List CachedEvent) (turnId : String) (beforeSeq : Option Nat)

def ofTurn : List CachedEvent :=
  events.filter fun e => e.hasText "turn_id" turnId && beforeSeq.all fun seq => decide (e.seq < seq)

def retrySource (e : CachedEvent) : Option String :=
  (Memory.textOf (JsonValue.get? e.data "retry_source_turn_id")).filter (· ≠ "")

def noticesOf : List CachedEvent :=
  (ofTurn events turnId beforeSeq).filter CachedEvent.isRetryAdmissionNotice

def retryLink : Option (String × Nat) :=
  let notices := noticesOf events turnId beforeSeq
  match notices.mapM retrySource with
  | none => none
  | some named =>
    match (named.filter (· ≠ turnId)).dedup with
    | [source] =>
      ((notices.filter fun e => e.hasText "retry_source_turn_id" source).map (·.seq)).min?.map
        (source, ·)
    | _ => none

/-- The loop of `_has_admitted_user_instruction`: the turn at which it finds a user message, and
before which position. -/
def walk (events : List CachedEvent) : Nat → List String → String → Option Nat →
    Option (String × Option Nat)
  | 0, _, _, _ => none
  | fuel + 1, visited, turnId, beforeSeq =>
    if visited.contains turnId then none
    else if (ofTurn events turnId beforeSeq).any isUserMessage then some (turnId, beforeSeq)
    else
      match retryLink events turnId beforeSeq with
      | none => none
      | some (source, seq) => walk events fuel (turnId :: visited) source (some seq)

def admissionOrigin : Option (String × Option Nat) :=
  walk events (events.length + 1) [] turnId none

def hasAdmittedUserInstruction : Bool :=
  (admissionOrigin events turnId).isSome

variable {events : List CachedEvent} {turnId : String} {beforeSeq : Option Nat} {e : CachedEvent}

theorem mem_ofTurn : e ∈ ofTurn events turnId beforeSeq ↔
    e ∈ events ∧ e.hasText "turn_id" turnId ∧ ∀ seq, beforeSeq = some seq → e.seq < seq := by
  unfold ofTurn
  cases beforeSeq with
  | none | some seq => simp

theorem mem_noticesOf : e ∈ noticesOf events turnId beforeSeq ↔
    e ∈ ofTurn events turnId beforeSeq ∧ e.isRetryAdmissionNotice := mem_filter

variable {source : String} {notices : List CachedEvent} {named : List String} {seq fuel : Nat}

theorem hasText_of_retrySource (h : retrySource e = some source) :
    e.hasText "retry_source_turn_id" source := by
  obtain ⟨htext, -⟩ := Option.filter_eq_some_iff.mp h
  unfold Memory.textOf at htext
  unfold CachedEvent.hasText
  split at htext
  · rename_i text hget
    rw [hget, Option.some.inj htext]
    exact beq_self_eq_true _
  · cases htext

theorem retrySource_of_hasText (hsource : source ≠ "")
    (h : e.hasText "retry_source_turn_id" source) : retrySource e = some source := by
  unfold retrySource
  rw [eq_of_beq h]
  simp [Memory.textOf, hsource]

theorem dedup_eq_singleton_iff {names : List String} {name : String} :
    names.dedup = [name] ↔ name ∈ names ∧ ∀ other ∈ names, other = name := by
  constructor
  · intro h
    constructor
    · rw [← mem_dedup, h]
      exact mem_singleton.mpr rfl
    · intro other hother
      rw [← mem_dedup, h] at hother
      exact mem_singleton.mp hother
  · intro h
    apply perm_singleton.mp
    rw [perm_ext_iff_of_nodup names.nodup_dedup (nodup_singleton name)]
    intro other
    rw [mem_dedup, mem_singleton]
    constructor
    · exact h.2 other
    · intro heq
      rw [heq]
      exact h.1

theorem mapM_eq_some_map :
    notices.mapM retrySource = some named ↔ notices.map retrySource = named.map some := by
  induction notices generalizing named with
  | nil =>
    cases named with
    | nil | cons => simp
  | cons n rest ih =>
    rw [mapM_cons, map_cons]
    cases hsource : retrySource n with
    | none =>
      cases named with
      | nil | cons => simp
    | some =>
      cases hrest : rest.mapM retrySource with
      | none =>
        cases named with
        | nil => simp
        | cons name names =>
          have hne : rest.map retrySource ≠ names.map some := by
            intro heq
            rw [ih.mpr heq] at hrest
            cases hrest
          simp [hne]
      | some others =>
        have hmap : rest.map retrySource = others.map some := ih.mp hrest
        cases named with
        | nil => simp
        | cons =>
          have hinjective : Function.Injective (List.map (some : String → Option String)) :=
            map_injective_iff.mpr (Option.some_injective String)
          rw [hmap]
          simp [hinjective.eq_iff]

theorem mapM_of_all (h : ∀ n ∈ notices, (retrySource n).isSome) :
    ∃ named, notices.mapM retrySource = some named := by
  induction notices with
  | nil => exact ⟨[], rfl⟩
  | cons n rest ih =>
    obtain ⟨others, hothers⟩ := ih fun m hm => h m (mem_cons_of_mem n hm)
    obtain ⟨name, hname⟩ := Option.isSome_iff_exists.mp (h n mem_cons_self)
    exact ⟨name :: others, by rw [mapM_cons, hname, hothers]; rfl⟩

theorem mem_named {name : String} (h : notices.map retrySource = named.map some) :
    name ∈ named ↔ ∃ n ∈ notices, retrySource n = some name := by
  have hmem : some name ∈ notices.map retrySource ↔ name ∈ named := by
    rw [h]
    exact mem_map_of_injective (Option.some_injective String)
  rw [← hmem, mem_map]

theorem ne_empty_of_retrySource (h : retrySource e = some source) :
    source ≠ "" := by
  obtain ⟨-, hfilter⟩ := Option.filter_eq_some_iff.mp h
  exact of_decide_eq_true hfilter

theorem one_source_iff (h : notices.map retrySource = named.map some) :
    (named.filter (· ≠ turnId)).dedup = [source] ↔ source ≠ turnId ∧
      (∀ n ∈ notices, retrySource n = some turnId ∨ retrySource n = some source) ∧
      ∃ n ∈ notices, retrySource n = some source := by
  rw [dedup_eq_singleton_iff, mem_filter, mem_named h, decide_eq_true_iff]
  constructor
  · intro hone
    refine ⟨hone.1.2, ?_, hone.1.1⟩
    intro n hn
    have hsome : retrySource n ∈ named.map some := by
      rw [← h]
      exact mem_map_of_mem hn
    obtain ⟨name, hname, heq⟩ := mem_map.mp hsome
    by_cases hself : name = turnId
    · left
      rw [← heq, hself]
    · right
      have hmem : name ∈ named.filter (· ≠ turnId) :=
        mem_filter.mpr ⟨hname, decide_eq_true hself⟩
      rw [← heq, hone.2 name hmem]
  · intro hone
    refine ⟨⟨hone.2.2, hone.1⟩, ?_⟩
    intro other hother
    obtain ⟨hnamed, hne⟩ := mem_filter.mp hother
    obtain ⟨n, hn, hsource⟩ := (mem_named h).mp hnamed
    rcases hone.2.1 n hn with hself | heq
    · rw [hself] at hsource
      exact absurd (Option.some.inj hsource).symm (of_decide_eq_true hne)
    · rw [heq] at hsource
      exact (Option.some.inj hsource).symm

theorem first_notice_iff (hsource : source ≠ "") :
    ((notices.filter fun e => e.hasText "retry_source_turn_id" source).map (·.seq)).min? =
        some seq ↔
      (∃ n ∈ notices, retrySource n = some source ∧ n.seq = seq) ∧
      ∀ n ∈ notices, retrySource n = some source → seq ≤ n.seq := by
  have hmem : ∀ n, n ∈ notices.filter (fun e => e.hasText "retry_source_turn_id" source) ↔
      n ∈ notices ∧ retrySource n = some source := by
    intro n
    rw [mem_filter]
    constructor
    · intro h
      exact ⟨h.1, retrySource_of_hasText hsource h.2⟩
    · intro h
      exact ⟨h.1, hasText_of_retrySource h.2⟩
  rw [min?_eq_some_iff, mem_map]
  constructor
  · intro h
    obtain ⟨⟨n, hn, hseq⟩, hleast⟩ := h
    refine ⟨⟨n, ((hmem n).mp hn).1, ((hmem n).mp hn).2, hseq⟩, ?_⟩
    intro m hm hnames
    exact hleast m.seq (mem_map_of_mem ((hmem m).mpr ⟨hm, hnames⟩))
  · intro h
    obtain ⟨⟨n, hn, hnames, hseq⟩, hleast⟩ := h
    refine ⟨⟨n, (hmem n).mpr ⟨hn, hnames⟩, hseq⟩, ?_⟩
    intro other hother
    obtain ⟨m, hm, hmseq⟩ := mem_map.mp hother
    rw [← hmseq]
    exact hleast m ((hmem m).mp hm).1 ((hmem m).mp hm).2

theorem retryLink_eq_some_iff : retryLink events turnId beforeSeq = some (source, seq) ↔
      source ≠ turnId ∧
      (∀ n ∈ noticesOf events turnId beforeSeq,
        retrySource n = some turnId ∨ retrySource n = some source) ∧
      (∃ n ∈ noticesOf events turnId beforeSeq, retrySource n = some source ∧ n.seq = seq) ∧
      ∀ n ∈ noticesOf events turnId beforeSeq, retrySource n = some source → seq ≤ n.seq := by
  unfold retryLink
  dsimp only
  generalize noticesOf events turnId beforeSeq = notices
  cases hnamed : notices.mapM retrySource with
  | none =>
    constructor
    · intro h
      cases h
    · intro h
      have hall : ∀ n ∈ notices, (retrySource n).isSome := by
        intro n hn
        rcases h.2.1 n hn with hself | hother
        · rw [hself]
          rfl
        · rw [hother]
          rfl
      obtain ⟨named, hsome⟩ := mapM_of_all hall
      rw [hnamed] at hsome
      cases hsome
  | some named =>
    have hmap : notices.map retrySource = named.map some := mapM_eq_some_map.mp hnamed
    dsimp only
    constructor
    · intro h
      split at h
      · rename_i found hdedup
        obtain ⟨hne, hnames, n, _, hsource⟩ := (one_source_iff hmap).mp hdedup
        obtain ⟨least, hleast, hpair⟩ := Option.map_eq_some_iff.mp h
        cases hpair
        exact ⟨hne, hnames, (first_notice_iff (ne_empty_of_retrySource hsource)).mp hleast⟩
      · cases h
    · intro h
      obtain ⟨hne, hnames, ⟨n, hn, hsource, hseq⟩, hleast⟩ := h
      rw [(one_source_iff hmap).mpr ⟨hne, hnames, n, hn, hsource⟩]
      dsimp only
      rw [(first_notice_iff (ne_empty_of_retrySource hsource)).mpr ⟨⟨n, hn, hsource, hseq⟩, hleast⟩]
      rfl

theorem notice_of_retryLink (h : retryLink events turnId beforeSeq = some (source, seq)) :
    ∃ n ∈ noticesOf events turnId beforeSeq, retrySource n = some source ∧ n.seq = seq :=
  (retryLink_eq_some_iff.mp h).2.2.1

def earlier (events : List CachedEvent) (beforeSeq : Option Nat) : List CachedEvent :=
  events.filter fun e => beforeSeq.all fun seq => decide (e.seq < seq)

theorem earlier_lt (h : retryLink events turnId beforeSeq = some (source, seq)) :
    (earlier events (some seq)).length < (earlier events beforeSeq).length := by
  obtain ⟨n, hn, -, hseq⟩ := notice_of_retryLink h
  obtain ⟨hmem, -, hbefore⟩ := mem_ofTurn.mp (mem_noticesOf.mp hn).1
  have hwithin : earlier events (some seq) =
      (earlier events beforeSeq).filter fun e => decide (e.seq < seq) := by
    unfold earlier
    rw [filter_filter]
    apply filter_congr
    intro e _
    cases beforeSeq with
    | none => simp
    | some bound =>
      have hbound : n.seq < bound := hbefore bound rfl
      simp only [Option.all_some, ← Bool.decide_and, decide_eq_decide]
      omega
  rw [hwithin]
  apply length_filter_lt_length_iff_exists.mpr
  refine ⟨n, mem_filter.mpr ⟨hmem, ?_⟩, ?_⟩
  · cases beforeSeq with
    | none => rfl
    | some bound => exact decide_eq_true (hbefore bound rfl)
  · rw [hseq, decide_eq_true_iff]
    exact lt_irrefl seq

theorem walk_fuel {fuel' : Nat} {visited : List String}
    (h : (earlier events beforeSeq).length < fuel)
    (h' : (earlier events beforeSeq).length < fuel') :
    walk events fuel visited turnId beforeSeq = walk events fuel' visited turnId beforeSeq := by
  induction fuel generalizing fuel' visited turnId beforeSeq with
  | zero => exact absurd h (Nat.not_lt_zero _)
  | succ fuel ih =>
    cases fuel' with
    | zero => exact absurd h' (Nat.not_lt_zero _)
    | succ fuel' =>
      unfold walk
      cases hlink : retryLink events turnId beforeSeq with
      | none => rfl
      | some link =>
        have hless : (earlier events (some link.2)).length <
            (earlier events beforeSeq).length := earlier_lt hlink
        have hrest : walk events fuel (turnId :: visited) link.1 (some link.2) =
            walk events fuel' (turnId :: visited) link.1 (some link.2) :=
          ih (by omega) (by omega)
        dsimp only
        rw [hrest]

theorem admissionOrigin_of_walk {origin : String × Option Nat}
    (h : walk events fuel [] turnId none = some origin) (henough : events.length < fuel) :
    admissionOrigin events turnId = some origin := by
  have hall : (earlier events none).length ≤ events.length := length_filter_le _ _
  rw [← h]
  apply walk_fuel
  · omega
  · omega

theorem walk_before {visited : List String} {origin : String} {bound : Option Nat}
    (h : walk events fuel visited turnId beforeSeq = some (origin, bound)) :
    ∀ seq, beforeSeq = some seq → ∃ seq' ≤ seq, bound = some seq' := by
  induction fuel generalizing visited turnId beforeSeq with
  | zero => cases h
  | succ fuel ih =>
    intro seq hseq
    unfold walk at h
    split_ifs at h with hvisited huser
    · cases h
      exact ⟨seq, le_refl seq, hseq⟩
    · cases hlink : retryLink events turnId beforeSeq with
      | none =>
        rw [hlink] at h
        cases h
      | some link =>
        rw [hlink] at h
        obtain ⟨seq', hle, hbound⟩ := ih h link.2 rfl
        obtain ⟨n, hn, -, hnseq⟩ := notice_of_retryLink hlink
        have hless : n.seq < seq := (mem_ofTurn.mp (mem_noticesOf.mp hn).1).2.2 seq hseq
        exact ⟨seq', by omega, hbound⟩

end Cognis.Compaction
