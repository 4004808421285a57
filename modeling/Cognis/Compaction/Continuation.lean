import Cognis.Compaction.Admission

namespace Cognis.Compaction

open List Option

open SessionCache (CachedEvent)

variable (events : List CachedEvent)

def continuedTurn : Option String :=
  ((events.filter isTurnAdmissionEvent).getLast?).bind
    fun e => Memory.textOf (JsonValue.get? e.data "turn_id")

def lastUserMessage : Option CachedEvent :=
  (userEventIndices events).getLast?.bind (events[·]?)

def KeepsContinuation : Prop :=
  ∀ turnId, continuedTurn events = some turnId →
    ∀ (preserveTurns : Int) (tail : Option (Int × TokenCounter)),
      hasAdmittedUserInstruction events turnId = true →
      hasAdmittedUserInstruction (splitEvents events preserveTurns tail).2 turnId = true

def ContinuesLastMessage : Prop :=
  ∀ turnId, continuedTurn events = some turnId →
    ∀ origin bound, admissionOrigin events turnId = some (origin, bound) →
      ∃ last, lastUserMessage events = some last ∧ last ∈ ofTurn events origin bound

structure Causal (events : List CachedEvent) : Prop where
  /-- A retry does not duplicate the message of the user. -/
  no_message : ∀ u ∈ events, isUserMessage u = true → ∀ n ∈ events,
    n.isRetryAdmissionNotice = true → ∀ turnId, u.hasText "turn_id" turnId = true →
    n.hasText "turn_id" turnId = true → ∀ source, retrySource n = some source → source = turnId
  /-- A retry comes after the message of the turn that it retries. -/
  message_first : ∀ u ∈ events, isUserMessage u = true → ∀ n ∈ events,
    n.isRetryAdmissionNotice = true → ∀ source, retrySource n = some source →
    n.hasText "turn_id" source = false → u.hasText "turn_id" source = true → u.seq < n.seq
  /-- A turn retries one other turn. -/
  one_source : ∀ n ∈ events, n.isRetryAdmissionNotice = true → ∀ n' ∈ events,
    n'.isRetryAdmissionNotice = true → ∀ turnId, n.hasText "turn_id" turnId = true →
    n'.hasText "turn_id" turnId = true → ∀ source source', retrySource n = some source →
    retrySource n' = some source' → source ≠ turnId → source' ≠ turnId → source = source'

/-- The admissions preserved are events, with all from the last one on. -/
structure Preserves (events preserved : List CachedEvent) (last : CachedEvent) : Prop where
  sub : ∀ e ∈ preserved, isTurnAdmissionEvent e = true → e ∈ events
  kept : ∀ e ∈ events, isTurnAdmissionEvent e = true → last.seq ≤ e.seq → e ∈ preserved

variable {events preserved : List CachedEvent} {last : CachedEvent} {turnId origin : String}
  {beforeSeq bound : Option Nat}

variable {e u : CachedEvent} {fuel latest : Nat} {visited : List String}

theorem admission_of_user (h : isUserMessage e) : isTurnAdmissionEvent e := by
  unfold isTurnAdmissionEvent
  rw [h]
  rfl

theorem admission_of_notice (h : e.isRetryAdmissionNotice) :
    isTurnAdmissionEvent e := by
  unfold isTurnAdmissionEvent
  rw [h, Bool.or_true]

theorem mem_ofTurn_of_sub (hsub : e ∈ preserved → e ∈ events)
    (h : e ∈ ofTurn preserved turnId beforeSeq) : e ∈ ofTurn events turnId beforeSeq := by
  obtain ⟨hmem, hturn, hbefore⟩ := mem_ofTurn.mp h
  exact mem_ofTurn.mpr ⟨hsub hmem, hturn, hbefore⟩

namespace Preserves

variable (hkeep : Preserves events preserved last)
include hkeep

theorem notice_sub {n : CachedEvent} (h : n ∈ noticesOf preserved turnId beforeSeq) :
    n ∈ noticesOf events turnId beforeSeq := by
  obtain ⟨hmem, hnotice⟩ := mem_noticesOf.mp h
  apply mem_noticesOf.mpr
  refine ⟨mem_ofTurn_of_sub ?_ hmem, hnotice⟩
  intro hpreserved
  exact hkeep.sub n hpreserved (admission_of_notice hnotice)

theorem user_sub (h : (ofTurn preserved turnId beforeSeq).any isUserMessage) :
    (ofTurn events turnId beforeSeq).any isUserMessage := by
  obtain ⟨u, hu, huser⟩ := any_eq_true.mp h
  apply any_eq_true.mpr
  refine ⟨u, mem_ofTurn_of_sub ?_ hu, huser⟩
  intro hpreserved
  exact hkeep.sub u hpreserved (admission_of_user huser)

theorem link_same {source : String} {seq : Nat} (hlast : last.seq ≤ seq)
    (h : retryLink events turnId beforeSeq = some (source, seq)) :
    retryLink preserved turnId beforeSeq = some (source, seq) := by
  obtain ⟨hne, hnames, ⟨n, hn, hsource, hseq⟩, hleast⟩ := retryLink_eq_some_iff.mp h
  apply retryLink_eq_some_iff.mpr
  refine ⟨hne, fun m hm => hnames m (hkeep.notice_sub hm), ⟨n, ?_, hsource, hseq⟩,
    fun m hm => hleast m (hkeep.notice_sub hm)⟩
  obtain ⟨hturn, hnotice⟩ := mem_noticesOf.mp hn
  obtain ⟨hmem, hid, hbefore⟩ := mem_ofTurn.mp hturn
  have hkept : n ∈ preserved := hkeep.kept n hmem (admission_of_notice hnotice) (by omega)
  exact mem_noticesOf.mpr ⟨mem_ofTurn.mpr ⟨hkept, hid, hbefore⟩, hnotice⟩

theorem walk_same (huser : isUserMessage last) {fuel' : Nat}
    (h : walk events fuel visited turnId beforeSeq = some (origin, bound))
    (hlast : last ∈ ofTurn events origin bound) (hfuel : fuel ≤ fuel') :
    walk preserved fuel' visited turnId beforeSeq = some (origin, bound) := by
  induction fuel generalizing fuel' visited turnId beforeSeq with
  | zero => cases h
  | succ fuel ih =>
    obtain ⟨rest, rfl⟩ : ∃ rest, fuel' = rest + 1 := ⟨fuel' - 1, by omega⟩
    unfold walk at h ⊢
    split_ifs at h with hvisited hmessage
    · cases h
      obtain ⟨hmem, hid, hbefore⟩ := mem_ofTurn.mp hlast
      have hkept : last ∈ preserved := hkeep.kept last hmem (admission_of_user huser) (le_refl _)
      have hany : (ofTurn preserved origin bound).any isUserMessage :=
        any_eq_true.mpr ⟨last, mem_ofTurn.mpr ⟨hkept, hid, hbefore⟩, huser⟩
      rw [if_neg hvisited, if_pos hany]
    · have hnone : ¬ (ofTurn preserved turnId beforeSeq).any isUserMessage :=
        fun hany => hmessage (hkeep.user_sub hany)
      rw [if_neg hvisited, if_neg hnone]
      cases hlink : retryLink events turnId beforeSeq with
      | none =>
        rw [hlink] at h
        cases h
      | some link =>
        rw [hlink] at h
        obtain ⟨seq', hle, hbound⟩ := walk_before h link.2 rfl
        have hless : last.seq < seq' := (mem_ofTurn.mp hlast).2.2 seq' hbound
        have hsame : retryLink preserved turnId beforeSeq = some (link.1, link.2) :=
          hkeep.link_same (by omega) hlink
        rw [hsame]
        exact ih h (by omega)

end Preserves

def Linked (events : List CachedEvent) (turnId : String) (beforeSeq : Option Nat) : Prop :=
  ∀ seq, beforeSeq = some seq → ∃ n ∈ events, n.isRetryAdmissionNotice = true ∧
    retrySource n = some turnId ∧ n.hasText "turn_id" turnId = false ∧ n.seq = seq

theorem linked_of_retryLink {source : String} {seq : Nat}
    (h : retryLink events turnId beforeSeq = some (source, seq)) :
    Linked events source (some seq) := by
  intro seq' hseq'
  cases hseq'
  obtain ⟨n, hn, hsource, hseq⟩ := notice_of_retryLink h
  obtain ⟨hturn, hnotice⟩ := mem_noticesOf.mp hn
  obtain ⟨hmem, hid, -⟩ := mem_ofTurn.mp hturn
  refine ⟨n, hmem, hnotice, hsource, ?_, hseq⟩
  apply Bool.eq_false_iff.mpr
  intro hother
  unfold CachedEvent.hasText at hid hother
  rw [eq_of_beq hid] at hother
  have heq : turnId = source := by simpa using hother
  exact (retryLink_eq_some_iff.mp h).1 heq.symm

theorem walk_spec (h : walk events fuel visited turnId beforeSeq = some (origin, bound)) :
    (Linked events turnId beforeSeq → Linked events origin bound) ∧
      ∃ u ∈ ofTurn events origin bound, isUserMessage u := by
  induction fuel generalizing visited turnId beforeSeq with
  | zero => cases h
  | succ fuel ih =>
    unfold walk at h
    split_ifs at h with hvisited hmessage
    · cases h
      exact ⟨id, any_eq_true.mp hmessage⟩
    · cases hlink : retryLink events turnId beforeSeq with
      | none =>
        rw [hlink] at h
        cases h
      | some =>
        rw [hlink] at h
        obtain ⟨hlinked, hmessage⟩ := ih h
        exact ⟨fun _ => hlinked (linked_of_retryLink hlink), hmessage⟩

namespace Causal

variable (hcausal : Causal events)
include hcausal

theorem mem_of_linked (hlinked : Linked events turnId beforeSeq)
    (hmem : u ∈ events) (huser : isUserMessage u) (hid : u.hasText "turn_id" turnId) :
    u ∈ ofTurn events turnId beforeSeq := by
  apply mem_ofTurn.mpr
  refine ⟨hmem, hid, ?_⟩
  intro seq hseq
  obtain ⟨n, hn, hnotice, hsource, hother, hnseq⟩ := hlinked seq hseq
  rw [← hnseq]
  exact hcausal.message_first u hmem huser n hn hnotice turnId hsource hother hid

theorem origin_same (hkeep : Preserves events preserved last) {fuel' : Nat}
    {before' bound' : Option Nat} {origin' : String}
    (h : walk events fuel visited turnId beforeSeq = some (origin, bound))
    (h' : walk preserved fuel' visited turnId before' = some (origin', bound'))
    (hlinked : Linked events turnId beforeSeq) : origin' = origin := by
  induction fuel generalizing fuel' visited turnId beforeSeq before' with
  | zero => cases h
  | succ fuel ih =>
    cases fuel' with
    | zero => cases h'
    | succ =>
      unfold walk at h h'
      split_ifs at h with hvisited hmessage
      · cases h
        split_ifs at h' with hmessage'
        · cases h'
          rfl
        · obtain ⟨u, hu, huser⟩ := any_eq_true.mp hmessage
          obtain ⟨humem, huid, -⟩ := mem_ofTurn.mp hu
          cases hlink : retryLink preserved origin before' with
          | none =>
            rw [hlink] at h'
            cases h'
          | some link =>
            obtain ⟨n, hn, hsource, -⟩ := notice_of_retryLink hlink
            obtain ⟨hturn, hnotice⟩ := mem_noticesOf.mp (hkeep.notice_sub hn)
            obtain ⟨hmem, hid, -⟩ := mem_ofTurn.mp hturn
            exact absurd (hcausal.no_message u humem huser n hmem hnotice origin huid hid link.1
              hsource) (retryLink_eq_some_iff.mp hlink).1
      · rw [if_neg hvisited] at h'
        have hnone : ¬ (ofTurn preserved turnId before').any isUserMessage := by
          intro hany
          obtain ⟨u, hu, huser⟩ := any_eq_true.mp (hkeep.user_sub hany)
          obtain ⟨hmem, hid, -⟩ := mem_ofTurn.mp hu
          exact hmessage (any_eq_true.mpr ⟨u, hcausal.mem_of_linked hlinked hmem huser hid, huser⟩)
        rw [if_neg hnone] at h'
        cases hlink : retryLink events turnId beforeSeq with
        | none =>
          rw [hlink] at h
          cases h
        | some link =>
          cases hlink' : retryLink preserved turnId before' with
          | none =>
            rw [hlink'] at h'
            cases h'
          | some link' =>
            rw [hlink] at h
            rw [hlink'] at h'
            obtain ⟨n, hn, hsource, -⟩ := notice_of_retryLink hlink
            obtain ⟨n', hn', hsource', -⟩ := notice_of_retryLink hlink'
            obtain ⟨hturn, hnotice⟩ := mem_noticesOf.mp hn
            obtain ⟨hturn', hnotice'⟩ := mem_noticesOf.mp (hkeep.notice_sub hn')
            have hsame : link.1 = link'.1 :=
              hcausal.one_source n (mem_ofTurn.mp hturn).1 hnotice n' (mem_ofTurn.mp hturn').1
                hnotice' turnId (mem_ofTurn.mp hturn).2.1 (mem_ofTurn.mp hturn').2.1 link.1 link'.1
                hsource hsource' (retryLink_eq_some_iff.mp hlink).1
                (retryLink_eq_some_iff.mp hlink').1
            dsimp only at h'
            rw [← hsame] at h'
            exact ih h h' (linked_of_retryLink hlink)

end Causal

theorem preserves_of_keepsFrom (hseq : events.Pairwise (·.seq < ·.seq)) {cut : Nat}
    (hle : cut ≤ latest) (hlast : events[latest]? = some last)
    (hkeeps : KeepsFrom events preserved cut) : Preserves events preserved last where
  sub := by
    intro e he hadmission
    have hmem : e ∈ preserved.filter isTurnAdmissionEvent := mem_filter.mpr ⟨he, hadmission⟩
    rw [hkeeps] at hmem
    exact mem_of_mem_drop (mem_filter.mp hmem).1
  kept := by
    intro e he hadmission hlater
    have hmem : e ∈ events.drop cut := by
      have hparts : events.take cut ++ events.drop cut = events := take_append_drop cut events
      have hin : last ∈ events.drop cut := by
        apply mem_of_getElem? (i := latest - cut)
        rw [getElem?_drop, show cut + (latest - cut) = latest by omega]
        exact hlast
      rw [← hparts] at he hseq
      rcases mem_append.mp he with hbefore | hafter
      · have hless : e.seq < last.seq := (pairwise_append.mp hseq).2.2 e hbefore last hin
        omega
      · exact hafter
    have hfilter : e ∈ preserved.filter isTurnAdmissionEvent := by
      rw [hkeeps]
      exact mem_filter.mpr ⟨hmem, hadmission⟩
    exact (mem_filter.mp hfilter).1

theorem user_eq_last (hlatest : (userEventIndices events).getLast? = some latest)
    (hlast : events[latest]? = some last) (hu : u ∈ events.drop latest)
    (huser : isUserMessage u) : u = last := by
  obtain ⟨offset, hoffset⟩ := mem_iff_getElem?.mp hu
  rw [getElem?_drop] at hoffset
  have hindex : latest + offset ∈ userEventIndices events :=
    mem_userEventIndices.mpr ⟨u, hoffset, huser⟩
  have hle : latest + offset ≤ latest := le_latest hlatest hindex
  have hzero : offset = 0 := by omega
  rw [hzero, Nat.add_zero, hlast] at hoffset
  exact (some.inj hoffset).symm

theorem user_eq_last_of_one (hlatest : (userEventIndices events).getLast? = some latest)
    (hlast : events[latest]? = some last) (hone : (userEventIndices events).length ≤ 1)
    (hu : u ∈ events) (huser : isUserMessage u) : u = last := by
  obtain ⟨index, hindex⟩ := mem_iff_getElem?.mp hu
  have hmem : index ∈ userEventIndices events := mem_userEventIndices.mpr ⟨u, hindex, huser⟩
  obtain ⟨front, hconcat⟩ := getLast?_eq_some_iff.mp hlatest
  rw [hconcat, length_append, length_singleton] at hone
  have hempty : front = [] := eq_nil_of_length_eq_zero (by omega)
  rw [hconcat, hempty, nil_append] at hmem
  rw [mem_singleton.mp hmem, hlast] at hindex
  exact (some.inj hindex).symm

theorem keepsContinuation_of_last (hseq : events.Pairwise (·.seq < ·.seq))
    (h : ContinuesLastMessage events) : KeepsContinuation events := by
  intro turnId hturn preserveTurns tail hadmitted
  obtain ⟨⟨origin, bound⟩, horigin⟩ := isSome_iff_exists.mp hadmitted
  obtain ⟨last, hfound, hlast⟩ := h turnId hturn origin bound horigin
  obtain ⟨latest, hlatest, hat⟩ := bind_eq_some_iff.mp hfound
  have huser : isUserMessage last := by
    obtain ⟨e, he, huser⟩ := mem_userEventIndices.mp (mem_of_getLast? hlatest)
    rw [hat] at he
    rw [some.inj he]
    exact huser
  obtain ⟨cut, hle, hkeeps⟩ := splitEvents_keeps hlatest preserveTurns tail
  have hkeep := preserves_of_keepsFrom hseq hle hat hkeeps
  have hwalk := hkeep.walk_same huser horigin hlast
    (le_max_left _ ((splitEvents events preserveTurns tail).2.length + 1))
  unfold hasAdmittedUserInstruction
  rw [admissionOrigin_of_walk hwalk (by omega)]
  rfl

theorem last_of_keepsContinuation (hseq : events.Pairwise (·.seq < ·.seq)) (hcausal : Causal events)
    (h : KeepsContinuation events) : ContinuesLastMessage events := by
  intro turnId hturn origin bound horigin
  have hstart : Linked events turnId none := by
    intro seq hseq
    cases hseq
  have hlinked : Linked events origin bound := (walk_spec horigin).1 hstart
  obtain ⟨-, u, hu, huser⟩ := walk_spec horigin
  obtain ⟨humem, _, -⟩ := mem_ofTurn.mp hu
  obtain ⟨latest, hlatest⟩ : ∃ latest, (userEventIndices events).getLast? = some latest := by
    obtain ⟨index, hindex⟩ := mem_iff_getElem?.mp humem
    have hmem : index ∈ userEventIndices events := mem_userEventIndices.mpr ⟨u, hindex, huser⟩
    exact ⟨_, getLast?_eq_some_getLast (ne_nil_of_mem hmem)⟩
  obtain ⟨last, hat, hlastUser⟩ := mem_userEventIndices.mp (mem_of_getLast? hlatest)
  refine ⟨last, by rw [lastUserMessage, hlatest]; exact hat, ?_⟩
  rcases Nat.lt_or_ge 1 (userEventIndices events).length with hmany | hone
  · have hsplit := splitEvents_one_turn hlatest hmany
    have hkept := h turnId hturn 1 none (by
      unfold hasAdmittedUserInstruction
      rw [horigin]
      rfl)
    rw [hsplit] at hkept
    obtain ⟨⟨origin', bound'⟩, horigin'⟩ := isSome_iff_exists.mp hkept
    have hkeep := preserves_of_keepsFrom hseq (le_refl latest) hat (keepsFrom_drop events latest)
    have hsame : origin' = origin := hcausal.origin_same hkeep horigin horigin' hstart
    obtain ⟨-, u', hu', huser'⟩ := walk_spec horigin'
    obtain ⟨hmem', hid', -⟩ := mem_ofTurn.mp hu'
    rw [user_eq_last hlatest hat hmem' huser', hsame] at hid'
    exact hcausal.mem_of_linked hlinked (mem_of_getElem? hat) hlastUser hid'
  · rw [← user_eq_last_of_one hlatest hat hone humem huser]
    exact hu

/-- Compaction keeps the continuation if, and in a causal log only if, the chain of retries ends
at the last user message of the log. -/
theorem continuation_kept_iff (hseq : events.Pairwise (·.seq < ·.seq)) :
    (ContinuesLastMessage events → KeepsContinuation events) ∧
    (Causal events → KeepsContinuation events → ContinuesLastMessage events) :=
  ⟨keepsContinuation_of_last hseq, last_of_keepsContinuation hseq⟩

def message (seq : Nat) (turnId : String) : CachedEvent :=
  ⟨seq, "user_message", [("turn_id", .str turnId)]⟩

def retryNotice (seq : Nat) (turnId source : String) : CachedEvent :=
  ⟨seq, "system_message", [("event", .str "system_notice"), ("kind", .str "model_recovery"),
    ("scope", .str "turn"), ("turn_id", .str turnId), ("retry_source_turn_id", .str source)]⟩

def twiceRetried : List CachedEvent :=
  [message 1 "first", message 2 "second", retryNotice 3 "third" "second",
    retryNotice 5 "fourth" "third"]

theorem continuation_kept_twiceRetried : KeepsContinuation twiceRetried := by
  have hturn : continuedTurn twiceRetried = some "fourth" := by decide
  have horigin : admissionOrigin twiceRetried "fourth" = some ("second", some 3) := by decide
  apply (continuation_kept_iff (by decide)).1
  intro turnId hturnId origin bound hbound
  cases hturnId
  cases hbound
  exact ⟨message 2 "second", by decide, by decide⟩

def overtakenRetry : List CachedEvent :=
  [message 1 "first", message 2 "second", retryNotice 3 "third" "first"]

theorem continuation_lost :
    overtakenRetry.Pairwise (·.seq < ·.seq) ∧ continuedTurn overtakenRetry = some "third" ∧
    hasAdmittedUserInstruction overtakenRetry "third" ∧
    hasAdmittedUserInstruction (splitEvents overtakenRetry 1 none).2 "third" = false := by
  refine ⟨by decide, by decide, by decide, ?_⟩
  decide

end Cognis.Compaction
