import Cognis.Library.LatestKnown
import Cognis.Timeline.Idempotent

namespace Cognis.Timeline

open LatestKnown List Option TimelineItem

variable (item : TimelineItem)

/-- What a handoff shows of how it went. -/
structure HandoffOutcome where
  status : Option TimelineItemStatus
  text : String
  error : Option String
  recipientConversationId : Option String
  sortKey : String
  deriving DecidableEq

namespace TimelineItem

def handoff? : Option HandoffTimelineItem :=
  match item.body with
  | .handoff h => some h
  | _ => none

def handoffText : String := (item.handoff?.map (·.text)).getD ""

def handoffError : Option String := item.handoff?.bind (·.error.get)

def handoffRecipient : Option String :=
  item.handoff?.bind (·.recipientConversationId.get)

def handoffOutcome : HandoffOutcome where
  status := item.status.get
  text := item.handoffText
  error := item.handoffError
  recipientConversationId := item.handoffRecipient
  sortKey := item.sortKey

def saysText : Option String :=
  if item.handoffText = "" then none else some item.handoffText

def saysResult : Option (Option TimelineItemStatus × Option String) :=
  if item.status.get = some .running then none else some (item.status.get, item.handoffError)

end TimelineItem

structure IsHandoff (item : TimelineItem) : Prop where
  handoff : ∃ h, item.body = .handoff h
  typed : WellTyped item

def arrived (versions : List TimelineItem) : Option TimelineItem :=
  mergeAll mergeTimelineItem versions

variable {e i : TimelineItem} {vs : List TimelineItem}

theorem IsHandoff.plain (h : IsHandoff e) : ∀ ref ∈ e.sourceRefs, ':' ∉ ref.eventType.toList := by
  obtain ⟨b, hb⟩ := h.handoff
  have htyped := h.typed
  simp only [WellTyped, hb] at htyped
  exact htyped.2

theorem handoffRevision_merge (he : IsHandoff e) (hi : IsHandoff i) :
    handoffRevision (mergeTimelineItem e i) = max (handoffRevision e) (handoffRevision i) := by
  obtain ⟨h, hbody⟩ := he.handoff
  obtain ⟨h', hbody'⟩ := hi.handoff
  rw [merge_handoff hbody hbody']
  have hrefs : (mergeHandoff e i h h' (mergedSortKey e i)).sourceRefs =
      mergedRefs e.sourceRefs i.sourceRefs := rfl
  have hle : ∀ n, handoffRevision (mergeHandoff e i h h' (mergedSortKey e i)) ≤ n ↔
      max (handoffRevision e) (handoffRevision i) ≤ n := by
    intro n
    rw [max_le_iff, handoffRevision_le_iff, handoffRevision_le_iff, handoffRevision_le_iff, hrefs]
    constructor
    · rintro ⟨hzero, hmerged⟩
      have hall : ∀ ref ∈ e.sourceRefs ++ i.sourceRefs, ref.seq ≤ n := by
        intro ref href
        obtain ⟨ref', href', hkey⟩ := exists_mergedRef href
        have hplain : ∀ r ∈ e.sourceRefs ++ i.sourceRefs, ':' ∉ r.eventType.toList := by
          intro r hr
          rcases mem_append.mp hr with hold | hnew
          · exact he.plain r hold
          · exact hi.plain r hnew
        obtain ⟨key, hget⟩ := mem_mergedRefs.mp href'
        have hmem := (key_of_get?_refsByKey hget).1
        rw [← seq_eq_of_sourceRefKey (hplain ref' hmem) (hplain ref href) hkey]
        exact hmerged ref' href'
      exact ⟨⟨hzero, fun ref href => hall ref (mem_append_left _ href)⟩, hzero,
        fun ref href => hall ref (mem_append_right _ href)⟩
    · rintro ⟨⟨hzero, hold⟩, -, hnew⟩
      refine ⟨hzero, ?_⟩
      intro ref href
      obtain ⟨key, hget⟩ := mem_mergedRefs.mp href
      rcases mem_append.mp (key_of_get?_refsByKey hget).1 with hmem | hmem
      · exact hold ref hmem
      · exact hnew ref hmem
  apply le_antisymm
  · exact (hle _).mpr le_rfl
  · exact (hle _).mp le_rfl

theorem isHandoff_merge (he : IsHandoff e) (hi : IsHandoff i) :
    IsHandoff (mergeTimelineItem e i) where
  handoff := by
    obtain ⟨h, hbody⟩ := he.handoff
    obtain ⟨h', hbody'⟩ := hi.handoff
    rw [merge_handoff hbody hbody']
    exact ⟨_, rfl⟩
  typed := by
    obtain ⟨h, hbody⟩ := he.handoff
    obtain ⟨h', hbody'⟩ := hi.handoff
    have hkind : e.kind = i.kind := by
      unfold TimelineItem.kind
      rw [hbody, hbody']
    exact wellTyped_merge hkind he.typed hi.typed

theorem merges_text : Merges mergeTimelineItem IsHandoff handoffRevision TimelineItem.saysText where
  keeps _ _ := isHandoff_merge
  later _ _ := handoffRevision_merge
  known e i he hi := by
    obtain ⟨h, hbody⟩ := he.handoff
    obtain ⟨h', hbody'⟩ := hi.handoff
    have htext : e.handoffText = h.text := by
      simp only [TimelineItem.handoffText, TimelineItem.handoff?, hbody]
      rfl
    have htext' : i.handoffText = h'.text := by
      simp only [TimelineItem.handoffText, TimelineItem.handoff?, hbody']
      rfl
    rw [merge_handoff hbody hbody']
    unfold TimelineItem.saysText
    rw [htext, htext']
    by_cases hnewer : handoffRevision e ≤ handoffRevision i
    · rw [mergeHandoff_newer hnewer, if_pos hnewer]
      change (if (if h'.text = "" then h.text else h'.text) = "" then none
        else some (if h'.text = "" then h.text else h'.text)) = _
      by_cases hnone : h'.text = ""
      · simp only [hnone, if_true, none_or]
      · simp only [hnone, if_false, some_or]
    · rw [mergeHandoff_older hnewer, if_neg hnewer]
      change (if (if h.text = "" then h'.text else h.text) = "" then none
        else some (if h.text = "" then h'.text else h.text)) = _
      by_cases hnone : h.text = ""
      · simp only [hnone, if_true, none_or]
      · simp only [hnone, if_false, some_or]

theorem merges_recipient :
    Merges mergeTimelineItem IsHandoff handoffRevision TimelineItem.handoffRecipient where
  keeps _ _ := isHandoff_merge
  later _ _ := handoffRevision_merge
  known e i he hi := by
    obtain ⟨h, hbody⟩ := he.handoff
    obtain ⟨h', hbody'⟩ := hi.handoff
    have hheld : e.handoffRecipient = h.recipientConversationId.get := by
      simp only [TimelineItem.handoffRecipient, TimelineItem.handoff?, hbody]
      rfl
    have hincoming : i.handoffRecipient = h'.recipientConversationId.get := by
      simp only [TimelineItem.handoffRecipient, TimelineItem.handoff?, hbody']
      rfl
    rw [merge_handoff hbody hbody', hheld, hincoming]
    by_cases hnewer : handoffRevision e ≤ handoffRevision i
    · rw [mergeHandoff_newer hnewer, if_pos hnewer]
      change (h'.recipientConversationId.coalesce h.recipientConversationId).get = _
      unfold JsField.coalesce
      rw [JsField.get_ofOption]
    · rw [mergeHandoff_older hnewer, if_neg hnewer]
      change (h.recipientConversationId.coalesce h'.recipientConversationId).get = _
      unfold JsField.coalesce
      rw [JsField.get_ofOption]

theorem status_error_merge (he : IsHandoff e) (hi : IsHandoff i) :
    let older := if handoffRevision e ≤ handoffRevision i then e else i
    let newer := if handoffRevision e ≤ handoffRevision i then i else e
    let shown := if newer.status.get = some .running ∧ older.status.get ≠ some .running
      then older else newer
    (mergeTimelineItem e i).status.get = shown.status.get ∧
      (mergeTimelineItem e i).handoffError = shown.handoffError := by
  obtain ⟨h, hbody⟩ := he.handoff
  obtain ⟨h', hbody'⟩ := hi.handoff
  have herror : e.handoffError = h.error.get := by
    simp only [TimelineItem.handoffError, TimelineItem.handoff?, hbody]
    rfl
  have herror' : i.handoffError = h'.error.get := by
    simp only [TimelineItem.handoffError, TimelineItem.handoff?, hbody']
    rfl
  rw [merge_handoff hbody hbody']
  by_cases hnewer : handoffRevision e ≤ handoffRevision i
  · rw [mergeHandoff_newer hnewer]
    simp only [hnewer, if_true]
    by_cases hruns : i.status.get = some .running ∧ e.status.get ≠ some .running
    · rw [if_pos hruns, if_pos hruns, if_pos hruns, herror]
      exact ⟨JsField.get_ofOption _, JsField.get_ofOption _⟩
    · rw [if_neg hruns, if_neg hruns, if_neg hruns, herror']
      exact ⟨JsField.get_ofOption _, JsField.get_ofOption _⟩
  · rw [mergeHandoff_older hnewer]
    simp only [hnewer, if_false]
    by_cases hruns : e.status.get = some .running ∧ i.status.get ≠ some .running
    · rw [if_pos hruns, if_pos hruns, if_pos hruns, herror']
      exact ⟨JsField.get_ofOption _, JsField.get_ofOption _⟩
    · rw [if_neg hruns, if_neg hruns, if_neg hruns, herror]
      exact ⟨JsField.get_ofOption _, JsField.get_ofOption _⟩

theorem merges_result :
    Merges mergeTimelineItem IsHandoff handoffRevision TimelineItem.saysResult where
  keeps _ _ := isHandoff_merge
  later _ _ := handoffRevision_merge
  known e i he hi := by
    obtain ⟨hstatus, herror⟩ := status_error_merge he hi
    unfold TimelineItem.saysResult
    rw [hstatus, herror]
    by_cases hnewer : handoffRevision e ≤ handoffRevision i
    · simp only [hnewer, if_true]
      by_cases hincoming : i.status.get = some .running
      · by_cases hheld : e.status.get = some .running
        · simp [hincoming, hheld]
        · simp [hincoming, hheld]
      · simp [hincoming]
    · simp only [hnewer, if_false]
      by_cases hheld : e.status.get = some .running
      · by_cases hincoming : i.status.get = some .running
        · simp [hincoming, hheld]
        · simp [hincoming, hheld]
      · simp [hheld]

theorem merges_error : Merges mergeTimelineItem
    (fun item => IsHandoff item ∧ item.status.get = some .running) handoffRevision
    (fun item => some item.handoffError) where
  keeps e i he hi := by
    refine ⟨isHandoff_merge he.1 hi.1, ?_⟩
    rw [(status_error_merge he.1 hi.1).1]
    by_cases hnewer : handoffRevision e ≤ handoffRevision i
    · simp [hnewer, he.2, hi.2]
    · simp [hnewer, he.2, hi.2]
  later e i he hi := handoffRevision_merge he.1 hi.1
  known e i he hi := by
    rw [(status_error_merge he.1 hi.1).2]
    by_cases hnewer : handoffRevision e ≤ handoffRevision i
    · simp [hnewer, he.2]
    · simp [hnewer, hi.2]

theorem le_sortKey_foldl {first : TimelineItem} {rest : List TimelineItem} {k : String}
    (hall : ∀ v ∈ first :: rest, IsHandoff v) :
    k ≤ (rest.foldl mergeTimelineItem first).sortKey ↔ ∀ v ∈ first :: rest, k ≤ v.sortKey := by
  induction rest generalizing first with
  | nil => simp
  | cons x rest ih =>
    have hfirst := hall first mem_cons_self
    have hx := hall x (mem_cons_of_mem _ mem_cons_self)
    have hkey : k ≤ (mergeTimelineItem first x).sortKey ↔ k ≤ first.sortKey ∧ k ≤ x.sortKey := by
      obtain ⟨h, hbody⟩ := hfirst.handoff
      obtain ⟨h', hbody'⟩ := hx.handoff
      rw [merge_handoff hbody hbody']
      unfold mergedSortKey
      split_ifs with hle
      · exact ⟨fun hk => ⟨hk, hk.trans hle⟩, And.left⟩
      · exact ⟨fun hk => ⟨hk.trans (le_of_not_ge hle), hk⟩, And.right⟩
    rw [foldl_cons, ih]
    · simp only [forall_mem_cons, hkey, and_assoc]
    · intro v hv
      rcases mem_cons.mp hv with rfl | hlater
      · exact isHandoff_merge hfirst hx
      · exact hall v (mem_cons_of_mem _ (mem_cons_of_mem _ hlater))

theorem sortKey_arrived {p q : List TimelineItem} (hvs : ∀ v ∈ vs, IsHandoff v) (hp : p.Perm vs)
    (hq : q.Perm vs) : (arrived p).map (·.sortKey) = (arrived q).map (·.sortKey) := by
  cases p with
  | nil =>
    rw [hp.nil_eq.symm] at hq
    rw [hq.eq_nil]
  | cons first rest =>
    cases q with
    | nil =>
      rw [hq.nil_eq.symm] at hp
      exact absurd hp.eq_nil (cons_ne_nil _ _)
    | cons first' rest' =>
      have hle : ∀ k, k ≤ (rest.foldl mergeTimelineItem first).sortKey ↔
          k ≤ (rest'.foldl mergeTimelineItem first').sortKey := by
        intro k
        rw [le_sortKey_foldl fun v hv => hvs v (hp.mem_iff.mp hv),
          le_sortKey_foldl fun v hv => hvs v (hq.mem_iff.mp hv)]
        constructor
        · intro hall v hv
          exact hall v (hp.mem_iff.mpr (hq.mem_iff.mp hv))
        · intro hall v hv
          exact hall v (hq.mem_iff.mpr (hp.mem_iff.mp hv))
      exact congrArg some (le_antisymm ((hle _).mp le_rfl) ((hle _).mpr le_rfl))

/-- The newest version has the text, the recipient and the result, or the others do not differ
in what it lacks. -/
structure Decides (vs : List TimelineItem) (n : TimelineItem) : Prop where
  text : n.handoffText ≠ "" ∨ ∀ v ∈ vs, ∀ w ∈ vs, v.handoffText ≠ "" → w.handoffText ≠ "" →
    v.handoffText = w.handoffText
  recipient : n.handoffRecipient ≠ none ∨ ∀ v ∈ vs, ∀ w ∈ vs, v.handoffRecipient ≠ none →
    w.handoffRecipient ≠ none → v.handoffRecipient = w.handoffRecipient
  result : n.status.get ≠ some .running ∨ ∀ v ∈ vs, ∀ w ∈ vs, v.status.get ≠ some .running →
    w.status.get ≠ some .running → v.status.get = w.status.get ∧ v.handoffError = w.handoffError

theorem saysText_eq_some {a : String} :
    e.saysText = some a ↔ e.handoffText ≠ "" ∧ e.handoffText = a := by
  unfold TimelineItem.saysText
  split_ifs with hnone
  · simp [hnone]
  · simp [hnone]

theorem saysText_ne_none : e.saysText ≠ none ↔ e.handoffText ≠ "" := by
  unfold TimelineItem.saysText
  split_ifs with hnone
  · simp [hnone]
  · simp [hnone]

theorem saysResult_ne_none : e.saysResult ≠ none ↔ e.status.get ≠ some .running := by
  unfold TimelineItem.saysResult
  split_ifs with hruns
  · simp [hruns]
  · simp [hruns]

theorem newestDecides_iff : (NewestDecides handoffRevision TimelineItem.saysText vs ∧
      NewestDecides handoffRevision TimelineItem.handoffRecipient vs ∧
      NewestDecides handoffRevision TimelineItem.saysResult vs) ↔
    ∀ n ∈ vs, (∀ v ∈ vs, handoffRevision v ≤ handoffRevision n) → Decides vs n := by
  constructor
  · rintro ⟨htext, hrecipient, hresult⟩ n hn hnewest
    refine ⟨?_, ?_, ?_⟩
    · apply (htext n hn hnewest).imp saysText_ne_none.mp
      intro hsame v hv w hw hv' hw'
      exact hsame v hv w hw _ _ (saysText_eq_some.mpr ⟨hv', rfl⟩) (saysText_eq_some.mpr ⟨hw', rfl⟩)
    · apply (hrecipient n hn hnewest).imp id
      intro hsame v hv w hw hv' hw'
      obtain ⟨a, ha⟩ := ne_none_iff_exists'.mp hv'
      obtain ⟨b, hb⟩ := ne_none_iff_exists'.mp hw'
      rw [ha, hb, hsame v hv w hw a b ha hb]
    · apply (hresult n hn hnewest).imp saysResult_ne_none.mp
      intro hsame v hv w hw hv' hw'
      have heq := hsame v hv w hw _ _ (if_neg hv') (if_neg hw')
      exact ⟨congrArg Prod.fst heq, congrArg Prod.snd heq⟩
  · intro hall
    refine ⟨?_, ?_, ?_⟩
    · intro n hn hnewest
      apply (hall n hn hnewest).text.imp saysText_ne_none.mpr
      intro hsame v hv w hw a b ha hb
      obtain ⟨hv', rfl⟩ := saysText_eq_some.mp ha
      obtain ⟨hw', rfl⟩ := saysText_eq_some.mp hb
      exact hsame v hv w hw hv' hw'
    · intro n hn hnewest
      apply (hall n hn hnewest).recipient.imp id
      intro hsame v hv w hw a b ha hb
      have heq := hsame v hv w hw (by rw [ha]; exact some_ne_none a)
        (by rw [hb]; exact some_ne_none b)
      rw [ha, hb] at heq
      exact some.inj heq
    · intro n hn hnewest
      apply (hall n hn hnewest).result.imp saysResult_ne_none.mpr
      intro hsame v hv w hw a b ha hb
      have hv' : v.status.get ≠ some .running :=
        saysResult_ne_none.mp (by rw [ha]; exact some_ne_none a)
      have hw' : w.status.get ≠ some .running :=
        saysResult_ne_none.mp (by rw [hb]; exact some_ne_none b)
      obtain ⟨hstatus, herror⟩ := hsame v hv w hw hv' hw'
      unfold TimelineItem.saysResult at ha hb
      rw [if_neg hv'] at ha
      rw [if_neg hw'] at hb
      cases ha
      cases hb
      rw [hstatus, herror]

theorem handoffOutcome_eq {r r' : TimelineItem} (htext : r.saysText = r'.saysText)
    (hrecipient : r.handoffRecipient = r'.handoffRecipient)
    (hresult : r.saysResult = r'.saysResult) (hkey : r.sortKey = r'.sortKey)
    (herror : r.saysResult = none → r.handoffError = r'.handoffError) :
    r.handoffOutcome = r'.handoffOutcome := by
  have htext' : r.handoffText = r'.handoffText := by
    unfold TimelineItem.saysText at htext
    split_ifs at htext with hnone hnone' hnone'
    · rw [hnone, hnone']
    · exact some.inj htext
  have hboth : r.status.get = r'.status.get ∧ r.handoffError = r'.handoffError := by
    unfold TimelineItem.saysResult at hresult herror
    split_ifs at hresult with hruns hruns' hruns'
    · exact ⟨hruns.trans hruns'.symm, herror (if_pos hruns)⟩
    · have hpair := some.inj hresult
      exact ⟨congrArg Prod.fst hpair, congrArg Prod.snd hpair⟩
  unfold TimelineItem.handoffOutcome
  rw [htext', hboth.1, hboth.2, hrecipient, hkey]

/-- In every order of arrival the versions of a handoff come to the same exactly if the newest
decides. -/
theorem arrival_order_free_iff (vs : List TimelineItem) (hvs : ∀ v ∈ vs, IsHandoff v)
    (hdistinct : (vs.map handoffRevision).Nodup) :
    (∀ p q : List TimelineItem, p.Perm vs → q.Perm vs →
      (arrived p).map (·.handoffOutcome) = (arrived q).map (·.handoffOutcome)) ↔
    ∀ n ∈ vs, (∀ v ∈ vs, handoffRevision v ≤ handoffRevision n) → Decides vs n := by
  have htexts := merges_text.orderFree_iff hvs hdistinct
  have hrecipients := merges_recipient.orderFree_iff hvs hdistinct
  have hresults := merges_result.orderFree_iff hvs hdistinct
  rw [← newestDecides_iff, ← htexts, ← hrecipients, ← hresults]
  constructor
  · intro hfree
    refine ⟨?_, ?_, ?_⟩
    · intro p q hp hq
      have hsame := congrArg (Option.map fun o : HandoffOutcome =>
        if o.text = "" then none else some o.text) (hfree p q hp hq)
      rw [Option.map_map, Option.map_map] at hsame
      exact hsame
    · intro p q hp hq
      have hsame := congrArg (Option.map HandoffOutcome.recipientConversationId) (hfree p q hp hq)
      rw [Option.map_map, Option.map_map] at hsame
      exact hsame
    · intro p q hp hq
      have hsame := congrArg (Option.map fun o : HandoffOutcome =>
        if o.status = some .running then none else some (o.status, o.error)) (hfree p q hp hq)
      rw [Option.map_map, Option.map_map] at hsame
      exact hsame
  · rintro ⟨htext, hrecipient, hresult⟩ p q hp hq
    by_cases hnil : vs = []
    · subst hnil
      rw [hp.eq_nil, hq.eq_nil]
    · obtain ⟨r, hr, -, hnone⟩ := merges_result.value_mergeAll hvs hp hnil
      obtain ⟨r', hr', -, -⟩ := merges_result.value_mergeAll hvs hq hnil
      have hsame : ∀ {γ : Type} {f : TimelineItem → γ},
          (arrived p).map f = (arrived q).map f → f r = f r' := by
        intro γ f heq
        unfold arrived at heq
        rw [hr, hr'] at heq
        exact some.inj heq
      have houtcome : r.handoffOutcome = r'.handoffOutcome := by
        apply handoffOutcome_eq (hsame (htext p q hp hq)) (hsame (hrecipient p q hp hq))
          (hsame (hresult p q hp hq)) (hsame (sortKey_arrived hvs hp hq))
        intro hrunning
        have hall : ∀ v ∈ vs, IsHandoff v ∧ v.status.get = some .running := by
          intro v hv
          refine ⟨hvs v hv, ?_⟩
          by_contra hended
          exact saysResult_ne_none.mpr hended (hnone hrunning v hv)
        have herrors := (merges_error.orderFree_iff hall hdistinct).mpr
          (fun n _ _ => .inl (some_ne_none _)) p q hp hq
        exact some.inj (hsame herrors)
      unfold arrived
      rw [hr, hr', map_some, map_some, houtcome]

def handoffPage (status : TimelineItemStatus) (seq : Int) (error : JsField String) :
    TimelineItem where
  id := "handoff"
  sortKey := "1"
  sourceRefs :=
    [{ store := "intaris", sessionId := "session", seq := seq, eventType := "lifecycle" }]
  status := .value status
  stable := true
  body := .handoff
    { text := "text", focus := "", sourceSessionId := "session", sourceSeq := 1, error := error }

theorem isHandoff_page {status : TimelineItemStatus} {seq : Int} {error : JsField String}
    (h : status ∈ [TimelineItemStatus.running, .complete, .failed]) :
    IsHandoff (handoffPage status seq error) where
  handoff := ⟨_, rfl⟩
  typed := by
    refine ⟨?_, ?_⟩
    · rintro s ⟨⟩
      exact h
    · intro ref href
      rw [mem_singleton.mp href]
      change ':' ∉ "lifecycle".toList
      decide

def handoffPages (runningSeq : Int) : List TimelineItem :=
  [handoffPage .failed 10 (.value "timeout"), handoffPage .complete 12 .absent,
    handoffPage .running runningSeq .absent]

theorem isHandoff_pages {seq : Int} : ∀ v ∈ handoffPages seq, IsHandoff v := by
  intro v hv
  simp only [handoffPages, mem_cons, not_mem_nil, or_false] at hv
  rcases hv with rfl | rfl | rfl
  · exact isHandoff_page (by decide)
  · exact isHandoff_page (by decide)
  · exact isHandoff_page (by decide)

/-- The completion is the newest. -/
theorem completed_in_any_order : (arrived (handoffPages 6)).map (·.handoffOutcome) =
      (arrived (handoffPages 6).reverse).map (·.handoffOutcome) := by
  have hdecides : ∀ n ∈ handoffPages 6,
      (∀ v ∈ handoffPages 6, handoffRevision v ≤ handoffRevision n) →
        Decides (handoffPages 6) n := by
    intro n hn hnewest
    have hlast := hnewest (handoffPage .complete 12 .absent) (by simp [handoffPages])
    have hnone : ∀ v ∈ handoffPages 6, v.handoffRecipient = none := by decide
    simp only [handoffPages, mem_cons, not_mem_nil, or_false] at hn
    rcases hn with rfl | rfl | rfl
    · exact absurd hlast (by decide)
    · refine ⟨.inl (by decide), .inr ?_, .inl (by decide)⟩
      intro v hv _ _ hnamed _
      exact absurd (hnone v hv) hnamed
    · exact absurd hlast (by decide)
  exact (arrival_order_free_iff (handoffPages 6) isHandoff_pages (by decide)).mpr hdecides _ _
    (Perm.refl _) (reverse_perm _)

/-- The running version is the newest, and the first result to arrive after it stays. -/
theorem arrival_order_matters :
    (∀ v ∈ handoffPages 15, IsHandoff v) ∧ ((handoffPages 15).map handoffRevision).Nodup ∧
      ¬ ∀ p q : List TimelineItem, p.Perm (handoffPages 15) → q.Perm (handoffPages 15) →
        (arrived p).map (·.handoffOutcome) = (arrived q).map (·.handoffOutcome) := by
  refine ⟨isHandoff_pages, by decide, ?_⟩
  intro hfree
  have hmoved : [handoffPage .running 15 .absent, handoffPage .failed 10 (.value "timeout"),
      handoffPage .complete 12 .absent].Perm (handoffPages 15) := by
    exact perm_append_comm_assoc [handoffPage .running 15 .absent]
      [handoffPage .failed 10 (.value "timeout"), handoffPage .complete 12 .absent] []
  have hsame := hfree (handoffPages 15) [handoffPage .running 15 .absent,
    handoffPage .failed 10 (.value "timeout"), handoffPage .complete 12 .absent]
    (Perm.refl _) hmoved
  revert hsame
  decide

end Cognis.Timeline
