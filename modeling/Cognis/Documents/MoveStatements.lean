import Cognis.Documents.Mover

namespace Cognis.Documents

open List ScopedLineages Transactions
open Deliverables (CreateError)

variable {db db' : Database} {t u v : DocumentView} {c : String} {old new : Option String}
  {ids artifactIds : List String} {R : Unit → DocumentView → Prop}

theorem Effect.seen_deliverables (h : Effect t.changes [] artifactIds new) :
    (seen t).deliverables = t.db.deliverables :=
  (h.deliverables t.db).trans (map_id t.db.deliverables)

theorem Effect.seen_artifacts (h : Effect t.changes ids [] new) :
    (seen t).artifacts = t.db.artifacts := (h.artifacts t.db).trans (map_id t.db.artifacts)

theorem deliverableRoots_congr (h : db.deliverables = db'.deliverables) :
    deliverableRoots db c = deliverableRoots db' c := by
  unfold deliverableRoots
  rw [h]

theorem artifactRoots_congr (h : db.artifacts = db'.artifacts) :
    artifactRoots db c = artifactRoots db' c := by
  unfold artifactRoots
  rw [h]

theorem followingDeliverables_congr (h : db.deliverables = db'.deliverables) :
    followingDeliverables db c old = followingDeliverables db' c old := by
  unfold followingDeliverables
  rw [deliverableRoots_congr h, h]

theorem filter_map_kept {α : Type} {l : List α} {f : α → α} {p : α → Bool}
    (hsame : ∀ a ∈ l, p (f a) = p a) (hkept : ∀ a ∈ l, p a → f a = a) :
    (l.map f).filter p = l.filter p := by
  induction l with
  | nil => rfl
  | cons a l ih =>
    have htail := ih (fun x hx => hsame x (mem_cons_of_mem a hx))
      (fun x hx => hkept x (mem_cons_of_mem a hx))
    have hhead := hsame a mem_cons_self
    rw [map_cons, filter_cons, filter_cons, htail, hhead]
    by_cases hp : p a
    · rw [if_pos hp, if_pos hp, hkept a mem_cons_self hp]
    · rw [if_neg hp, if_neg hp]

/-- The roots that follow the conversation are locked. -/
theorem keeping_lockFollowing (hne : c ≠ "")
    (hheld : v.held (.conversation c)) (heffect : Effect v.changes [] [] new)
    (h : ∀ t, Later discipline v t → t.changes = v.changes → RootsHeld c t → R () t) :
    Keeping Database.apply discipline (lockFollowing c) R v := by
  apply keeping_bind
  apply keeping_lockRows
  intro t u ht htchanges hu huchanges hdeliverables
  apply keeping_lockRows
  intro x y hx hxchanges hy hychanges hartifacts
  have htheld := ht.held _ hheld
  have hlater := hu.trans (hx.trans hy)
  apply h y (ht.trans hlater) (hychanges.trans huchanges)
  refine ⟨hy.inv, hne, hlater.held _ htheld, ?_, ?_⟩
  · intro id hid
    obtain ⟨root, hroot, rfl⟩ := startedDeliverable_back hne htheld hlater hid
    have hseen : (seen t).deliverables = t.db.deliverables :=
      Effect.seen_deliverables (htchanges ▸ heffect)
    have hown := ht.inv.ownRoot hroot
    apply (hx.trans hy).held
    apply hdeliverables
    unfold deliverableKeys
    rw [deliverableRoots_congr hseen, hseen]
    apply mem_map_of_mem (f := fun row : DeliverableRow => Key.deliverable row.deliverableId)
    exact mem_filter.mpr ⟨(mem_deliverableRoots.mp hroot).1,
      inLineages_iff.mpr ⟨_, hown, mem_map_of_mem hroot⟩⟩
  · intro id hid
    obtain ⟨root, hroot, rfl⟩ :=
      startedArtifact_back hne (hx.held _ (hu.held _ htheld)) hy hid
    have hseen : (seen x).artifacts = x.db.artifacts :=
      Effect.seen_artifacts ((hxchanges.trans huchanges) ▸ heffect)
    have hown := hx.inv.ownArtifactRoot hroot
    apply hartifacts
    unfold artifactKeys
    rw [artifactRoots_congr hseen, hseen]
    apply mem_map_of_mem (f := fun row : ArtifactRecordRow => Key.artifact row.artifactId)
    exact mem_filter.mpr ⟨(mem_artifactRoots.mp hroot).1,
      inLineages_iff.mpr ⟨_, hown, mem_map_of_mem hroot⟩⟩

/-- The deliverables gathered are moved, their records locked. -/
theorem keeping_moveDeliverables (hroots : RootsHeld c v)
    (hgathered : GatheredDeliverables c old ids v.db) (heffect : Effect v.changes [] [] new)
    (h : ∀ t, Later discipline v t → Effect t.changes ids ids new → RecordsHeld ids t → R () t) :
    Keeping Database.apply discipline (moveDeliverables ids new) R v := by
  unfold moveDeliverables
  split_ifs with hempty
  · have hnil : ids = [] := List.isEmpty_iff.mp hempty
    subst hnil
    apply keeping_pure
    apply h v (.refl hroots.inv) heffect
    intro a _ hin
    cases hin
  · apply keeping_bind
    apply keeping_bind
    apply keeping_lockRows
    intro t u ht _ hu huchanges _
    apply keeping_change
    intro w hw hwchanges
    have hlater := (ht.trans hu).trans hw
    have hweffect : Effect w.changes ids [] new := by
      rw [hwchanges, huchanges]
      exact heffect.moveDeliverables
    apply keeping_bind
    apply keeping_lockRows
    intro x y hx hxchanges hy hychanges hlocked
    have hxroots := hroots.later (hlater.trans hx)
    have hxgathered := hgathered.later hroots (hlater.trans hx)
    have hrecords : RecordsHeld ids y := by
      apply recordsHeld_of_locked hxroots.inv hxgathered.exists hy
      intro a ha hin
      apply hlocked
      rw [artifactKeys, Effect.seen_artifacts (hxchanges ▸ hweffect)]
      apply mem_map_of_mem (f := fun row : ArtifactRecordRow => Key.artifact row.artifactId)
      exact mem_filter.mpr ⟨ha, contains_iff_mem.mpr hin⟩
    have hyroots := hxroots.later hy
    have hygathered := hxgathered.later hxroots hy
    apply keeping_change
    intro z hz hzchanges
    apply h z (((hlater.trans hx).trans hy).trans hz)
    · rw [hzchanges, hychanges]
      exact hweffect.moveArtifacts
    · exact hrecords.later hyroots.inv hygathered.exists hz

section

variable {a : ArtifactRecordRow} (hdb : WellPlaced db)
  (hgathered : GatheredDeliverables c old ids db)

include hdb hgathered

theorem moved_of_following (ha : a ∈ db.artifacts) {scope : Option String}
    (hfollowing : FollowingArtifact db c scope a) : a.moved ids new = a := by
  apply ArtifactRecordRow.moved_of_not_mem
  intro hin
  obtain ⟨r, hr, hid⟩ := hgathered.exists _ hin
  exact hdb.following_not_record ha hfollowing hr hid.symm

theorem followingArtifacts_moved
    (hartifacts : db'.artifacts = db.artifacts.map (ArtifactRecordRow.moved ids new)) :
    followingArtifacts db' c old = followingArtifacts db c old := by
  have hsame : ∀ a : ArtifactRecordRow, SameArtifact a (a.moved ids new) := fun a =>
    sameArtifact_of_fixed ArtifactRecordRow.fixed_moved
  have hrootFollows : ∀ a ∈ artifactRoots db c, FollowingArtifact db c a.projectId a := fun a ha =>
    ⟨a, ha, rfl, hdb.ownArtifactRoot ha⟩
  have hroots : artifactRoots db' c = artifactRoots db c := by
    unfold artifactRoots
    rw [hartifacts]
    apply filter_map_kept
    · intro a _
      rw [(hsame a).conversation, (hsame a).purpose, (hsame a).revision]
    · intro a ha hroot
      exact moved_of_following hdb hgathered ha (hrootFollows a (mem_filter.mpr ⟨ha, hroot⟩))
  have hkept : ∀ a ∈ db.artifacts, inLineages (((artifactRoots db c).filter
      (·.projectId == old)).map (·.artifactId)) a.lineageId → a.moved ids new = a := by
    intro a ha hin
    obtain ⟨l, hl, hmem⟩ := inLineages_iff.mp hin
    obtain ⟨root, hroot, rfl⟩ := mem_map.mp hmem
    obtain ⟨hroot, hproject⟩ := mem_filter.mp hroot
    exact moved_of_following hdb hgathered ha ⟨root, hroot, beq_iff_eq.mp hproject, hl⟩
  unfold followingArtifacts
  rw [hroots, hartifacts]
  dsimp only
  rw [filter_map_kept]
  · intro a ha
    by_cases hin : inLineages (((artifactRoots db c).filter
        (·.projectId == old)).map (·.artifactId)) a.lineageId
    · rw [hkept a ha hin]
    · rw [Bool.not_eq_true] at hin
      rw [(hsame a).lineage, hin]
      rfl
  · intro a ha hfound
    exact hkept a ha (Bool.and_eq_true _ _ ▸ hfound).1

end

/-- The artifacts that follow are moved behind them. -/
theorem keeping_moveArtifacts (hroots : RootsHeld c v)
    (hgathered : GatheredDeliverables c old ids v.db) (heffect : Effect v.changes ids ids new)
    (hrecords : RecordsHeld ids v)
    (h : ∀ t artifactIds, Later discipline v t → Effect t.changes ids (ids ++ artifactIds) new →
      Gathered c old ids artifactIds t → R () t) :
    Keeping Database.apply discipline (moveArtifacts c old new) R v := by
  apply keeping_bind
  apply keeping_view
  intro t ht htchanges
  have htroots := hroots.later ht
  have htgathered := hgathered.later hroots ht
  rw [followingArtifacts_moved htroots.inv htgathered (heffect.artifacts t.db)]
  have hfound : GatheredArtifacts c old (followingArtifacts t.db c old) t.db :=
    htroots.inv.mem_followingArtifacts
  generalize followingArtifacts t.db c old = found at hfound
  apply keeping_bind
  apply keeping_lockAll ht.inv
  intro u hu _ huchanges
  apply keeping_bind
  apply keeping_view
  intro w hw hwchanges
  have hlater := (ht.trans hu).trans hw
  have hwroots := hroots.later hlater
  have hwgathered := hgathered.later hroots hlater
  have hwfound := hfound.later htroots (hu.trans hw)
  have huchanges' : u.changes = v.changes := huchanges.trans htchanges
  have hall : found.filter (fun id => (applyAll Database.apply w.db u.changes).artifacts.any
      fun r => r.artifactId == id && r.projectId == old) = found := by
    apply filter_eq_self.mpr
    intro id hid
    obtain ⟨a, ha, haid, hfollowing⟩ := (hwfound id).mp hid
    rw [huchanges', heffect.artifacts, any_eq_true]
    refine ⟨a, ?_, ?_⟩
    · have hkept : a.moved ids new = a :=
        moved_of_following hwroots.inv hwgathered ha hfollowing
      rw [← hkept]
      exact mem_map_of_mem ha
    · have hscope : a.projectId = old :=
        (hwroots.inv.followingArtifact_iff.mp hfollowing).scope hwroots.inv.artifacts
          (mem_map_of_mem ha)
      rw [haid, hscope]
      simp
  rw [hall]
  apply keeping_change
  intro x hx hxchanges
  apply h x found (hlater.trans hx)
  · rw [hxchanges, hwchanges, huchanges']
    exact heffect.moveArtifacts
  · have hwall : Gathered c old ids found w :=
      ⟨hwroots, hwgathered, hrecords.later hroots.inv hgathered.exists hlater, hwfound⟩
    exact hwall.later hx

/-- The changes leave all documents as they are. -/
def Leaves (changes : List Change) : Prop :=
  ∀ db, (applyAll Database.apply db changes).deliverables = db.deliverables ∧
    (applyAll Database.apply db changes).artifacts = db.artifacts

theorem WellPlaced.congr (h : WellPlaced db) (hdeliverables : db'.deliverables = db.deliverables)
    (hartifacts : db'.artifacts = db.artifacts) : WellPlaced db' := by
  obtain ⟨h₁, h₂, h₃, h₄, h₅, h₆, h₇, h₈⟩ := h
  rw [Database.deliverableEntries, ← hdeliverables] at h₁
  rw [Database.artifactEntries, ← hartifacts] at h₂
  rw [← hdeliverables] at h₃ h₅
  rw [← hartifacts] at h₆
  rw [← hdeliverables, ← hartifacts] at h₄ h₇ h₈
  exact ⟨h₁, h₂, h₃, h₄, h₅, h₆, h₇, h₈⟩

theorem protects_of_same (hdeliverables : db'.deliverables = db.deliverables)
    (hartifacts : db'.artifacts = db.artifacts) (key : Key) : Protects key db db' := by
  cases key with
  | conversation c =>
    intro _
    rw [deliverableRoots_congr hdeliverables, artifactRoots_congr hartifacts]
    exact ⟨fun r hr => ⟨r, hr, rfl⟩, fun a ha => ⟨a, ha, rfl⟩⟩
  | stepRun s =>
    intro r hr hstep hdraft
    rw [hdeliverables] at hr
    exact ⟨r, hr, rfl, hstep, hdraft⟩
  | deliverable l =>
    have hentries : db'.deliverableEntries = db.deliverableEntries :=
      congrArg (List.map DeliverableRow.entry) hdeliverables
    change KeepsLineage l db.deliverableEntries db'.deliverableEntries
    rw [hentries]
    exact KeepsLineage.refl
  | artifact l =>
    have hentries : db'.artifactEntries = db.artifactEntries :=
      congrArg (List.map ArtifactRecordRow.entry) hartifacts
    change KeepsLineage l db.artifactEntries db'.artifactEntries
    rw [hentries]
    exact KeepsLineage.refl

theorem Leaves.ready {outcome : Outcome} (h : Leaves t.changes)
    (hsettles : ∀ db, Settles outcome db t.changes) :
    Ready Database.apply Database.admitsAll discipline Settles outcome t := by
  intro db hdb _
  obtain ⟨hdeliverables, hartifacts⟩ := h db
  have hinv : WellPlaced db := hdb.inv
  refine ⟨hinv.congr hdeliverables hartifacts, ?_, ?_, hsettles db⟩
  · constructor
    · intro r hr
      exact ⟨r, hdeliverables.symm ▸ hr, rfl⟩
    · intro a ha
      exact ⟨a, hartifacts.symm ▸ ha, rfl⟩
  · intro key _
    exact protects_of_same hdeliverables hartifacts key

theorem Effect.leaves {changes : List Change} (h : Effect changes [] [] new) : Leaves changes :=
  fun db => ⟨(h.deliverables db).trans (map_id _), (h.artifacts db).trans (map_id _)⟩

/-- A conversation takes its documents along. -/
theorem keeping_moveConversationDocuments (hne : c ≠ "")
    (hheld : v.held (.conversation c)) (heffect : Effect v.changes [] [] new)
    (h : ∀ t, Ready Database.apply Database.admitsAll discipline Settles (.moved c old new) t →
      R () t) :
    Keeping Database.apply discipline (moveConversationDocuments c old new) R v := by
  unfold moveConversationDocuments
  split_ifs with hsame
  · apply keeping_pure
    apply h v
    apply heffect.leaves.ready
    intro db
    constructor
    · intro _
      exact heffect.leaves db
    · intro hdiffer
      exact absurd hsame hdiffer
  · apply keeping_bind
    apply keeping_lockFollowing hne hheld heffect
    intro t _ htchanges htroots
    have hteffect : Effect t.changes [] [] new := htchanges ▸ heffect
    apply keeping_bind
    apply keeping_view
    intro u hu huchanges
    have hueffect : Effect u.changes [] [] new := huchanges ▸ hteffect
    have huroots := htroots.later hu
    have hseen : (applyAll Database.apply u.db t.changes).deliverables = u.db.deliverables :=
      (hteffect.leaves u.db).1
    rw [followingDeliverables_congr hseen]
    have hgathered : GatheredDeliverables c old (followingDeliverables u.db c old) u.db :=
      hu.inv.mem_followingDeliverables
    generalize followingDeliverables u.db c old = ids at hgathered
    apply keeping_bind
    apply keeping_moveDeliverables huroots hgathered hueffect
    intro w hw hweffect hwrecords
    apply keeping_moveArtifacts (huroots.later hw) (hgathered.later huroots hw) hweffect hwrecords
    intro x artifactIds _ hxeffect hxgathered
    exact h x (hxgathered.ready hsame hxeffect)

theorem keeping_changeConversation {k : Lookups}
    {next : Database → Conversation → Option (Option String × Visibility)}
    (hinv : WellPlaced v.db) (hchanges : v.changes = []) :
    Keeping Database.apply discipline (changeConversation k c next)
      (Ready Database.apply Database.admitsAll discipline Settles) v := by
  apply keeping_bind
  apply keeping_lockDocumentScope hinv
  intro t _ htchanges hlocked
  apply keeping_bind
  apply keeping_view
  intro u hu huchanges
  generalize applyAll Database.apply u.db t.changes = db
  cases hrow : db.getConversation (some c) with
  | none => exact keeping_throw
  | some row =>
    have hne : c ≠ "" := by
      rintro rfl
      cases hrow
    dsimp only
    cases next db row with
    | none => exact keeping_throw
    | some values =>
      obtain ⟨projectId, visibility⟩ := values
      apply keeping_bind
      apply keeping_change
      intro w hw hwchanges
      have hwlist : w.changes = [.setConversation c projectId visibility] := by
        rw [hwchanges, huchanges, htchanges, hchanges]
        rfl
      apply keeping_bind
      apply keeping_view
      intro x hx hxchanges
      have hheld := hx.held _ (hw.held _ (hu.held _ (hlocked c rfl hne)))
      apply keeping_bind
      apply keeping_moveConversationDocuments hne hheld
      · rw [hxchanges, hwlist]
        exact effect_setConversation
      · intro y hready
        exact keeping_pure hready

theorem leaves_others {tables : Database} : Leaves [.others tables] := fun _ => ⟨rfl, rfl⟩

theorem keeping_changeOthers {update : Database → Database} (hchanges : v.changes = []) :
    Keeping Database.apply discipline (changeOthers update)
      (Ready Database.apply Database.admitsAll discipline Settles) v := by
  apply keeping_bind
  apply keeping_view
  intro t _ htchanges
  apply keeping_bind
  apply keeping_change
  intro u _ huchanges
  apply keeping_pure
  apply Leaves.ready
  · rw [huchanges, htchanges, hchanges]
    exact leaves_others
  · intro _
    trivial

/-- Every request keeps every lineage in one project. -/
theorem keeping_transaction {k : Lookups} (request : Request) (hinv : WellPlaced v.db)
    (hchanges : v.changes = []) :
    Keeping Database.apply discipline (request.transaction k)
      (Ready Database.apply Database.admitsAll discipline Settles) v := by
  cases request with
  | deliverable w => exact keeping_writeStepDeliverable hinv hchanges fun _ _ => trivial
  | artifact w => exact keeping_writeArtifactDocument hchanges fun _ _ => trivial
  | changeProject => exact keeping_changeConversation hinv hchanges
  | changeVisibility c visibility =>
    change Keeping Database.apply discipline
      (changeConversation k c fun _ row => some (row.projectId, visibility)) _ v
    exact keeping_changeConversation hinv hchanges
  | others => exact keeping_changeOthers hchanges

end Cognis.Documents
