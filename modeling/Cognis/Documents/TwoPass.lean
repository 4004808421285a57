import Cognis.Documents.Isolation

namespace Cognis.Documents

open List

variable (k : Lookups) (db : Database) (who : Identity)
  (expiresAt : ArtifactRecordRow → Option Nat) (now : Nat) (artifactIds : List String)

def unexpired (row : ArtifactRecordRow) : Bool := (expiresAt row).all (now < ·)

/-- What one pass finds among the ids that are left. -/
def found (remaining : List String) (includeWorkProvenance : Bool) : List String :=
  (db.artifacts.filter fun row => remaining.contains row.artifactId &&
    contentReadPredicate k db who .artifact .read includeWorkProvenance row.document &&
      unexpired expiresAt now row).map (·.artifactId)

def pass (includeWorkProvenance : Bool) (state : List String × List String) :
    List String × List String :=
  let (allowed, remaining) := state
  if remaining = [] then state
  else
    let ids := found k db who expiresAt now remaining includeWorkProvenance
    (allowed ∪ ids, remaining.filter fun id => !ids.contains id)

def readableArtifactIds : List String :=
  ([false, true].foldl (fun state work => pass k db who expiresAt now work state)
    ([], artifactIds.dedup)).1

/-- The nodes of the work that a document comes from. -/
def Document.ComesFrom (db : Database) (doc : Document) (node : Node) : Prop :=
  (∃ id, doc.sessionId = some id ∧ node = .session id) ∨
    (∃ id, doc.sessionId = none ∧ doc.conversationId = some id ∧ node = .conversation id) ∨
    ∃ run ∈ db.stepRuns, doc.stepRunId = some run.stepRunId ∧ node = .task run.taskId

variable {k db who expiresAt now artifactIds} {doc : Document} {id owner agent : String}

theorem provenance_iff : provenance db who owner agent doc ↔ ∃ node, doc.ComesFrom db node ∧
    ∃ seed ∈ workSeeds db owner agent who.sessionId,
      Relation.ReflTransGen (fun a b => (a, b) ∈ workEdges db owner) seed node := by
  simp only [← mem_workNodes]
  unfold provenance Document.ComesFrom
  simp only [Bool.or_eq_true, Bool.and_eq_true, Option.any_eq_true, Option.isNone_iff_eq_none,
    contains_iff_mem, any_eq_true, beq_iff_eq]
  constructor
  · rintro ((⟨id, hid, hmem⟩ | ⟨hnone, id, hid, hmem⟩) | ⟨id, hid, run, hrun, rfl, hmem⟩)
    · exact ⟨_, .inl ⟨id, hid, rfl⟩, hmem⟩
    · exact ⟨_, .inr (.inl ⟨id, hnone, hid, rfl⟩), hmem⟩
    · exact ⟨_, .inr (.inr ⟨run, hrun, hid, rfl⟩), hmem⟩
  · rintro ⟨node, ⟨id, hid, rfl⟩ | ⟨id, hnone, hid, rfl⟩ | ⟨run, hrun, hid, rfl⟩, hmem⟩
    · exact .inl (.inl ⟨id, hid, hmem⟩)
    · exact .inl (.inr ⟨hnone, id, hid, hmem⟩)
    · exact .inr ⟨_, hid, run, hrun, rfl, hmem⟩

theorem ownedContentPredicate_mono (h : ownedContentPredicate k db who false doc) :
    ownedContentPredicate k db who true doc := by
  unfold ownedContentPredicate at h ⊢
  cases howner : given who.ownerEmail with
  | none => simp [howner] at h
  | some owner =>
    rw [howner] at h
    dsimp only at h ⊢
    cases htaken : takenAgent db who owner with
    | none => simp [htaken] at h
    | some agent =>
      rw [htaken] at h
      dsimp only at h ⊢
      split_ifs at h ⊢ with hsystem
      · cases hsession : systemSession db who owner agent with
        | none => simp [hsession] at h
        | some =>
          simp only [hsession, Bool.and_eq_true, Bool.or_eq_true, Bool.false_and,
            Bool.false_eq_true, false_or] at h ⊢
          exact ⟨h.1, h.2.imp_left .inr⟩
      · simp only [Bool.and_eq_true, Bool.or_eq_true, Bool.false_and, Bool.false_eq_true,
          false_or] at h ⊢
        exact ⟨h.1, h.2.imp_left (.imp_left .inr)⟩

theorem ownProjects_mono {model : Model}
    (h : ownProjects k db who model .read false agent doc) :
    ownProjects k db who model .read true agent doc := by
  unfold ownProjects at h ⊢
  cases howner : given who.ownerEmail with
  | none => simp [howner] at h
  | some =>
    rw [howner] at h
    simp only [Bool.and_eq_true, Option.any_eq_true, contains_iff_mem, mem_readableOwnProjects,
      directlyOwned_iff] at h ⊢
    obtain ⟨⟨haccess, howned, hsame⟩, p, hp, ⟨other, hother, ⟨hother', hsame'⟩, hproject⟩, hopen⟩ :=
      h
    exact ⟨⟨haccess, ownedContentPredicate_mono howned, hsame⟩, p, hp,
      ⟨other, hother, ⟨ownedContentPredicate_mono hother', hsame'⟩, hproject⟩, hopen⟩

/-- What the pass without work provenance allows, the whole predicate allows. -/
theorem contentReadPredicate_mono {model : Model}
    (h : contentReadPredicate k db who model .read false doc) :
    contentReadPredicate k db who model .read true doc := by
  unfold contentReadPredicate at h ⊢
  cases hagent : given who.agentId with
  | none =>
    simp only [hagent, Bool.or_eq_true] at h ⊢
    exact h.imp_left ownedContentPredicate_mono
  | some =>
    simp only [hagent, Bool.or_eq_true, Bool.and_eq_true] at h ⊢
    exact h.imp_left (.imp (.imp_left ownedContentPredicate_mono) ownProjects_mono)

theorem mem_found {remaining : List String} {work : Bool} :
    id ∈ found k db who expiresAt now remaining work ↔ id ∈ remaining ∧
      ∃ row ∈ db.artifacts, row.artifactId = id ∧ unexpired expiresAt now row ∧
        contentReadPredicate k db who .artifact .read work row.document := by
  unfold found
  simp only [mem_map, mem_filter, Bool.and_eq_true, contains_iff_mem]
  constructor
  · rintro ⟨row, ⟨hrow, ⟨hmem, hread⟩, hexpires⟩, rfl⟩
    exact ⟨hmem, row, hrow, rfl, hexpires, hread⟩
  · rintro ⟨hmem, row, hrow, rfl, hexpires, hread⟩
    exact ⟨row, ⟨hrow, ⟨hmem, hread⟩, hexpires⟩, rfl⟩

theorem mem_pass {state : List String × List String} {work : Bool} :
    (id ∈ (pass k db who expiresAt now work state).1 ↔
      id ∈ state.1 ∨ id ∈ found k db who expiresAt now state.2 work) ∧
    (id ∈ (pass k db who expiresAt now work state).2 ↔
      id ∈ state.2 ∧ id ∉ found k db who expiresAt now state.2 work) := by
  obtain ⟨allowed, remaining⟩ := state
  unfold pass
  dsimp only
  split_ifs with hnil
  · simp [hnil, mem_found]
  · simp [mem_union_iff]

/-- The two passes find the ids that the whole predicate finds, whose work is what the edges reach
from the seeds. -/
theorem readableArtifactIds_iff : (id ∈ readableArtifactIds k db who expiresAt now artifactIds ↔
      id ∈ artifactIds ∧ ∃ row ∈ db.artifacts, row.artifactId = id ∧ unexpired expiresAt now row ∧
        contentReadPredicate k db who .artifact .read true row.document) ∧
    (provenance db who owner agent doc ↔ ∃ node, doc.ComesFrom db node ∧
      ∃ seed ∈ workSeeds db owner agent who.sessionId,
        Relation.ReflTransGen (fun a b => (a, b) ∈ workEdges db owner) seed node) := by
  refine ⟨?_, provenance_iff⟩
  unfold readableArtifactIds
  simp only [foldl_cons, foldl_nil, mem_pass.1, mem_pass.2, mem_found, mem_dedup, not_mem_nil,
    false_or]
  constructor
  · rintro (⟨hid, row, hrow, hname, hexpires, hread⟩ | ⟨⟨hid, -⟩, hslow⟩)
    · exact ⟨hid, row, hrow, hname, hexpires, contentReadPredicate_mono hread⟩
    · exact ⟨hid, hslow⟩
  · rintro ⟨hid, hslow⟩
    by_cases hfast : ∃ row ∈ db.artifacts, row.artifactId = id ∧ unexpired expiresAt now row ∧
        contentReadPredicate k db who .artifact .read false row.document
    · exact .inl ⟨hid, hfast⟩
    · exact .inr ⟨⟨hid, fun h => hfast h.2⟩, hslow⟩

end Cognis.Documents
