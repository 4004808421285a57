import Cognis.Library.Transactions
import Cognis.Documents.Database

namespace Cognis.Documents

open Transactions
open Deliverables (CreateError NewDeliverable NewDeliverableLineage orElse)

/-- The rows that are locked; a fence locks the task of a step run. -/
inductive Key where
  | conversation (conversationId : String)
  | stepRun (stepRunId : String)
  | deliverable (deliverableId : String)
  | artifact (artifactId : String)
  deriving DecidableEq

inductive Change where
  /-- Any change to the rows that are not documents. -/
  | others (tables : Database)
  | setConversation (conversationId : String) (projectId : Option String)
      (visibility : Visibility)
  | supersede (ids : List String)
  | insertDeliverable (row : DeliverableRow)
  | insertArtifact (row : ArtifactRecordRow)
  | moveDeliverables (ids : List String) (projectId : Option String)
  | moveArtifacts (ids : List String) (projectId : Option String)

variable (ids : List String) (rows : List ArtifactRecordRow) (k : Lookups) (a : NewDeliverable)
  (db : Database) (conversationId : String) (row : ArtifactRecordRow) (w : ArtifactWrite)
  (projectId : Option String)

def Conversation.set (visibility : Visibility) (c : Conversation) : Conversation :=
  if c.conversationId == conversationId then { c with projectId, visibility } else c

def DeliverableRow.superseded (ids : List String) (row : DeliverableRow) : DeliverableRow :=
  if ids.contains row.deliverableId && row.status.isDraft then { row with status := .superseded }
  else row

def DeliverableRow.moved (row : DeliverableRow) : DeliverableRow :=
  if ids.contains row.deliverableId then { row with projectId } else row

def ArtifactRecordRow.moved (row : ArtifactRecordRow) : ArtifactRecordRow :=
  if ids.contains row.artifactId then { row with projectId } else row

def Database.apply : Change → Database
  | .others tables => { tables with deliverables := db.deliverables, artifacts := db.artifacts }
  | .setConversation conversationId projectId visibility =>
    { db with
      conversations := db.conversations.map (Conversation.set conversationId projectId visibility) }
  | .supersede ids =>
    { db with deliverables := db.deliverables.map (DeliverableRow.superseded ids) }
  | .insertDeliverable row => { db with deliverables := db.deliverables ++ [row] }
  | .insertArtifact row => { db with artifacts := db.artifacts ++ [row] }
  | .moveDeliverables ids projectId =>
    { db with deliverables := db.deliverables.map (DeliverableRow.moved ids projectId) }
  | .moveArtifacts ids projectId =>
    { db with artifacts := db.artifacts.map (ArtifactRecordRow.moved ids projectId) }

def Database.deliverableRows : List Deliverables.DeliverableRow :=
  db.deliverables.map (·.toDeliverableRow)

/-- `uq_artifacts_live_supersedes` refuses the row. -/
def artifactSupersedesConflict : Bool :=
  row.supersedesArtifactId.isSome && !row.deleted &&
    rows.any fun r => !r.deleted && r.supersedesArtifactId == row.supersedesArtifactId

def Database.admits : Change → Bool
  | .insertDeliverable row =>
    !db.deliverables.any (·.deliverableId == row.deliverableId) &&
      !Deliverables.liveSupersedesConflict db.deliverableRows row.toDeliverableRow
  | .insertArtifact row =>
    !db.artifacts.any (·.artifactId == row.artifactId) &&
      !artifactSupersedesConflict db.artifacts row
  | _ => true

def Database.admitsAll (db : Database) : List Change → Bool
  | [] => true
  | c :: changes => db.admits c && (db.apply c).admitsAll changes

/-- What a transaction has done. -/
inductive Outcome where
  | wrote
  | moved (conversationId : String) (oldScope newScope : Option String)
  deriving DecidableEq

abbrev Tx (α : Type) : Type := Transaction Database Key Change CreateError α

def ofExcept {α : Type} : Except CreateError α → Tx α
  | .ok a => pure a
  | .error e => throw e

/-- `SELECT … FOR UPDATE`: the rows that the statement finds are locked one by one. -/
def lockRows (query : Database → List Key) : Tx Unit := do
  let db ← view
  lockAll (query db)

def deliverableKeys (p : DeliverableRow → Bool) (db : Database) : List Key :=
  (db.deliverables.filter p).map fun row => .deliverable row.deliverableId

def artifactKeys (p : ArtifactRecordRow → Bool) (db : Database) : List Key :=
  (db.artifacts.filter p).map fun row => .artifact row.artifactId

def contentProjectError (message : String) : CreateError :=
  .revision "project_not_writable" message none none none

def resolveNewContentProjectId (userEmail : String)
    (agentId conversationId sessionId requestedProjectId inheritedProjectId : Option String)
    (inherit : Bool) : Except CreateError (Option String) :=
  if inherit then
    if (given requestedProjectId).isSome && requestedProjectId != inheritedProjectId then
      .error (contentProjectError "A revision keeps the project of the document it supersedes.")
    else .ok inheritedProjectId
  else
    match given requestedProjectId with
    | some projectId =>
      if (contentProjectIds k db (some userEmail) agentId conversationId sessionId
          .write).contains projectId then .ok (some projectId)
      else
        .error (contentProjectError
          "The project was not found or is not writable for this agent in this context.")
    | none =>
      let context := workProject k db userEmail agentId conversationId sessionId
      if (given context.projectId).isNone || !context.shared then .ok none
      else if !humanMayAccessProjectContent k db context.projectId userEmail .write then .ok none
      else .ok context.projectId

def conversationDocumentScope (row : Conversation) : Option String :=
  let context := workProject k db row.userEmail (some row.agentId) (some row.conversationId) none
  if context.shared then context.projectId else none

def lockDocumentScope (conversationId : Option String) : Tx Unit :=
  match given conversationId with
  | none => pure ()
  | some id => lock (.conversation id)

/-- What `_write_step_deliverable` is called with; `mayRevise` is what `authorize_supersedes_target`
decides, `uuidHex` what `uuid4` gives. -/
structure DeliverableWrite where
  userEmail : String
  agentId : String
  conversationId : String
  sessionId : String
  stepRunId : Option String
  turnId : Option String
  title : Option String
  supersedes : Option String
  requestedProjectId : Option String
  uuidHex : String
  mayRevise : Database → DeliverableRow → Bool

def supersedesNotFound : CreateError :=
  .revision "supersedes_not_found"
    "The deliverable to supersede was not found or is not accessible." none none none

/-- `authorize_supersedes_target` with `lock`. -/
def authorizeSupersedesTarget (mayRevise : Database → DeliverableRow → Bool)
    (deliverableId : String) : Tx DeliverableRow := do
  lockRows (deliverableKeys (·.deliverableId == deliverableId))
  let db ← view
  match (db.deliverables.find? (·.deliverableId == deliverableId)).filter (mayRevise db) with
  | none => throw supersedesNotFound
  | some row => pure row

def writtenRoots : List String :=
  (db.deliverables.filter fun r => a.supersedesDeliverableId == some r.deliverableId ||
    (a.inScope r.toDeliverableRow && a.stepRunId.isSome && r.status.isDraft)).map fun r =>
      Deliverables.deliverableLineageKey r.toDeliverableRow

/-- `lock_document_lineages`, then the drafts; the ids of the drafts. -/
def lockDrafts : Tx (List String) := do
  let db ← view
  lockRows (deliverableKeys fun r => (writtenRoots a db).contains r.deliverableId)
  let db' ← view
  let drafts := (a.drafts ⟨db'.deliverableRows, []⟩).map (·.deliverableId)
  lockAll (drafts.map .deliverable)
  pure drafts

def lockedDrafts (locked : List String) (db : Database) : List Deliverables.DeliverableRow :=
  (a.drafts ⟨db.deliverableRows, []⟩).filter fun draft => locked.contains draft.deliverableId

def replacedDrafts (drafts : List Deliverables.DeliverableRow) : List Deliverables.DeliverableRow :=
  drafts.filter fun draft => !Deliverables.hasLiveSuccessor db.deliverableRows drafts draft

def protectedDraft (drafts : List Deliverables.DeliverableRow) : Option CreateError :=
  match drafts.find? (Deliverables.hasLiveSuccessor db.deliverableRows drafts),
      a.supersedesDeliverableId with
  | some draft, none =>
    let head := Deliverables.getDeliverableLineageHead db.deliverableRows
      (Deliverables.deliverableLineageKey draft)
    some (.revision "supersedes_not_latest"
      ("This output already has a newer revision. Pass supersedes with the " ++
        "latest revision to revise it.")
      (head.map (·.deliverableId)) (head.map (·.revision)) none)
  | _, _ => none

/-- `_resolve_new_deliverable_lineage`; an explicit target is locked again. -/
def resolveLineage (locked : List String) : Tx (NewDeliverableLineage × List String) := do
  let db ← view
  let drafts := lockedDrafts a locked db
  match protectedDraft a db drafts with
  | some e => throw e
  | none =>
    let replaced := replacedDrafts db drafts
    lockRows (deliverableKeys fun r =>
      Deliverables.revisionTarget a.supersedesDeliverableId replaced == some r.deliverableId)
    let db' ← view
    let lineage ← ofExcept (Deliverables.resolveNewDeliverableLineage db'.deliverableRows a.rowId
      a.supersedesDeliverableId replaced)
    pure (lineage, replaced.map (·.deliverableId))

def contentOwner (a : NewDeliverable) (published : Option String) : Option String × Option String :=
  match a.stepRunId with
  | some stepRunId =>
    match (db.stepRuns.find? (·.stepRunId == stepRunId)).bind fun run =>
        db.tasks.find? (·.taskId == run.taskId) with
    | some task => (some task.createdBy, some task.agentId)
    | none => (published, none)
  | none =>
    match db.getConversation a.conversationId with
    | none => (published, none)
    | some creator =>
      match (db.getSession a.sessionId).filter (·.userEmail == creator.userEmail) with
      | some s => (some creator.userEmail, some s.agentId)
      | none => (some creator.userEmail, some creator.agentId)

/-- `create_artifact_record`: a record without a lineage is its own, and one without an agent has
that of its session or conversation. -/
def createArtifactRecord : ArtifactRecordRow :=
  let ofSession := (db.getSession row.sessionId).filter fun s => row.ownerEmail == some s.userEmail
  let ofConversation := (db.getConversation row.conversationId).filter fun c =>
    row.ownerEmail == some c.userEmail
  { row with
    lineageId := some (orElse row.lineageId row.artifactId)
    ownerAgentId := (row.ownerAgentId.or (ofSession.map (·.agentId))).or
      (ofConversation.map (·.agentId)) }

/-- The row that `create_deliverable` adds. -/
def newDeliverableRow (a : NewDeliverable) (published : Option String)
    (lineage : NewDeliverableLineage) : DeliverableRow :=
  let owner := contentOwner db a published
  { a.row ⟨db.deliverableRows, []⟩ lineage with
    ownerEmail := owner.1
    ownerAgentId := owner.2 }

def deliverableRecord (published : String) (row : DeliverableRow) : ArtifactRecordRow :=
  createArtifactRecord db
    { artifactId := row.deliverableId
      ownerEmail := some published
      ownerAgentId := row.ownerAgentId
      conversationId := row.conversationId
      sessionId := row.sessionId
      purpose := "conversation_deliverable"
      projectId := row.projectId }

def insertDeliverable (a : NewDeliverable) (published : Option String)
    (lineage : NewDeliverableLineage) (replaced : List String) : Tx Unit := do
  let db ← view
  let row := newDeliverableRow db a published lineage
  change (.supersede replaced)
  change (.insertDeliverable row)
  match published with
  | none => pure ()
  | some ownerEmail => change (.insertArtifact (deliverableRecord db ownerEmail row))

def createDeliverable (published : Option String) : Tx Unit :=
  if (orElse a.stepRunId "").isEmpty == (orElse a.conversationId "").isEmpty then
    throw (.value "deliverable must have exactly one owner scope")
  else do
    let locked ← lockDrafts a
    let lineage ← resolveLineage a locked
    insertDeliverable a published lineage.1 lineage.2

/-- `execution_fence.assert_current`: a step run writes under its task's fence. -/
def assertCurrent (stepRunId : Option String) : Tx Unit :=
  match stepRunId with
  | none => pure ()
  | some id => lock (.stepRun id)

def revisionTarget (w : DeliverableWrite) : Tx (Option DeliverableRow) :=
  match w.supersedes with
  | none => pure none
  | some id => do
    let row ← authorizeSupersedesTarget w.mayRevise id
    pure (some row)

/-- The arguments of `create_deliverable`; the chat owns what no step run does. -/
def DeliverableWrite.new (w : DeliverableWrite) (projectId : Option String) : NewDeliverable where
  stepRunId := w.stepRunId
  conversationId := if w.stepRunId.isNone then some w.conversationId else none
  sessionId := if w.stepRunId.isNone then some w.sessionId else none
  turnId := if w.stepRunId.isNone then w.turnId else none
  deliverableId := none
  uuidHex := w.uuidHex
  title := w.title
  supersedesDeliverableId := w.supersedes
  projectId := projectId

def writeStepDeliverable (w : DeliverableWrite) : Tx Outcome := do
  assertCurrent w.stepRunId
  lockDocumentScope (some w.conversationId)
  let target ← revisionTarget w
  let db ← view
  let projectId ← ofExcept (resolveNewContentProjectId k db w.userEmail (some w.agentId)
    (some w.conversationId) (some w.sessionId) w.requestedProjectId
    (target.bind (·.projectId)) target.isSome)
  createDeliverable (w.new projectId) (if w.stepRunId.isNone then some w.userEmail else none)
  pure .wrote

structure ContentActor where
  userEmail : String
  agentId : Option String
  conversationId : Option String
  sessionId : Option String
  human : Bool := false

/-- What `write_artifact_document` is called with; `mayRevise` is what
`authorize_artifact_revision_target` decides, `uuidHex` is of the id generated. -/
structure ArtifactWrite where
  actor : ContentActor
  purpose : String
  supersedes : Option String
  requestedProjectId : Option String
  uuidHex : String
  mayRevise : Database → ArtifactRecordRow → Bool

structure NewArtifactLineage where
  lineageId : String
  revision : Nat
  supersedesArtifactId : String
  projectId : Option String

def ArtifactRecordRow.lineageKey : String :=
  orElse row.lineageId row.artifactId

/-- `row.revision or 1`. -/
def ArtifactRecordRow.revisionOrOne : Nat :=
  if row.revision = 0 then 1 else row.revision

def getArtifactLineageHead (lineageId : String) : Option ArtifactRecordRow :=
  (rows.filter fun r => r.lineageId == some lineageId && !r.deleted).reverse.argmax (·.revision)

def artifactRevisionError (code message : String) (head : Option ArtifactRecordRow) : CreateError :=
  .revision code message (head.map (·.artifactId)) (head.map (·.revision)) none

/-- What `lock_artifact_revision_target` decides on the locked target. -/
def reviseArtifact (artifactId : String) : Except CreateError NewArtifactLineage :=
  match rows.find? (·.artifactId == artifactId) with
  | none =>
    .error (artifactRevisionError "supersedes_not_found"
      "The artifact to supersede was not found or is not accessible." none)
  | some target =>
    let head := getArtifactLineageHead rows target.lineageKey
    if target.deleted then
      .error (artifactRevisionError "supersedes_not_active"
        "The artifact to supersede was deleted. Supersede the latest revision instead." head)
    else if (rows.any fun r => r.supersedesArtifactId == some target.artifactId && !r.deleted) ||
        head.any (·.artifactId != target.artifactId) then
      .error (artifactRevisionError "supersedes_not_latest"
        ("The artifact to supersede already has a newer revision. " ++
          "Supersede the latest revision instead.") head)
    else
      .ok { lineageId := target.lineageKey
            revision := target.revisionOrOne + 1
            supersedesArtifactId := target.artifactId
            projectId := target.projectId }

def lockArtifactRevisionTarget (artifactId : String) : Tx NewArtifactLineage := do
  let db ← view
  let root := (db.artifacts.find? (·.artifactId == artifactId)).map (·.lineageKey)
  lockRows (artifactKeys fun r => root == some r.artifactId)
  lockRows (artifactKeys (·.artifactId == artifactId))
  let db' ← view
  ofExcept (reviseArtifact db'.artifacts artifactId)

def artifactNotFound : CreateError :=
  artifactRevisionError "supersedes_not_found"
    "The artifact to supersede was not found or is not accessible." none

def authorizeArtifactRevisionTarget (mayRevise : Database → ArtifactRecordRow → Bool)
    (artifactId : String) : Tx ArtifactRecordRow := do
  let db ← view
  match (db.artifacts.find? (·.artifactId == artifactId)).filter fun row =>
      row.purpose != "conversation_deliverable" && mayRevise db row with
  | none => throw artifactNotFound
  | some row => pure row

def writeProject (actor : ContentActor)
    (projectId : Option String) (target : Option ArtifactRecordRow) :
    Except CreateError (Option String) :=
  if !actor.human then
    resolveNewContentProjectId k db actor.userEmail actor.agentId actor.conversationId
      actor.sessionId projectId (target.bind (·.projectId)) target.isSome
  else
    let resolved := target.elim projectId (·.projectId)
    if target.isSome && (given projectId).isSome && projectId != resolved then
      .error (contentProjectError "A revision keeps its document's project.")
    else if (given resolved).isSome &&
        !humanMayAccessProjectContent k db resolved actor.userEmail .write then
      .error (contentProjectError "Project is not writable.")
    else .ok resolved

def newArtifactRow
    (revised : Option (NewArtifactLineage × ArtifactRecordRow)) (projectId : Option String) :
    ArtifactRecordRow :=
  let origin := (revised.map (·.2)).filter fun _ => w.actor.human
  createArtifactRecord db
    { artifactId := "art_" ++ w.uuidHex
      ownerEmail := some w.actor.userEmail
      ownerAgentId := origin.elim w.actor.agentId (·.ownerAgentId)
      conversationId := origin.elim w.actor.conversationId (·.conversationId)
      sessionId := origin.elim w.actor.sessionId (·.sessionId)
      purpose := w.purpose
      lineageId := revised.map (·.1.lineageId)
      revision := (revised.map (·.1.revision)).getD 1
      supersedesArtifactId := revised.map (·.1.supersedesArtifactId)
      projectId := projectId }

def artifactTarget : Tx (Option (NewArtifactLineage × ArtifactRecordRow)) :=
  match w.supersedes with
  | none => pure none
  | some id => do
    let lineage ← lockArtifactRevisionTarget id
    let target ← authorizeArtifactRevisionTarget w.mayRevise id
    pure (some (lineage, target))

/-- The transaction of `write_artifact_document` that is rolled back before the content is stored;
its locks end with it. -/
def validateArtifactDocument : Tx Unit :=
  match w.supersedes with
  | none => do
    let db ← view
    let _ ← ofExcept (writeProject k db w.actor w.requestedProjectId none)
  | some id => do
    let target ← authorizeArtifactRevisionTarget w.mayRevise id
    let db ← view
    let _ ← ofExcept (reviseArtifact db.artifacts target.artifactId)
    let _ ← ofExcept (writeProject k db w.actor w.requestedProjectId (some target))

/-- The transaction of `write_artifact_document` that commits. -/
def commitArtifactDocument : Tx Outcome := do
  lockDocumentScope w.actor.conversationId
  let revised ← artifactTarget w
  let db ← view
  let projectId ← ofExcept (writeProject k db w.actor w.requestedProjectId (revised.map (·.2)))
  change (.insertArtifact (newArtifactRow db w revised projectId))
  pure .wrote

def writeArtifactDocument : Tx Outcome := do
  validateArtifactDocument k w
  commitArtifactDocument k w

def followingArtifactPurposes : List String := ["artifact_write", "artifact_publish"]

def deliverableRoots : List DeliverableRow :=
  db.deliverables.filter fun r =>
    r.conversationId == some conversationId && r.stepRunId.isNone && r.revision == 1

def artifactRoots : List ArtifactRecordRow :=
  db.artifacts.filter fun r => r.conversationId == some conversationId &&
    followingArtifactPurposes.contains r.purpose && r.revision == 1

/-- `lineage_id IN ids`. -/
def inLineages (lineageId : Option String) : Bool := lineageId.any ids.contains

variable {ids} in
theorem inLineages_iff {lineageId : Option String} :
    inLineages ids lineageId ↔ ∃ l, lineageId = some l ∧ l ∈ ids := by
  simp [inLineages, Option.any_eq_true]

def followingDeliverables (scope : Option String) : List String :=
  let roots := ((deliverableRoots db conversationId).filter (·.projectId == scope)).map
    (·.deliverableId)
  (db.deliverables.filter fun r => inLineages roots r.lineageId && r.projectId == scope).map
    (·.deliverableId)

def followingArtifacts (scope : Option String) : List String :=
  let roots := ((artifactRoots db conversationId).filter (·.projectId == scope)).map (·.artifactId)
  (db.artifacts.filter fun r => inLineages roots r.lineageId && r.projectId == scope).map
    (·.artifactId)

def lockFollowing : Tx Unit := do
  lockRows fun db => deliverableKeys (fun r =>
    inLineages ((deliverableRoots db conversationId).map (·.deliverableId)) r.lineageId) db
  lockRows fun db => artifactKeys (fun r =>
    inLineages ((artifactRoots db conversationId).map (·.artifactId)) r.lineageId) db

def updateDeliverables : Tx Unit := do
  lockRows (deliverableKeys fun r => ids.contains r.deliverableId)
  change (.moveDeliverables ids projectId)

def moveDeliverables : Tx Unit :=
  if ids.isEmpty then pure ()
  else do
    updateDeliverables ids projectId
    lockRows (artifactKeys fun r => ids.contains r.artifactId)
    change (.moveArtifacts ids projectId)

def moveArtifacts (conversationId : String) (oldScope newScope : Option String) : Tx Unit := do
  let db ← view
  let ids := followingArtifacts db conversationId oldScope
  lockAll (ids.map .artifact)
  let db' ← view
  change (.moveArtifacts (ids.filter fun id => db'.artifacts.any fun r =>
    r.artifactId == id && r.projectId == oldScope) newScope)

def moveConversationDocuments (oldScope newScope : Option String) : Tx Unit :=
  if oldScope = newScope then pure ()
  else do
    lockFollowing conversationId
    let db ← view
    moveDeliverables (followingDeliverables db conversationId oldScope) newScope
    moveArtifacts conversationId oldScope newScope

def conversationNotFound : CreateError := .value "Conversation not found"

/-- The chat is locked and changed, and its documents follow; `none` where the change is refused. -/
def changeConversation
    (next : Database → Conversation → Option (Option String × Visibility)) : Tx Outcome := do
  lockDocumentScope (some conversationId)
  let db ← view
  match db.getConversation (some conversationId) with
  | none => throw conversationNotFound
  | some row =>
    match next db row with
    | none => throw conversationNotFound
    | some (projectId, visibility) => do
      change (.setConversation conversationId projectId visibility)
      let db' ← view
      let oldScope := conversationDocumentScope k db row
      let newScope := (db'.getConversation (some conversationId)).bind
        (conversationDocumentScope k db')
      moveConversationDocuments conversationId oldScope newScope
      pure (.moved conversationId oldScope newScope)

/-- `change_conversation_project`; `assignable` is what its validation decides. -/
def changeConversationProject
    (assignable : Database → Conversation → Bool) (projectId : Option String)
    (visibility : Option Visibility) : Tx Outcome :=
  changeConversation k conversationId fun db row =>
    if assignable db row then
      some (projectId, visibility.getD
        (if row.projectId.isNone && projectId.isSome then .project else row.visibility))
    else none

def changeConversationVisibility (visibility : Visibility) : Tx Outcome :=
  changeConversation k conversationId fun _ row => some (row.projectId, visibility)

inductive Request where
  | deliverable (w : DeliverableWrite)
  | artifact (w : ArtifactWrite)
  | changeProject (conversationId : String) (assignable : Database → Conversation → Bool)
      (projectId : Option String) (visibility : Option Visibility)
  | changeVisibility (conversationId : String) (visibility : Visibility)
  /-- Any change to the rows that are not documents. -/
  | others (update : Database → Database)

def changeOthers (update : Database → Database) : Tx Outcome := do
  let db ← view
  change (.others (update db))
  pure .wrote

def Request.transaction : Request → Tx Outcome
  | .deliverable w => writeStepDeliverable k w
  | .artifact w => writeArtifactDocument k w
  | .changeProject conversationId assignable projectId visibility =>
    changeConversationProject k conversationId assignable projectId visibility
  | .changeVisibility conversationId visibility =>
    changeConversationVisibility k conversationId visibility
  | .others update => changeOthers update

abbrev System : Type := Transactions.State Database Key Change CreateError Outcome

def step (k : Lookups) (s : System) (e : Event Request) : System :=
  Transactions.step Database.apply Database.admitsAll (Request.transaction k) s e

end Cognis.Documents
