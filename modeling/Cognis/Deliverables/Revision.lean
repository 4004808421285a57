import Mathlib.Data.List.MinMax
import Cognis.Library.Ancestry

/-! Versioned deliverables of steps and conversations, and the lineages their
revisions form. -/

namespace Cognis.Deliverables

inductive DeliverableStatus where
  | buffered
  | approved
  | delivered
  | superseded
  | rejected
  deriving DecidableEq

/-- `DELIVERABLE_LIVE_STATUSES`. -/
def DeliverableStatus.isLive : DeliverableStatus → Bool
  | .buffered => true
  | .approved => true
  | .delivered => true
  | .superseded => false
  | .rejected => false

def DeliverableStatus.isDraft : DeliverableStatus → Bool
  | .buffered => true
  | .approved => true
  | .delivered => false
  | .superseded => false
  | .rejected => false

theorem DeliverableStatus.isLive_of_isDraft {s : DeliverableStatus} (h : s.isDraft = true) :
    s.isLive = true := by
  cases s <;> simp_all [isDraft, isLive]

structure DeliverableRow where
  deliverableId : String
  stepRunId : Option String
  conversationId : Option String
  sessionId : Option String
  turnId : Option String
  version : Nat
  lineageId : Option String
  revision : Nat
  supersedesDeliverableId : Option String
  projectId : Option String
  title : Option String
  status : DeliverableStatus
  deriving DecidableEq

structure DeliverableStore where
  rows : List DeliverableRow
  payloads : List String
  deriving DecidableEq

/-- The arguments of `create_deliverable`; `uuidHex` is what `uuid4` gives. -/
structure NewDeliverable where
  stepRunId : Option String
  conversationId : Option String
  sessionId : Option String
  turnId : Option String
  deliverableId : Option String
  uuidHex : String
  title : Option String
  supersedesDeliverableId : Option String
  projectId : Option String
  deriving DecidableEq

inductive CreateError where
  | value (message : String)
  | revision (code message : String) (latestDeliverableId : Option String)
      (latestRevision : Option Nat) (lineageId : Option String)
  | integrity
  deriving DecidableEq

/-- Python's `a or b` on an optional text. -/
def orElse (a : Option String) (b : String) : String :=
  match a with
  | some text => if text = "" then b else text
  | none => b

def deliverableLineageKey (row : DeliverableRow) : String :=
  orElse row.lineageId row.deliverableId

/-- `row.revision or 1`. -/
def DeliverableRow.revisionOrOne (row : DeliverableRow) : Nat :=
  if row.revision = 0 then 1 else row.revision

variable (rows : List DeliverableRow)

def getDeliverableLineageHead (lineageId : String) : Option DeliverableRow :=
  (rows.filter fun r => r.lineageId == some lineageId && r.status.isLive).reverse.argmax
    (·.revision)

/-- The rows set to a status by an `UPDATE … WHERE`. -/
def setStatus (where_ : DeliverableRow → Bool) (status : DeliverableStatus)
    (rows : List DeliverableRow) : List DeliverableRow :=
  rows.map fun r => if where_ r then { r with status := status } else r

/-- The partial unique index `uq_deliverables_live_supersedes` refuses the row. -/
def liveSupersedesConflict (row : DeliverableRow) : Bool :=
  row.status.isLive && row.supersedesDeliverableId.isSome &&
    rows.any fun r => r.deliverableId != row.deliverableId && r.status.isLive &&
      r.supersedesDeliverableId == row.supersedesDeliverableId

structure NewDeliverableLineage where
  lineageId : String
  revision : Nat
  supersedesDeliverableId : Option String
  targetTitle : Option String
  inheritProject : Bool
  projectId : Option String
  deriving DecidableEq

def revisionTarget (supersedes : Option String) (replaced : List DeliverableRow) : Option String :=
  supersedes.filter fun id => !replaced.any (·.deliverableId == id)

def hasNewerRevision (replaced : List DeliverableRow) (target : DeliverableRow) : Bool :=
  let replacedIds := replaced.map (·.deliverableId)
  let excluded := if replacedIds.isEmpty then [""] else replacedIds
  (rows.find? fun r => r.supersedesDeliverableId == some target.deliverableId &&
    r.status.isLive && !excluded.contains r.deliverableId).isSome ||
  (getDeliverableLineageHead rows (deliverableLineageKey target)).any fun h =>
    h.deliverableId != target.deliverableId && !replacedIds.contains h.deliverableId

def reviseTarget (targetId : String)
    (replaced : List DeliverableRow) : Except CreateError NewDeliverableLineage :=
  match rows.find? (·.deliverableId == targetId) with
  | none =>
    .error (.revision "supersedes_not_found"
      "The deliverable to supersede was not found or is not accessible." none none none)
  | some target =>
    let lineageId := deliverableLineageKey target
    let head := getDeliverableLineageHead rows lineageId
    if !target.status.isLive then
      .error (.revision "supersedes_not_active"
        ("The deliverable to supersede is a rejected or replaced draft. " ++
          "Supersede the latest revision instead.")
        (head.map (·.deliverableId)) (head.map (·.revision)) none)
    else if hasNewerRevision rows replaced target then
      .error (.revision "supersedes_not_latest"
        ("The deliverable to supersede already has a newer revision. " ++
          "Supersede the latest revision instead.")
        (head.map (·.deliverableId)) (head.map (·.revision)) none)
    else
      .ok { lineageId
            revision := target.revisionOrOne + 1
            supersedesDeliverableId := some target.deliverableId
            targetTitle := target.title
            inheritProject := true
            projectId := target.projectId }

/-- The lineage fields of a new row: the next revision of an explicit target, the
place of the replaced draft, or a lineage of its own. -/
def resolveNewDeliverableLineage (deliverableId : String)
    (supersedes : Option String) (replaced : List DeliverableRow) :
    Except CreateError NewDeliverableLineage :=
  match revisionTarget supersedes replaced with
  | some targetId => reviseTarget rows targetId replaced
  | none =>
    match replaced.argmax (·.version) with
    | some draft =>
      .ok { lineageId := deliverableLineageKey draft
            revision := draft.revisionOrOne
            supersedesDeliverableId := draft.supersedesDeliverableId
            targetTitle := none
            inheritProject := true
            projectId := draft.projectId }
    | none =>
      .ok { lineageId := deliverableId
            revision := 1
            supersedesDeliverableId := none
            targetTitle := none
            inheritProject := false
            projectId := none }

section

variable (db : DeliverableStore) (a : NewDeliverable)

/-- `deliverable_id or f"dlv_{uuid4().hex}"`. -/
def NewDeliverable.rowId : String := orElse a.deliverableId ("dlv_" ++ a.uuidHex)

/-- `version_where`: the rows of the step run, or of the conversation turn. -/
def NewDeliverable.inScope (r : DeliverableRow) : Bool :=
  if a.stepRunId.isSome then r.stepRunId == a.stepRunId
  else r.conversationId == a.conversationId && r.sessionId == a.sessionId && r.turnId == a.turnId

def NewDeliverable.drafts : List DeliverableRow :=
  db.rows.filter fun r => a.inScope r && a.stepRunId.isSome && r.status.isDraft

def hasLiveSuccessor (drafts : List DeliverableRow) (draft : DeliverableRow) : Bool :=
  rows.any fun r => r.supersedesDeliverableId == some draft.deliverableId && r.status.isLive &&
    !drafts.any (·.deliverableId == r.deliverableId)

def NewDeliverable.replaced : List DeliverableRow :=
  (a.drafts db).filter fun d => !hasLiveSuccessor db.rows (a.drafts db) d

def NewDeliverable.nextVersion : Nat :=
  ((db.rows.filter a.inScope).map (·.version)).foldl max 0 + 1

def NewDeliverable.row (lineage : NewDeliverableLineage) : DeliverableRow where
  deliverableId := a.rowId
  stepRunId := a.stepRunId
  conversationId := a.conversationId
  sessionId := a.sessionId
  turnId := a.turnId
  version := a.nextVersion db
  lineageId := some lineage.lineageId
  revision := lineage.revision
  supersedesDeliverableId := lineage.supersedesDeliverableId
  projectId := if lineage.inheritProject then lineage.projectId else a.projectId
  title :=
    if lineage.targetTitle.isSome && (orElse a.title "").isEmpty then lineage.targetTitle
    else a.title
  status := .buffered

def NewDeliverable.marked : List DeliverableRow :=
  setStatus (fun r => (a.replaced db).any (·.deliverableId == r.deliverableId) &&
    r.status.isDraft) .superseded db.rows

def NewDeliverable.rollback : DeliverableStore :=
  { db with payloads := db.payloads.filter fun id => id != a.rowId }

def NewDeliverable.insert (lineage : NewDeliverableLineage) :
    Except CreateError DeliverableRow × DeliverableStore :=
  let row := a.row db lineage
  if (a.marked db).any (·.deliverableId == row.deliverableId) then
    (.error .integrity, a.rollback db)
  else if liveSupersedesConflict (a.marked db) row then
    (.error (.revision "supersedes_not_latest"
      ("Another revision superseded this deliverable concurrently. " ++
        "Supersede the latest revision instead.") none none (some lineage.lineageId)),
      a.rollback db)
  else
    (.ok row,
      { rows := a.marked db ++ [row]
        payloads := (db.payloads.filter fun id =>
          !(a.replaced db).any (·.deliverableId == id)) ++ [row.deliverableId] })

def createDeliverable : Except CreateError DeliverableRow × DeliverableStore :=
  if (orElse a.stepRunId "").isEmpty == (orElse a.conversationId "").isEmpty then
    (.error (.value "deliverable must have exactly one owner scope"), db)
  else
    match (a.drafts db).find? (hasLiveSuccessor db.rows (a.drafts db)),
        a.supersedesDeliverableId with
    | some draft, none =>
      let head := getDeliverableLineageHead db.rows (deliverableLineageKey draft)
      (.error (.revision "supersedes_not_latest"
        ("This output already has a newer revision. Pass supersedes with the " ++
          "latest revision to revise it.")
        (head.map (·.deliverableId)) (head.map (·.revision)) none), db)
    | _, supersedes =>
      match resolveNewDeliverableLineage db.rows a.rowId supersedes (a.replaced db) with
      | .error e => (.error e, db)
      | .ok lineage => a.insert db lineage

end

def updateDeliverableStatus (db : DeliverableStore) (deliverableId : String)
    (status : DeliverableStatus) : Except CreateError Bool × DeliverableStore :=
  match db.rows.find? (·.deliverableId == deliverableId) with
  | none => (.ok false, db)
  | some row =>
    if liveSupersedesConflict db.rows { row with status := status } then
      (.error .integrity, db)
    else
      (.ok true,
        { db with rows := setStatus (fun r => r.deliverableId == deliverableId) status db.rows })

inductive Call where
  | create (a : NewDeliverable)
  | update (deliverableId : String) (status : DeliverableStatus)
  deriving DecidableEq

def step (db : DeliverableStore) : Call → DeliverableStore
  | .create a => (createDeliverable db a).2
  | .update deliverableId status => (updateDeliverableStatus db deliverableId status).2

def empty : DeliverableStore := ⟨[], []⟩

end Cognis.Deliverables
