import Cognis.Library.Closure
import Cognis.Documents.Database

namespace Cognis.Documents

inductive Node where
  | session (sessionId : String)
  | conversation (conversationId : String)
  | task (taskId : String)
  deriving DecidableEq

def validLinks (db : Database) (ownerEmail : String) : List ManagedConversationLink :=
  db.links.filter fun m => m.userEmail == ownerEmail &&
    db.conversations.any (fun c => c.conversationId == m.controllerConversationId &&
      c.userEmail == ownerEmail && c.agentId == m.controllerAgentId) &&
    db.conversations.any (fun c => c.conversationId == m.targetConversationId &&
      c.userEmail == ownerEmail && c.agentId == m.targetAgentId)

def managedLineage (db : Database) (ownerEmail : String) : List ManagedConversationLink :=
  let links := validLinks db ownerEmail
  let roots := links.filter fun m =>
    m.parentLinkId.isNone && m.rootLinkId == m.linkId && m.depth == 1
  roots ++ links.filter fun m => roots.any fun root =>
    m.parentLinkId == some root.linkId && m.rootLinkId == root.rootLinkId &&
      m.depth == root.depth + 1 && m.controllerConversationId == root.targetConversationId &&
      m.controllerAgentId == root.targetAgentId && m.depth ≤ 2

def workEdges (db : Database) (ownerEmail : String) : List (Node × Node) :=
  let sessions := db.sessions.filter (·.userEmail == ownerEmail)
  let tasks := db.tasks.filter (·.createdBy == ownerEmail)
  let managed := managedLineage db ownerEmail
  sessions.map (fun s => (.conversation s.conversationId, .session s.sessionId)) ++
    sessions.flatMap (fun s =>
      ([s.parentSessionId, s.previousSessionId, s.sourceSessionId].filterMap id).map fun source =>
        (.session source, .session s.sessionId)) ++
    managed.map (fun m =>
      (.conversation m.controllerConversationId, .conversation m.targetConversationId)) ++
    tasks.filterMap (fun t => t.sourceSessionId.map fun s => (.session s, .task t.taskId)) ++
    tasks.flatMap (fun t => (db.stepRuns.filter (·.taskId == t.taskId)).filterMap fun run =>
      run.sessionId.map fun s => (.task t.taskId, .session s)) ++
    managed.filterMap fun m => m.controllerSessionId.map fun s =>
      (.session s, .conversation m.targetConversationId)

def systemSeeds (db : Database) (ownerEmail agentId : String) (sessionId : Option String) :
    List Node :=
  let own := db.sessions.filter fun s => s.userEmail == ownerEmail && s.agentId == agentId
  let scope := (own.find? fun s => sessionId == some s.sessionId).bind (·.artifactScopeId)
  (own.filter fun s => sessionId == some s.sessionId ||
    (scope.isSome && s.artifactScopeId == scope)).map fun s => .session s.sessionId

def primarySeeds (db : Database) (ownerEmail agentId : String) : List Node :=
  (db.conversations.filter fun c => c.userEmail == ownerEmail && c.agentId == agentId).map
      (fun c => .conversation c.conversationId) ++
    (db.tasks.filter fun t => t.createdBy == ownerEmail &&
      (t.agentId == agentId || t.createdByAgentId == some agentId)).map fun t => .task t.taskId

def workSeeds (db : Database) (ownerEmail agentId : String) (sessionId : Option String) :
    List Node :=
  if isSystemAgent agentId then systemSeeds db ownerEmail agentId sessionId
  else primarySeeds db ownerEmail agentId

def workNodes (db : Database) (ownerEmail agentId : String) (sessionId : Option String) :
    List Node :=
  Closure.reach (workEdges db ownerEmail) (workSeeds db ownerEmail agentId sessionId)

theorem mem_workNodes {db : Database} {ownerEmail agentId : String} {sessionId : Option String}
    {node : Node} :
    node ∈ workNodes db ownerEmail agentId sessionId ↔
      ∃ seed ∈ workSeeds db ownerEmail agentId sessionId,
        Relation.ReflTransGen (fun a b => (a, b) ∈ workEdges db ownerEmail) seed node :=
  Closure.mem_reach

/-- `ArtifactRecordRow` or `DeliverableRow`. -/
inductive Model where
  | artifact
  | deliverable
  deriving DecidableEq

structure Document where
  ref : String
  ownerEmail : Option String
  ownerAgentId : Option String
  conversationId : Option String
  sessionId : Option String
  stepRunId : Option String
  projectId : Option String
  deriving DecidableEq

def ArtifactRecordRow.document (row : ArtifactRecordRow) : Document where
  ref := row.artifactId
  ownerEmail := row.ownerEmail
  ownerAgentId := row.ownerAgentId
  conversationId := row.conversationId
  sessionId := row.sessionId
  stepRunId := none
  projectId := row.projectId

def DeliverableRow.document (row : DeliverableRow) : Document where
  ref := row.deliverableId
  ownerEmail := row.ownerEmail
  ownerAgentId := row.ownerAgentId
  conversationId := row.conversationId
  sessionId := row.sessionId
  stepRunId := row.stepRunId
  projectId := row.projectId

def Database.documents (db : Database) : Model → List Document
  | .artifact => db.artifacts.map (·.document)
  | .deliverable => db.deliverables.map (·.document)

/-- Who reads. -/
structure Identity where
  ownerEmail : Option String
  agentId : Option String
  conversationId : Option String
  sessionId : Option String
  deriving DecidableEq

variable (k : Lookups) (db : Database) (who : Identity)

def takenAgent (owner : String) : Option String :=
  match given who.conversationId with
  | none => given who.agentId
  | some id =>
    match (db.getConversation (some id)).filter (·.userEmail == owner) with
    | none => none
    | some conversation =>
      let agent := Deliverables.orElse who.agentId conversation.agentId
      if !isSystemAgent agent && conversation.agentId != agent then none else given (some agent)

variable (owner agent : String)

def systemSession : Option Session :=
  (db.getSession who.sessionId).filter fun current =>
    current.userEmail == owner && current.agentId == agent &&
      (given who.conversationId).all (· == current.conversationId)

def primaryUsable : Bool :=
  (db.getAgent agent).any fun row => row.active && (row.ownerEmail == owner ||
    k.agentUseGrant db agent owner
      (resolveEffectiveProjectId k db (db.getConversation who.conversationId) (some agent) owner))

def provenance (doc : Document) : Bool :=
  let nodes := workNodes db owner agent who.sessionId
  doc.sessionId.any (fun id => nodes.contains (.session id)) ||
    (doc.sessionId.isNone && doc.conversationId.any fun id => nodes.contains (.conversation id)) ||
    doc.stepRunId.any fun id => db.stepRuns.any fun run =>
      run.stepRunId == id && nodes.contains (.task run.taskId)

def granted (owner recipient : String) (doc : Document) : Bool :=
  db.grants.any fun grant => grant.ownerEmail == owner && grant.contentRef == doc.ref &&
    grant.agentId == recipient

def inKnowledgebase (owner kbAgent : String) (doc : Document) : Bool :=
  let knowledgebases := k.availableKnowledgebases db owner kbAgent
  db.knowledgebaseArtifacts.any fun row => row.artifactId == some doc.ref &&
    knowledgebases.contains row.knowledgebaseId &&
    !(["deleted", "detached", "removed"].contains row.status)

def ownedContentPredicate (includeWorkProvenance : Bool) (doc : Document) : Bool :=
  match given who.ownerEmail with
  | none => false
  | some owner =>
    match takenAgent db who owner with
    | none => false
    | some agent =>
      let byWork := includeWorkProvenance && provenance db who owner agent doc
      if isSystemAgent agent then
        match systemSession db who owner agent with
        | none => false
        | some current =>
          doc.ownerEmail == some owner && (byWork || granted db owner
              ("scope:" ++ Deliverables.orElse current.artifactScopeId current.sessionId) doc ||
            (given (effectiveKbAgent db current)).any fun kb => inKnowledgebase k db owner kb doc)
      else
        primaryUsable k db who owner agent && doc.ownerEmail == some owner && (byWork ||
          doc.ownerAgentId == some agent || granted db owner agent doc ||
          inKnowledgebase k db owner agent doc)

def directlyOwned (includeWorkProvenance : Bool) (agent : String) (doc : Document) : Bool :=
  ownedContentPredicate k db who includeWorkProvenance doc && doc.ownerEmail == who.ownerEmail &&
    doc.ownerAgentId == some agent

variable (model : Model)

def readableOwnProjects (includeWorkProvenance : Bool) (owner agent : String) :
    List String :=
  ((((db.documents model).filter (directlyOwned k db who includeWorkProvenance agent)).filterMap
    (·.projectId)).dedup.filter fun id => db.projects.any fun project =>
      project.projectId == id && project.active).filter fun id =>
        humanMayAccessProjectContent k db (some id) owner .read

variable (access : ContentAccess)

def ownProjects (includeWorkProvenance : Bool)
    (agent : String) (doc : Document) : Bool :=
  match given who.ownerEmail with
  | none => false
  | some owner =>
    access == .read && !isSystemAgent agent &&
      directlyOwned k db who includeWorkProvenance agent doc &&
      doc.projectId.any
        (readableOwnProjects k db who model includeWorkProvenance owner agent).contains

def contentReadPredicate (includeWorkProvenance : Bool)
    (doc : Document) : Bool :=
  let owned := ownedContentPredicate k db who includeWorkProvenance doc
  let projectIds := contentProjectIds k db who.ownerEmail who.agentId who.conversationId
    who.sessionId access
  let narrowed :=
    match given who.agentId with
    | none => owned
    | some agent =>
      (owned && doc.projectId.isNone) ||
        ownProjects k db who model access includeWorkProvenance agent doc
  narrowed || doc.projectId.any projectIds.contains

/-- The documents that `content_read_predicate` selects. -/
def selected : List Document :=
  (db.documents model).filter (contentReadPredicate k db who model access true)

end Cognis.Documents
