import Cognis.Deliverables.Revision
import Cognis.Memory.Revision

namespace Cognis.Documents

open List

variable (k : Lookups) (db : Database) (producer : Session) (userEmail : String)
  (agentId conversationId sessionId : Option String)

structure Session where
  sessionId : String
  conversationId : String
  parentSessionId : Option String := none
  previousSessionId : Option String := none
  sourceSessionId : Option String := none
  userEmail : String
  agentId : String
  artifactScopeId : Option String := none
  deriving DecidableEq

/-- `PROJECT_VISIBILITIES`. -/
inductive Visibility where
  | project
  | privateOnly
  deriving DecidableEq

structure Conversation where
  conversationId : String
  userEmail : String
  agentId : String
  projectId : Option String := none
  visibility : Visibility := .privateOnly
  contextType : String := "web"
  contextRef : Option String := none
  /-- `context_data["kind"]`. -/
  contextKind : Option String := none
  deriving DecidableEq

structure Task where
  taskId : String
  createdBy : String
  agentId : String
  createdByAgentId : Option String := none
  sourceSessionId : Option String := none
  projectId : Option String := none
  visibility : Visibility := .privateOnly
  deriving DecidableEq

structure StepRun where
  stepRunId : String
  taskId : String
  sessionId : Option String := none
  deriving DecidableEq

structure Agent where
  agentId : String
  ownerEmail : String
  /-- `status == "active"`. -/
  active : Bool := true
  deriving DecidableEq

structure ProjectRow where
  projectId : String
  /-- `status == "active"`. -/
  active : Bool := true
  deriving DecidableEq

structure ProjectAgentRow where
  projectId : String
  agentId : String
  isDefault : Bool := false
  deriving DecidableEq

structure ManagedConversationLink where
  linkId : String
  parentLinkId : Option String := none
  rootLinkId : String
  depth : Nat
  userEmail : String
  controllerConversationId : String
  controllerAgentId : String
  controllerSessionId : Option String := none
  targetConversationId : String
  targetAgentId : String
  deriving DecidableEq

structure ArtifactGrantRow where
  ownerEmail : String
  contentRef : String
  agentId : String
  deriving DecidableEq

structure KnowledgebaseArtifactRow where
  knowledgebaseId : String
  artifactId : Option String := none
  status : String
  deriving DecidableEq

/-- A row of `deliverables`, with its owners. -/
structure DeliverableRow extends Deliverables.DeliverableRow where
  ownerEmail : Option String := none
  ownerAgentId : Option String := none
  deriving DecidableEq

structure ArtifactRecordRow where
  artifactId : String
  ownerEmail : Option String := none
  ownerAgentId : Option String := none
  conversationId : Option String := none
  sessionId : Option String := none
  purpose : String := "chat_input"
  lineageId : Option String := none
  revision : Nat := 1
  supersedesArtifactId : Option String := none
  projectId : Option String := none
  /-- `status == "deleted"` or `deleted_at` is set. -/
  deleted : Bool := false
  deriving DecidableEq

structure Database where
  sessions : List Session := []
  conversations : List Conversation := []
  tasks : List Task := []
  stepRuns : List StepRun := []
  agents : List Agent := []
  projects : List ProjectRow := []
  projectAgents : List ProjectAgentRow := []
  links : List ManagedConversationLink := []
  grants : List ArtifactGrantRow := []
  knowledgebaseArtifacts : List KnowledgebaseArtifactRow := []
  deliverables : List DeliverableRow := []
  artifacts : List ArtifactRecordRow := []
  deriving DecidableEq

namespace Database

/-- `session.get(Session, session_id) if session_id else None`. -/
def getSession : Option Session :=
  (sessionId.filter (· ≠ "")).bind fun id => db.sessions.find? (·.sessionId == id)

/-- `session.get(Conversation, conversation_id) if conversation_id else None`. -/
def getConversation : Option Conversation :=
  (conversationId.filter (· ≠ "")).bind fun id =>
    db.conversations.find? (·.conversationId == id)

def getAgent (agentId : String) : Option Agent :=
  db.agents.find? (·.agentId == agentId)

def taskOfSession (sessionId : String) : Option Task :=
  db.tasks.find? fun task => task.createdBy == userEmail &&
    db.stepRuns.any fun run => run.taskId == task.taskId && run.sessionId == some sessionId

end Database

inductive ProjectRole where
  | viewer
  | member
  | manager
  | owner
  deriving DecidableEq

structure Lookups where
  /-- The role of `resolve_project_role_by_id`. -/
  projectRole : Database → String → String → Option ProjectRole
  /-- `agent_usable_in_project`. -/
  agentUsableInProject : Database → Agent → String → String → Bool
  /-- `resolve_agent_use_grant` finds one. -/
  agentUseGrant : Database → String → String → Option String → Bool
  /-- The ids of `list_available_knowledgebases`, by the actor and the agent. -/
  availableKnowledgebases : Database → String → String → List String
  /-- `str.lower`. -/
  lower : String → String

/-- `_ROLE_RANK`. -/
def ProjectRole.rank : ProjectRole → Nat
  | .viewer => 1
  | .member => 2
  | .manager => 3
  | .owner => 4

/-- `_ROLE_FOR` by `ContentAccess`. -/
inductive ContentAccess where
  | read
  | write
  deriving DecidableEq

/-- `_REQUIRED_RANK` of the role for the access. -/
def ContentAccess.requiredRank : ContentAccess → Nat
  | .read => 1
  | .write => 2

/-- `role_satisfies(role, _ROLE_FOR[access])`. -/
def roleSatisfies (role : Option ProjectRole) (access : ContentAccess) : Bool :=
  role.any fun role => access.requiredRank ≤ role.rank

def given (text : Option String) : Option String := text.filter (· ≠ "")

/-- `agent_id.startswith("system:")`. -/
def isSystemAgent (agentId : String) : Bool := "system:".toList.isPrefixOf agentId.toList

def isWebMainChatContext (contextType : String) (c : Conversation) : Bool :=
  contextType == "web" && (c.contextKind == some "agent_direct" ||
    c.contextRef.any fun ref => "web:agent_direct:".toList.isPrefixOf ref.toList ||
      ("web:user:".toList.isPrefixOf ref.toList && ":default".toList.isSuffixOf ref.toList))

def nonChannelContextTypes : List String := ["api", "chat", "direct", "task", "web"]

def isLongLivedChatContext (c : Conversation) : Bool :=
  let contextType := k.lower (Memory.strip c.contextType)
  isWebMainChatContext contextType c ||
    (contextType != "" && !nonChannelContextTypes.contains contextType)

def resolveProjectRoleById (projectId : Option String) (userEmail : String) : Option ProjectRole :=
  (given projectId).bind fun id => k.projectRole db id userEmail

def getDefaultProjectForAgent (agentId : String) : Option String :=
  (db.projectAgents.find? fun row => row.agentId == agentId && row.isDefault &&
    db.projects.any fun project => project.projectId == row.projectId && project.active).map
    (·.projectId)

def resolveEffectiveProjectId (conversation : Option Conversation)
    (agentId : Option String) (userEmail : String) : Option String :=
  match (conversation.bind (·.projectId)).filter fun stored => Memory.strip stored ≠ "" with
  | some stored => some stored
  | none =>
    match conversation, agentId with
    | some c, some agent =>
      if isLongLivedChatContext k c then
        (getDefaultProjectForAgent db agent).filter fun id =>
          roleSatisfies (k.projectRole db id userEmail) .write
      else none
    | _, _ => none

def maxSessionDepth : Nat := 16

/-- The loop of `_task_for_session` for the given number of levels. -/
def taskAbove (db : Database) (userEmail : String) : Nat → Option Session → Option Task
  | 0, _ => none
  | depth + 1, current =>
    match current with
    | none => none
    | some s =>
      if s.userEmail ≠ userEmail then none
      else
        match db.taskOfSession userEmail s.sessionId with
        | some task => some task
        | none =>
          match given s.parentSessionId with
          | none => none
          | some parent => taskAbove db userEmail depth (db.getSession (some parent))

def taskForSession (s : Session) (userEmail : String) : Option Task :=
  taskAbove db userEmail maxSessionDepth (some s)

def sourcesOf (item : Session) : List Session :=
  [(db.taskOfSession userEmail item.sessionId).bind (·.sourceSessionId), item.sourceSessionId,
    item.previousSessionId, item.parentSessionId].filterMap db.getSession

/-- The loop of `session_ancestors`: what it still has to pop, and the ids it has seen. -/
def ancestorsFrom (db : Database) (userEmail : String) : Nat → List Session → List String →
    List Session
  | 0, _, _ => []
  | _, [], _ => []
  | fuel + 1, item :: pending, seen =>
    if seen.contains item.sessionId || item.userEmail ≠ userEmail then
      ancestorsFrom db userEmail fuel pending seen
    else
      item :: ancestorsFrom db userEmail fuel (sourcesOf db userEmail item ++ pending)
        (item.sessionId :: seen)

/-- The rounds are enough for the whole search. -/
def sessionAncestors : List Session :=
  ancestorsFrom db producer.userEmail (4 * (db.sessions.length + 1) + 1) [producer] []

def primaryAgentOf (source : Session) : Option String :=
  match ((db.taskOfSession userEmail source.sessionId).map (·.agentId)).filter fun id =>
      id ≠ "" && !isSystemAgent id with
  | some id => some id
  | none =>
    if !isSystemAgent source.agentId then some source.agentId
    else
      ((db.getConversation (some source.conversationId)).filter fun c =>
        c.userEmail == userEmail && !isSystemAgent c.agentId).map (·.agentId)

def effectiveKbAgent : Option String :=
  (sessionAncestors db producer).findSome? (primaryAgentOf db producer.userEmail)

def actingAgentId : Option String :=
  match given agentId with
  | none => none
  | some agent =>
    if !isSystemAgent agent then some agent
    else
      match db.getSession sessionId with
      | none => none
      | some current =>
        if current.userEmail ≠ userEmail || current.agentId ≠ agent then none
        else effectiveKbAgent db current

structure WorkProject where
  projectId : Option String
  shared : Bool
  deriving DecidableEq

def conversationWork : WorkProject :=
  match db.getConversation conversationId with
  | none => ⟨none, false⟩
  | some conversation =>
    if conversation.userEmail ≠ userEmail then ⟨none, false⟩
    else
      let acting := actingAgentId db userEmail agentId sessionId
      match given (resolveEffectiveProjectId k db (some conversation) acting userEmail) with
      | none => ⟨none, false⟩
      | some projectId =>
        ⟨some projectId, conversation.projectId != some projectId ||
          conversation.visibility == .project⟩

def workProject : WorkProject :=
  match (db.getSession sessionId).filter (·.userEmail == userEmail) with
  | some current =>
    match taskForSession db current userEmail with
    | some task => ⟨task.projectId, (given task.projectId).isSome && task.visibility == .project⟩
    | none =>
      conversationWork k db userEmail agentId
        (some (Deliverables.orElse conversationId current.conversationId)) sessionId
  | none => conversationWork k db userEmail agentId conversationId sessionId

def assignedProjects (acting : String) (context : WorkProject) : List String :=
  ((db.projectAgents.filter fun row => row.agentId == acting &&
    db.projects.any fun project => project.projectId == row.projectId && project.active).filter
    fun row => (given context.projectId).all (· == row.projectId)).map (·.projectId)

def contentProjectIds
    (userEmail agentId conversationId sessionId : Option String) (access : ContentAccess) :
    List String :=
  match given userEmail, given agentId with
  | some user, some _ =>
    match given (actingAgentId db user agentId sessionId) with
    | none => []
    | some acting =>
      if (given conversationId).isSome &&
          !((db.getConversation conversationId).any (·.userEmail == user)) then []
      else
        match (db.getAgent acting).filter (·.active) with
        | none => []
        | some agent =>
          let context := workProject k db user agentId conversationId sessionId
          (assignedProjects db acting context).filter fun id =>
            roleSatisfies (resolveProjectRoleById k db (some id) user) access &&
              k.agentUsableInProject db agent user id
  | _, _ => []

def humanMayAccessProjectContent (projectId : Option String)
    (userEmail : String) (access : ContentAccess) : Bool :=
  roleSatisfies (resolveProjectRoleById k db projectId userEmail) access

end Cognis.Documents
