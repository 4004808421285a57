import Mathlib.Data.List.Dedup
import Cognis.Documents.ReadPredicate

namespace Cognis.Documents

open List

variable {k : Lookups} {db : Database} {who : Identity} {model : Model} {doc : Document}
  {user agent conversation session : Option String} {owner acting p : String}
  {access : ContentAccess}

def userConversation (db : Database) (who : Identity) (owner : String) : Option Conversation :=
  (db.getConversation who.conversationId).filter (·.userEmail == owner)

def readingAgent (db : Database) (who : Identity) (owner : String) : Option String :=
  match given who.agentId with
  | some agent => some agent
  | none => (userConversation db who owner).bind fun c => given (some c.agentId)

def ActiveProject (db : Database) (p : String) : Prop :=
  ∃ project ∈ db.projects, project.projectId = p ∧ project.active = true

/-- The acting agent is assigned to the project and usable there, and the work is in no other
project. -/
structure WorksIn (k : Lookups) (db : Database) (who : Identity) (owner agent p : String) :
    Prop where
  acts : ∃ acting row, actingAgentId db owner (some agent) who.sessionId = some acting ∧
    db.getAgent acting = some row ∧
    (∃ assignment ∈ db.projectAgents, assignment.agentId = acting ∧ assignment.projectId = p) ∧
    k.agentUsableInProject db row owner p = true
  context : ∀ q, given (workProject k db owner (some agent) who.conversationId
    who.sessionId).projectId = some q → q = p

def OwnDocument (db : Database) (who : Identity) (owner agent : String) (doc : Document) : Prop :=
  doc.ownerEmail = some owner ∧ doc.ownerAgentId = some agent ∧
    actingAgentId db owner (some agent) who.sessionId = some agent

/-- The agent rule, for a document of the project `p`. -/
structure RespectsProject (k : Lookups) (db : Database) (who : Identity) (owner agent : String)
    (doc : Document) (p : String) : Prop where
  active : ActiveProject db p
  viewer : roleSatisfies (resolveProjectRoleById k db (some p) owner) .read = true
  allowed : OwnDocument db who owner agent doc ∨ WorksIn k db who owner agent p

/-- The documents of a project that the identity reads are those of the agent rule, and it
makes no difference if the conversation's agent is named or taken from the conversation. -/
def IsolatedReads (k : Lookups) (db : Database) (who : Identity) (model : Model) : Prop :=
  (∀ doc ∈ selected k db who model .read, ∀ p, doc.projectId = some p →
    ∃ owner agent, given who.ownerEmail = some owner ∧
      readingAgent db who owner = some agent ∧ RespectsProject k db who owner agent doc p) ∧
  (∀ owner c, given who.ownerEmail = some owner → given who.agentId = none →
    userConversation db who owner = some c →
    selected k db who model .read =
      selected k db { who with agentId := some c.agentId } model .read)

variable {text : Option String} {work : Bool}

theorem given_eq_some {t : String} : given text = some t ↔ text = some t ∧ t ≠ "" := by
  cases text with
  | none => simp [given]
  | some s =>
    by_cases hs : s = ""
    · subst hs
      constructor
      · intro h
        cases h
      · intro h
        exact absurd (Option.some.inj h.1).symm h.2
    · have hgiven : given (some s) = some s := by simp [given, hs]
      rw [hgiven]
      constructor
      · intro h
        cases h
        exact ⟨rfl, hs⟩
      · intro h
        exact h.1

theorem mem_assignedProjects {context : WorkProject} : p ∈ assignedProjects db acting context ↔
      (∃ row ∈ db.projectAgents, row.agentId = acting ∧ row.projectId = p) ∧
        ActiveProject db p ∧ ∀ q, given context.projectId = some q → q = p := by
  unfold assignedProjects ActiveProject
  simp only [mem_map, mem_filter, Bool.and_eq_true, beq_iff_eq, any_eq_true, Option.all_eq_true]
  constructor
  · rintro ⟨row, ⟨⟨hrow, hagent, project, hproject, hid, hactive⟩, hcontext⟩, rfl⟩
    refine ⟨⟨row, hrow, hagent, rfl⟩, ⟨project, hproject, hid, hactive⟩, ?_⟩
    intro q hq
    exact hcontext q hq
  · rintro ⟨⟨row, hrow, hagent, rfl⟩, ⟨project, hproject, hid, hactive⟩, hcontext⟩
    exact ⟨row, ⟨⟨hrow, hagent, project, hproject, hid, hactive⟩, hcontext⟩, rfl⟩

/-- A project of an agent session is active, the user has the role in it, and the acting agent
works there. -/
theorem of_mem_contentProjectIds
    (h : p ∈ contentProjectIds k db user agent conversation session access) :
    ∃ owner name, given user = some owner ∧ given agent = some name ∧ ActiveProject db p ∧
      roleSatisfies (resolveProjectRoleById k db (some p) owner) access ∧
      WorksIn k db ⟨user, agent, conversation, session⟩ owner name p := by
  unfold contentProjectIds at h
  cases howner : given user with
  | none =>
    rw [howner] at h
    cases h
  | some owner =>
    cases hagent : given agent with
    | none =>
      rw [howner, hagent] at h
      cases h
    | some name =>
      have hname : agent = some name := (given_eq_some.mp hagent).1
      rw [howner, hagent] at h
      dsimp only at h
      cases hacting : given (actingAgentId db owner agent session) with
      | none =>
        rw [hacting] at h
        cases h
      | some acting =>
        rw [hacting] at h
        dsimp only at h
        split_ifs at h with hforeign
        · cases h
        · cases hrow : (db.getAgent acting).filter (·.active) with
          | none =>
            rw [hrow] at h
            cases h
          | some row =>
            rw [hrow] at h
            obtain ⟨hassigned, hrole⟩ := mem_filter.mp h
            rw [Bool.and_eq_true] at hrole
            obtain ⟨hassignment, hactive, hcontext⟩ := mem_assignedProjects.mp hassigned
            refine ⟨owner, name, rfl, rfl, hactive, hrole.1, ?_⟩
            subst hname
            constructor
            · refine ⟨acting, row, (given_eq_some.mp hacting).1, ?_, hassignment, hrole.2⟩
              exact Option.eq_some_of_filter_eq_some hrow
            · exact hcontext

variable {agent : String}

theorem directlyOwned_iff : directlyOwned k db who work agent doc ↔
      ownedContentPredicate k db who work doc ∧ doc.ownerEmail = who.ownerEmail ∧
        doc.ownerAgentId = some agent := by
  simp only [directlyOwned, Bool.and_eq_true, beq_iff_eq, and_assoc]

theorem mem_readableOwnProjects :
    p ∈ readableOwnProjects k db who model work owner agent ↔
      (∃ doc ∈ db.documents model, directlyOwned k db who work agent doc ∧
        doc.projectId = some p) ∧ ActiveProject db p ∧
        humanMayAccessProjectContent k db (some p) owner .read := by
  unfold readableOwnProjects ActiveProject
  simp only [mem_filter, mem_dedup, mem_filterMap, any_eq_true,
    Bool.and_eq_true, beq_iff_eq, and_assoc]

theorem ownProjects_iff (hdoc : doc ∈ db.documents model)
    (howner : given who.ownerEmail = some owner) (hproject : doc.projectId = some p) :
    ownProjects k db who model .read work agent doc ↔
      isSystemAgent agent = false ∧ directlyOwned k db who work agent doc ∧
        ActiveProject db p ∧ humanMayAccessProjectContent k db (some p) owner .read := by
  unfold ownProjects
  rw [howner, hproject]
  simp only [beq_self_eq_true, Bool.true_and, Option.any_some, Bool.and_eq_true,
    Bool.not_eq_true', contains_eq_mem, decide_eq_true_eq, mem_readableOwnProjects, and_assoc]
  constructor
  · rintro ⟨hprimary, hown, -, hactive, hview⟩
    exact ⟨hprimary, hown, hactive, hview⟩
  · rintro ⟨hprimary, hown, hactive, hview⟩
    exact ⟨hprimary, hown, ⟨doc, hdoc, hown, hproject⟩, hactive, hview⟩

/-- What a named agent reads of a project: a document of a project its session works in, or its
own in a project the user may view. -/
def NamedReads (k : Lookups) (db : Database) (who : Identity) (owner agent : String)
    (doc : Document) (p : String) : Prop :=
  p ∈ contentProjectIds k db who.ownerEmail (some agent) who.conversationId who.sessionId .read ∨
    (isSystemAgent agent = false ∧ directlyOwned k db who true agent doc = true ∧
      ActiveProject db p ∧ humanMayAccessProjectContent k db (some p) owner .read = true)

theorem mem_selected : doc ∈ selected k db who model access ↔
      doc ∈ db.documents model ∧ contentReadPredicate k db who model access true doc :=
  mem_filter

theorem contentReadPredicate_named (hagent : given who.agentId = some agent)
    (hdoc : doc ∈ db.documents model) (howner : given who.ownerEmail = some owner)
    (hproject : doc.projectId = some p) :
    contentReadPredicate k db who model .read true doc ↔
      NamedReads k db who owner agent doc p := by
  have hname : who.agentId = some agent := (given_eq_some.mp hagent).1
  unfold contentReadPredicate NamedReads
  rw [hagent, hname]
  rw [Bool.or_eq_true, Bool.or_eq_true, ownProjects_iff hdoc howner hproject, hproject]
  simp only [Option.isNone_some, Bool.and_false, Bool.false_eq_true, false_or, Option.any_some,
    contains_eq_mem, decide_eq_true_eq]
  exact or_comm

theorem actingAgentId_of_primary {session : Option String} (hagent : agent ≠ "")
    (hprimary : isSystemAgent agent = false) :
    actingAgentId db owner (some agent) session = some agent := by
  unfold actingAgentId
  have hgiven : given (some agent) = some agent := given_eq_some.mpr ⟨rfl, hagent⟩
  rw [hgiven]
  dsimp only
  rw [hprimary]
  rfl

theorem NamedReads.respectsProject (howner : given who.ownerEmail = some owner)
    (hagent : agent ≠ "") (h : NamedReads k db who owner agent doc p) :
    RespectsProject k db who owner agent doc p := by
  rcases h with hids | ⟨hprimary, hown, hactive, hview⟩
  · obtain ⟨owner', agent', howner', hagent', hactive, hrole, hworks⟩ :=
      of_mem_contentProjectIds hids
    have hsame : owner' = owner := Option.some.inj (howner'.symm.trans howner)
    have hname : agent' = agent := (Option.some.inj (given_eq_some.mp hagent').1).symm
    subst hsame hname
    exact ⟨hactive, hrole, .inr ⟨hworks.acts, hworks.context⟩⟩
  · obtain ⟨-, hemail, hmine⟩ := directlyOwned_iff.mp hown
    refine ⟨hactive, hview, .inl ⟨?_, hmine, actingAgentId_of_primary hagent hprimary⟩⟩
    rw [hemail]
    exact (given_eq_some.mp howner).1

theorem any_contains_nil : text.any ([] : List String).contains = false := by
  cases text <;> rfl

theorem selected_of_no_owner (h : given who.ownerEmail = none) :
    selected k db who model .read = [] := by
  apply filter_eq_nil_iff.mpr
  intro doc _
  have hids : contentProjectIds k db who.ownerEmail who.agentId who.conversationId who.sessionId
      .read = [] := by
    unfold contentProjectIds
    rw [h]
  unfold contentReadPredicate ownProjects ownedContentPredicate
  rw [hids, h]
  cases given who.agentId with
  | none | some => simp [any_contains_nil]

theorem contentReadPredicate_omitted (h : given who.agentId = none) :
    contentReadPredicate k db who model .read true doc =
      ownedContentPredicate k db who true doc := by
  have hids : contentProjectIds k db who.ownerEmail who.agentId who.conversationId who.sessionId
      .read = [] := by
    unfold contentProjectIds
    rw [h]
    cases given who.ownerEmail with
    | none | some => rfl
  unfold contentReadPredicate
  rw [hids, h]
  dsimp only
  rw [any_contains_nil, Bool.or_false]

theorem orElse_of_not_given {other : String} (h : given text = none) :
    Deliverables.orElse text other = other := by
  unfold Deliverables.orElse
  cases text with
  | none => rfl
  | some t =>
    dsimp only
    by_cases ht : t = ""
    · rw [if_pos ht]
    · rw [given_eq_some.mpr ⟨rfl, ht⟩] at h
      cases h

theorem orElse_self {text : String} : Deliverables.orElse (some text) text = text := by
  unfold Deliverables.orElse
  dsimp only
  split_ifs with h
  · rfl
  · rfl

variable {c : Conversation}

theorem userConversation_some (h : userConversation db who owner = some c) :
    ∃ id, given who.conversationId = some id ∧
      (db.getConversation (some id)).filter (·.userEmail == owner) = some c := by
  unfold userConversation at h
  cases hid : given who.conversationId with
  | none =>
    have hnone : db.getConversation who.conversationId = none := by
      unfold Database.getConversation
      have hfilter : who.conversationId.filter (· ≠ "") = none := hid
      rw [hfilter]
      rfl
    rw [hnone] at h
    cases h
  | some id =>
    rw [(given_eq_some.mp hid).1] at h
    exact ⟨id, rfl, h⟩

section

variable (hagent : given who.agentId = none) (howner : given who.ownerEmail = some owner)

include hagent howner

theorem ownedContentPredicate_named (hc : userConversation db who owner = some c) :
    ownedContentPredicate k db { who with agentId := some c.agentId } true doc =
      ownedContentPredicate k db who true doc := by
  obtain ⟨id, hid, hfound⟩ := userConversation_some hc
  have htaken : takenAgent db { who with agentId := some c.agentId } owner =
      takenAgent db who owner := by
    unfold takenAgent
    rw [hid]
    dsimp only
    rw [hfound]
    dsimp only
    rw [orElse_self, orElse_of_not_given hagent]
  unfold ownedContentPredicate
  rw [howner]
  dsimp only
  rw [htaken]
  rfl

theorem ownedContentPredicate_of_no_conversation (hc : userConversation db who owner = none) :
    ownedContentPredicate k db who true doc = false := by
  have htaken : takenAgent db who owner = none := by
    unfold takenAgent
    cases hid : given who.conversationId with
    | none => exact hagent
    | some id =>
      have hsame : (db.getConversation (some id)).filter (·.userEmail == owner) = none := by
        rw [← (given_eq_some.mp hid).1]
        exact hc
      dsimp only
      rw [hsame]
  unfold ownedContentPredicate
  rw [howner]
  dsimp only
  rw [htaken]

theorem ownedContentPredicate_of_unnamed (hc : userConversation db who owner = some c)
    (hname : c.agentId = "") :
    ownedContentPredicate k db who true doc = false := by
  obtain ⟨id, hid, hfound⟩ := userConversation_some hc
  have htaken : takenAgent db who owner = none := by
    unfold takenAgent
    rw [hid]
    dsimp only
    rw [hfound]
    dsimp only
    rw [orElse_of_not_given hagent, hname]
    rfl
  unfold ownedContentPredicate
  rw [howner]
  dsimp only
  rw [htaken]

end

theorem ownerEmail_of_owned (howner : given who.ownerEmail = some owner)
    (h : ownedContentPredicate k db who true doc) : doc.ownerEmail = some owner := by
  unfold ownedContentPredicate at h
  rw [howner] at h
  dsimp only at h
  cases hagent : takenAgent db who owner with
  | none =>
    rw [hagent] at h
    cases h
  | some agent =>
    rw [hagent] at h
    dsimp only at h
    split_ifs at h with hsystem
    · cases hcurrent : systemSession db who owner agent with
      | none =>
        rw [hcurrent] at h
        cases h
      | some =>
        rw [hcurrent] at h
        rw [Bool.and_eq_true, beq_iff_eq] at h
        exact h.1
    · rw [Bool.and_eq_true, Bool.and_eq_true, beq_iff_eq] at h
      exact h.1.2

/-- The projects that the conversation's agent works in. -/
abbrev sessionProjects (k : Lookups) (db : Database) (who : Identity) (c : Conversation) :
    List String :=
  contentProjectIds k db who.ownerEmail (some c.agentId) who.conversationId who.sessionId .read

/-- The owner's rules reach a document of the project `p` only if the conversation's agent works
in it, or as this agent's own in a project the user may view; and they reach all that is in the
projects it works in. -/
structure KeepsToProject (k : Lookups) (db : Database) (who : Identity) (owner : String)
    (c : Conversation) (doc : Document) (p : String) : Prop where
  within : ownedContentPredicate k db who true doc = true → p ∈ sessionProjects k db who c ∨
    (isSystemAgent c.agentId = false ∧ doc.ownerAgentId = some c.agentId ∧ ActiveProject db p ∧
      humanMayAccessProjectContent k db (some p) owner .read = true)
  reaches : p ∈ sessionProjects k db who c → ownedContentPredicate k db who true doc = true

def OmittedKeepsToProjects (k : Lookups) (db : Database) (who : Identity) (model : Model) : Prop :=
  ∀ owner c, given who.ownerEmail = some owner → userConversation db who owner = some c →
    ∀ doc ∈ db.documents model, ∀ p, doc.projectId = some p → KeepsToProject k db who owner c doc p

theorem contentReadPredicate_no_project (hagent : given who.agentId = some agent)
    (hproject : doc.projectId = none) :
    contentReadPredicate k db who model .read true doc =
      ownedContentPredicate k db who true doc := by
  have hown : ownProjects k db who model .read true agent doc = false := by
    unfold ownProjects
    cases given who.ownerEmail with
    | none => rfl
    | some =>
      dsimp only
      rw [hproject, Option.any_none, Bool.and_false]
  unfold contentReadPredicate
  rw [hagent]
  dsimp only
  rw [hown, hproject, Option.isNone_none, Option.any_none, Bool.and_true, Bool.or_false,
    Bool.or_false]

theorem selected_eq_iff {other : Identity} :
    selected k db who model .read = selected k db other model .read ↔
      ∀ doc ∈ db.documents model, contentReadPredicate k db who model .read true doc =
        contentReadPredicate k db other model .read true doc := by
  constructor
  · intro h doc hdoc
    apply Bool.eq_iff_iff.mpr
    constructor
    · intro hread
      have hmem : doc ∈ selected k db other model .read := h ▸ mem_selected.mpr ⟨hdoc, hread⟩
      exact (mem_selected.mp hmem).2
    · intro hread
      have hmem : doc ∈ selected k db who model .read := h ▸ mem_selected.mpr ⟨hdoc, hread⟩
      exact (mem_selected.mp hmem).2
  · intro h
    exact filter_congr h

section

variable {c : Conversation} (howner : given who.ownerEmail = some owner)
  (hc : userConversation db who owner = some c)
include howner hc

theorem named_reads_iff (hdoc : doc ∈ db.documents model) (hproject : doc.projectId = some p) :
    contentReadPredicate k db { who with agentId := some c.agentId } model .read true doc ↔
      c.agentId ≠ "" ∧
        NamedReads k db { who with agentId := some c.agentId } owner c.agentId doc p := by
  by_cases hname : c.agentId = ""
  · have homitted : given (some c.agentId) = none := by
      rw [hname]
      rfl
    have hfalse : ownedContentPredicate k db { who with agentId := some c.agentId } true doc =
        false := ownedContentPredicate_of_unnamed homitted howner hc hname
    have heq :
      contentReadPredicate k db { who with agentId := some c.agentId } model .read true doc =
        ownedContentPredicate k db { who with agentId := some c.agentId } true doc :=
      contentReadPredicate_omitted homitted
    rw [heq, hfalse]
    constructor
    · intro h
      cases h
    · intro h
      exact absurd hname h.1
  · have hgiven : given (some c.agentId) = some c.agentId := given_eq_some.mpr ⟨rfl, hname⟩
    have hiff : contentReadPredicate k db { who with agentId := some c.agentId } model .read true
        doc ↔ NamedReads k db { who with agentId := some c.agentId } owner c.agentId doc p :=
      contentReadPredicate_named hgiven hdoc howner hproject
    rw [hiff]
    constructor
    · intro h
      exact ⟨hname, h⟩
    · intro h
      exact h.2

variable (hagent : given who.agentId = none)
include hagent

/-- Without the agent a document of a project is read as with it, if the rules keep to the
project. -/
theorem keepsToProject_iff : KeepsToProject k db who owner c doc p ↔
      (ownedContentPredicate k db who true doc ↔ c.agentId ≠ "" ∧
          NamedReads k db { who with agentId := some c.agentId } owner c.agentId doc p) := by
  have hsame : ownedContentPredicate k db { who with agentId := some c.agentId } true doc =
      ownedContentPredicate k db who true doc := ownedContentPredicate_named hagent howner hc
  have hdirect : directlyOwned k db { who with agentId := some c.agentId } true c.agentId doc =
      true ↔ ownedContentPredicate k db who true doc ∧
        doc.ownerAgentId = some c.agentId := by
    rw [directlyOwned_iff, hsame]
    constructor
    · intro h
      exact ⟨h.1, h.2.2⟩
    · intro h
      refine ⟨h.1, ?_, h.2⟩
      rw [ownerEmail_of_owned howner h.1]
      exact (given_eq_some.mp howner).1.symm
  constructor
  · intro h
    constructor
    · intro howned
      constructor
      · intro hname
        rw [ownedContentPredicate_of_unnamed hagent howner hc hname] at howned
        cases howned
      · rcases h.within howned with hids | ⟨hprimary, hmine, hactive, hview⟩
        · exact .inl hids
        · exact .inr ⟨hprimary, hdirect.mpr ⟨howned, hmine⟩, hactive, hview⟩
    · rintro ⟨-, hids | ⟨-, hown, -, -⟩⟩
      · exact h.reaches hids
      · exact (hdirect.mp hown).1
  · intro h
    constructor
    · intro howned
      rcases (h.mp howned).2 with hids | ⟨hprimary, hown, hactive, hview⟩
      · exact .inl hids
      · exact .inr ⟨hprimary, (hdirect.mp hown).2, hactive, hview⟩
    · intro hids
      obtain ⟨-, agent, -, hgiven, -, -, -⟩ := of_mem_contentProjectIds hids
      obtain ⟨hname, hne⟩ := given_eq_some.mp hgiven
      rw [← Option.some.inj hname] at hne
      exact h.mpr ⟨hne, .inl hids⟩

theorem named_eq_of_no_project (hproject : doc.projectId = none) :
    contentReadPredicate k db who model .read true doc =
      contentReadPredicate k db { who with agentId := some c.agentId } model .read true doc := by
  rw [contentReadPredicate_omitted hagent, ← ownedContentPredicate_named hagent howner hc]
  cases hgiven : given (some c.agentId) with
  | none => exact (contentReadPredicate_omitted hgiven).symm
  | some => exact (contentReadPredicate_no_project hgiven hproject).symm

theorem selected_named_iff : selected k db who model .read =
        selected k db { who with agentId := some c.agentId } model .read ↔
      ∀ doc ∈ db.documents model, ∀ p, doc.projectId = some p →
        KeepsToProject k db who owner c doc p := by
  rw [selected_eq_iff]
  constructor
  · intro h doc hdoc p hproject
    rw [keepsToProject_iff howner hc hagent, ← named_reads_iff howner hc hdoc hproject,
      ← h doc hdoc,
      contentReadPredicate_omitted hagent]
  · intro h doc hdoc
    cases hproject : doc.projectId with
    | none => exact named_eq_of_no_project howner hc hagent hproject
    | some p =>
      apply Bool.eq_iff_iff.mpr
      have hkeeps := (keepsToProject_iff howner hc hagent).mp (h doc hdoc p hproject)
      rw [named_reads_iff howner hc hdoc hproject, ← hkeeps, contentReadPredicate_omitted hagent]

end

theorem RespectsProject.of_named {name : Option String}
    (h : RespectsProject k db { who with agentId := name } owner agent doc p) :
    RespectsProject k db who owner agent doc p := by
  refine ⟨h.active, h.viewer, ?_⟩
  rcases h.allowed with hown | hworks
  · exact .inl hown
  · exact .inr ⟨hworks.acts, hworks.context⟩

theorem owner_of_selected (h : doc ∈ selected k db who model .read) :
    ∃ owner, given who.ownerEmail = some owner := by
  cases howner : given who.ownerEmail with
  | none =>
    rw [selected_of_no_owner howner] at h
    cases h
  | some owner => exact ⟨owner, rfl⟩

theorem IsolatedReads.of_named (hagent : given who.agentId = some agent) :
    IsolatedReads k db who model := by
  constructor
  · intro doc hdoc p hproject
    obtain ⟨owner, howner⟩ := owner_of_selected hdoc
    obtain ⟨hmem, hread⟩ := mem_selected.mp hdoc
    have hreads := (contentReadPredicate_named hagent hmem howner hproject).mp hread
    refine ⟨owner, agent, howner, ?_, hreads.respectsProject howner (given_eq_some.mp hagent).2⟩
    unfold readingAgent
    rw [hagent]
  · intro owner c _ hnone
    rw [hagent] at hnone
    cases hnone

theorem IsolatedReads.of_omitted (hagent : given who.agentId = none)
    (h : OmittedKeepsToProjects k db who model) : IsolatedReads k db who model := by
  constructor
  · intro doc hdoc p hproject
    obtain ⟨owner, howner⟩ := owner_of_selected hdoc
    obtain ⟨hmem, hread⟩ := mem_selected.mp hdoc
    rw [contentReadPredicate_omitted hagent] at hread
    cases hc : userConversation db who owner with
    | none =>
      rw [ownedContentPredicate_of_no_conversation hagent howner hc] at hread
      cases hread
    | some c =>
      have hkeeps := h owner c howner hc doc hmem p hproject
      obtain ⟨hname, hreads⟩ := ((keepsToProject_iff howner hc hagent).mp hkeeps).mp hread
      have hnamed : given ({ who with agentId := some c.agentId } : Identity).ownerEmail =
        some owner := howner
      have hrespects : RespectsProject k db who owner c.agentId doc p :=
        (hreads.respectsProject hnamed hname).of_named
      refine ⟨owner, c.agentId, howner, ?_, hrespects⟩
      unfold readingAgent
      rw [hagent, hc]
      exact given_eq_some.mpr ⟨rfl, hname⟩
  · intro owner c howner _ hc
    exact (selected_named_iff howner hc hagent).mpr (h owner c howner hc)

/-- Reads are isolated if the caller names the agent, and without it only where the owner's
rules keep to the projects of the conversation's agent by themselves. -/
theorem isolatedReads_iff (k : Lookups) (db : Database) (who : Identity) (model : Model) :
    IsolatedReads k db who model ↔
      (given who.agentId).isSome ∨ OmittedKeepsToProjects k db who model := by
  constructor
  · intro h
    cases hagent : given who.agentId with
    | some => exact .inl rfl
    | none =>
      right
      intro owner c howner hc
      exact (selected_named_iff howner hc hagent).mp (h.2 owner c howner hagent hc)
  · intro h
    cases hagent : given who.agentId with
    | some => exact .of_named hagent
    | none =>
      rcases h with hnamed | hkeeps
      · rw [hagent] at hnamed
        cases hnamed
      · exact .of_omitted hagent hkeeps

def noLookups : Lookups where
  projectRole := fun _ _ _ => none
  agentUsableInProject := fun _ _ _ _ => false
  agentUseGrant := fun _ _ _ _ => false
  availableKnowledgebases := fun _ _ _ => []
  lower := id

def grantedDocument : ArtifactRecordRow where
  artifactId := "att-photo"
  ownerEmail := some "ann"
  ownerAgentId := some "painter"
  projectId := some "home"

def leftProject : Database where
  conversations := [{ conversationId := "chat", userEmail := "ann", agentId := "butler" }]
  agents := [{ agentId := "butler", ownerEmail := "ann" }]
  projects := [{ projectId := "home" }]
  grants := [{ ownerEmail := "ann", contentRef := "att-photo", agentId := "butler" }]
  artifacts := [grantedDocument]

def hydration : Identity := ⟨some "ann", none, some "chat", none⟩

/-- The document is read without any role in its project. -/
theorem omitted_agent_leaks : ¬ IsolatedReads noLookups leftProject hydration .artifact := by
  intro h
  have hread :
    grantedDocument.document ∈ selected noLookups leftProject hydration .artifact .read := by
    decide
  obtain ⟨owner, agent, -, -, hrespects⟩ := h.1 _ hread "home" rfl
  have hviewer : roleSatisfies none .read := hrespects.viewer
  cases hviewer

end Cognis.Documents
