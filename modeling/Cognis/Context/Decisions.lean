import Cognis.Context.Projection

namespace Cognis.Context

/-- What a durable decision does, with its parameters. -/
inductive Operation where
  | omitToolGroup
  | clearArguments (threshold : Int)
  | compactDelegationResult
  | compactResult
  | compactAttachment
  | omitEvent (eventSeq : Int)
  deriving DecidableEq

structure Decision where
  operation : Operation
  renderingPolicyVersion : Nat
  deriving DecidableEq

/-- The decisions of a projection, each with the key it is filed under, in the
order they were made. -/
abbrev Decisions := List (String × Decision)

def projectionRenderingPolicyVersion : Nat := 1

/-- `decisions.get(key, [])`. -/
def Decisions.get (ds : Decisions) (key : String) : List Decision :=
  (ds.filter (·.1 = key)).map Prod.snd

section

variable (k : Codec)

/-- `add`: a decision is filed once, and none without a key. -/
def addDecision (ds : Decisions) (key : Option String) (operation : Operation)
    (version : Nat) : Decisions :=
  match key with
  | none => ds
  | some key =>
    if key = "" ∨ (key, ⟨operation, version⟩) ∈ ds then ds
    else ds ++ [(key, ⟨operation, version⟩)]

def ToolCall.recordedArguments : ToolCall → Option String
  | .call _ _ (some f) =>
    match f.arguments with
    | some (.str s) => some s
    | some (.obj members) => some (k.dumps (.obj members))
    | _ => none
  | _ => none

def callArguments (ms : List Message) : List (String × String) :=
  (ms.flatMap fun m => m.toolCalls.getD []).filterMap fun call =>
    match call.key, call.recordedArguments k with
    | some key, some args => some (key, args)
    | _, _ => none

/-- The value the dict ends up with. -/
def lastArguments (calls : List (String × String)) (key : String) : Option String :=
  calls.reverse.lookup key

def recordOmittedGroups (before : List Message) (after : List (String × String))
    (ds : Decisions) : Decisions :=
  (collectToolGroups before).foldl (fun ds g =>
    if g.callIds.all (fun id => (lastArguments after id).isNone) then
      addDecision ds (g.callIds.insertionSort (· ≤ ·)).head? .omitToolGroup
        projectionRenderingPolicyVersion
    else ds) ds

def recordClearedArguments (before after : List (String × String)) (threshold : Int)
    (ds : Decisions) : Decisions :=
  before.foldl (fun ds call =>
    match lastArguments after call.1 with
    | some args =>
      if some args ≠ lastArguments before call.1 then
        addDecision ds (some call.1) (.clearArguments threshold) projectionRenderingPolicyVersion
      else ds
    | none => ds) ds

def recordCompacted (ds : Decisions) (m : Message) : Decisions :=
  if m.projectedCompacted = false then ds
  else if m.delegationResultReplay then
    addDecision ds m.recoveryCallId .compactDelegationResult projectionRenderingPolicyVersion
  else if m.role = .tool then
    addDecision ds m.toolCallId .compactResult (m.compactResultRenderingVersion.getD 1)
  else if m.toolAttachmentContext then
    addDecision ds m.attachmentKey .compactAttachment projectionRenderingPolicyVersion
  else ds

def eventSeqs (ms : List Message) : List Int := (ms.flatMap (·.projectionEventSeqs)).filter (0 < ·)

def omittedGroupIndices (before : List Message) (after : List (String × String)) : List Nat :=
  ((collectToolGroups before).filter fun g =>
    g.callIds.all fun id => (lastArguments after id).isNone).flatMap (·.messageIndices)

def recordOmittedEvents (before after : List Message) (omitted : List Nat) (ds : Decisions) :
    Decisions :=
  let kept := (before.zipIdx.filter (!omitted.contains ·.2)).map Prod.fst
  let gone := (eventSeqs kept).filter (!(eventSeqs after).contains ·)
  (gone.insertionSort (· ≤ ·)).foldl (fun ds seq =>
    addDecision ds (some ("event:" ++ toString seq)) (.omitEvent seq)
      projectionRenderingPolicyVersion) ds

/-- `projection_decisions_from_diff`; `reused` says that both lists hold the very
same objects. -/
def projectionDecisionsFromDiff (before after : List Message) (reused : Bool)
    (threshold : Int) : Decisions :=
  if reused then []
  else
    let beforeCalls := callArguments k before
    let afterCalls := callArguments k after
    recordOmittedEvents before after (omittedGroupIndices before afterCalls)
      (after.foldl recordCompacted (recordClearedArguments beforeCalls afterCalls threshold
          (recordOmittedGroups before afterCalls [])))

end

section

variable (k : Codec) (ds : Decisions)

def omittedCalls : List String :=
  (ds.filter fun p => p.2 = ⟨.omitToolGroup, projectionRenderingPolicyVersion⟩).map Prod.fst

def omittedIndices (ms : List Message) : List Nat :=
  ((collectToolGroups ms).filter fun g => g.callIds.any (omittedCalls ds).contains).flatMap
    (·.messageIndices)

def omittedEventSeqs : List Int :=
  ds.filterMap fun p =>
    match p.2.operation with
    | .omitEvent seq => if p.1.startsWith "event:" ∧ 0 < seq then some seq else none
    | _ => none

variable (m : Message)

def forceDelegationReplay : Message :=
  { m with content := .str (delegationPlaceholder k m), projectedCompacted := true }

def applyToReplay : Message :=
  ((m.recoveryCallId.map ds.get).getD []).foldl (fun updated d =>
    if d = ⟨.compactDelegationResult, projectionRenderingPolicyVersion⟩ then
      forceDelegationReplay k m
    else updated) m

def applyToResult : Message :=
  ((m.toolCallId.map ds.get).getD []).foldl (fun updated d =>
    if d.operation = .compactResult ∧ (d.renderingPolicyVersion = 1 ∨
          d.renderingPolicyVersion = compactResultRenderingPolicyVersion) ∧
        updated.projectedCompacted = false then
      compactToolResult k m d.renderingPolicyVersion
    else updated) m

def applyToCall (call : ToolCall) : ToolCall :=
  ((call.key.map ds.get).getD []).foldl (fun updated d =>
    match d.operation with
    | .clearArguments threshold =>
      if d.renderingPolicyVersion = projectionRenderingPolicyVersion ∧ 1 ≤ threshold then
        if clearCall k threshold call ≠ call then clearCall k threshold call else updated
      else updated
    | _ => updated) call

def applyToAttachment : Message :=
  ((m.attachmentKey.map ds.get).getD []).foldl (fun updated d =>
    if d = ⟨.compactAttachment, projectionRenderingPolicyVersion⟩ ∧
        updated.projectedCompacted = false then
      compactToolAttachment m
    else updated) m

def applyToMessage : Message :=
  if m.delegationResultReplay then applyToReplay k ds m
  else if m.role = .tool then applyToResult k ds m
  else
    match m.toolCalls with
    | some calls => { m with toolCalls := some (calls.map (applyToCall k ds)) }
    | none => if m.toolAttachmentContext then applyToAttachment ds m else m

def applyProjectionDecisions (ms : List Message) : List Message :=
  if ds = [] then ms
  else
    let kept := ms.zipIdx.filter fun p =>
      !(omittedIndices ds ms).contains p.2 && !(p.1.projectionEventSeqs ≠ [] &&
          p.1.projectionEventSeqs.all (omittedEventSeqs ds).contains)
    kept.map fun p => applyToMessage k ds p.1

end

end Cognis.Context
