import Mathlib.Algebra.GroupWithZero.Nat
import Cognis.Context.Message

namespace Cognis.Context

/-! A function that the source leaves to its caller's token counter takes it as
`count`. Negative settings of a policy are clamped to zero before their use. -/

inductive PressureMode where
  | normal
  | pressure
  | critical
  deriving DecidableEq

def argClearThreshold : Int := 6000

def argStructuredPreviewChars : Nat := 500

/-- The settings of a `ProjectionPolicy` that the projection reads. -/
structure ProjectionPolicy where
  pressureMode : PressureMode
  preserveRecentCompletedToolGroups : Nat
  preserveRecentCompletedToolTokens : Nat
  maxHistoricalToolResultTokens : Nat
  argClearThreshold : Int := Context.argClearThreshold

section

variable (k : Codec)

/-- `call.get("id") or call.get("call_id")`. -/
def ToolCall.key : ToolCall → Option String
  | .call id callId _ => orElse id callId
  | .other _ => none

def callIdsOf (calls : List ToolCall) : List String :=
  (calls.filterMap fun call => call.key.filter (· ≠ "")).eraseDups

def clearedPreview (raw : JsonValue) (text : String) : JsonValue.Members :=
  let cleared : JsonValue.Members :=
    [("_cleared", .str ("[Arguments cleared - " ++ toString text.length ++ " chars]"))]
  let parsed : Option JsonValue :=
    match raw with
    | .obj members => some (.obj members)
    | .str s => k.loads s
    | _ => none
  match parsed with
  | some (.obj members) =>
    let located := ["file_path", "path", "source_path", "target_path"].foldl (fun preview key =>
      match JsonValue.get? members key with
      | some (.str value) => if value ≠ "" then JsonValue.insert preview key
          (.str value) else preview
      | _ => preview) cleared
    match members.find? fun p =>
        (match p.2 with | .str _ => true | _ => false) && (JsonValue.get? located p.1).isNone with
    | some (key, .str value) =>
      let preview := JsonValue.insert located (key ++ "_preview")
        (.str (String.ofList (value.toList.take argStructuredPreviewChars)))
      if argStructuredPreviewChars < value.length then
        JsonValue.insert preview (key ++ "_preview_truncated") (.bool true)
      else preview
    | _ => located
  | _ =>
    let preview := JsonValue.insert cleared "arguments_preview"
      (.str (String.ofList (text.toList.take argStructuredPreviewChars)))
    if argStructuredPreviewChars < text.length then
      JsonValue.insert preview "arguments_preview_truncated" (.bool true)
    else preview

def ToolFunction.text (f : ToolFunction) : String :=
  match f.arguments.getD (.obj []) with
  | .str s => s
  | value => k.dumps value

/-- One call of `clear_large_tool_call_arguments`. -/
def clearCall (threshold : Int) (call : ToolCall) : ToolCall :=
  match call with
  | .call id callId (some f) =>
    if (f.text k).length ≤ threshold then call
    else
      .call id callId (some { f with
        arguments := some (.str
          (k.dumps (.obj (clearedPreview k (f.arguments.getD (.obj [])) (f.text k))))) })
  | _ => call

def clearLargeToolCallArguments (threshold : Int) (m : Message) : Message :=
  { m with toolCalls := m.toolCalls.map (·.map (clearCall k threshold)) }

end

section

structure ToolGroup where
  assistantIndex : Nat
  messageIndices : List Nat
  callIds : List String
  completed : Bool
  protectedGroup : Bool

variable (m : Message)

def Message.isResultOf (ids : List String) : Bool :=
  m.role = .tool && m.toolCallId.any ids.contains

def Message.isAttachmentOf (ids : List String) : Bool :=
  m.toolAttachmentContext && (m.attachmentCallId.any ids.contains || m.toolCallId.any ids.contains)

/-- The messages after an assistant's that belong to its calls: their positions,
the calls with a result, and whether one is protected. -/
def followGroup (ids : List String) : Nat → List Message → List Nat × List String × Bool
  | _, [] => ([], [], false)
  | i, m :: rest =>
    if m.isResultOf ids then
      let (indices, seen, isProtected) := followGroup ids (i + 1) rest
      (i :: indices, m.toolCallId.toList ++ seen, m.protectedToolOutput || isProtected)
    else if m.isAttachmentOf ids then
      let (indices, seen, isProtected) := followGroup ids (i + 1) rest
      (i :: indices, seen, isProtected)
    else ([], [], false)

def groupAt (i : Nat) (m : Message) (rest : List Message) : Option ToolGroup :=
  if m.role = .assistant then
    match m.toolCalls with
    | none => none
    | some calls =>
      let ids := callIdsOf calls
      if ids = [] then none
      else
        let (indices, seen, isProtected) := followGroup ids (i + 1) rest
        some ⟨i, i :: indices, ids, ids.all seen.contains, isProtected⟩
  else none

def collectToolGroupsFrom : Nat → List Message → List ToolGroup
  | _, [] => []
  | i, m :: rest => (groupAt i m rest).toList ++ collectToolGroupsFrom (i + 1) rest

variable (ms : List Message)

def collectToolGroups : List ToolGroup := collectToolGroupsFrom 0 ms

/-- `_group_anchor`. -/
def ToolGroup.anchor (k : Codec) (g : ToolGroup) : String :=
  k.digest (",".intercalate (g.callIds.insertionSort (· ≤ ·)))

def Message.isRealTurnBoundary : Bool :=
  m.turnBoundary || (m.role = .user && !m.toolAttachmentContext)

def latestRealUserIndex : Nat :=
  match ms.reverse.findIdx? Message.isRealTurnBoundary with
  | some back => ms.length - 1 - back
  | none => ms.length

def Message.assistantCallIds : List String :=
  if m.role = .assistant then callIdsOf (m.toolCalls.getD []) else []

def latestTurnHasUnresolvedToolCall (start : Nat) : Bool :=
  let turn := ms.drop start
  let completed := (turn.filter (·.role = .tool)).filterMap (·.toolCallId)
  (turn.flatMap Message.assistantCallIds).any (!completed.contains ·)

end

section

variable (k : Codec) (count : String → Nat)

/-- `_get_message_token_estimate`. -/
def Message.estimate (m : Message) : Nat :=
  match m.tokenEstimate with
  | some tokens => tokens
  | none =>
    let body :=
      match m.content with
      | .str s => count s
      | .arr items => count (k.dumps (.arr items))
      | _ => 0
    let args : ToolCall → Nat := fun call =>
      match call with
      | .other _ => 0
      | .call _ _ f =>
        match f.bind (·.arguments) with
        | none => count ""
        | some (.str s) => count s
        | some value => count (k.dumps value)
    body + ((m.toolCalls.getD []).map args).sum

def estimatedGroupTokens (ms : List Message) (g : ToolGroup) : Nat :=
  (g.messageIndices.map fun i => (ms[i]?.map (Message.estimate k count)).getD 0).sum

def compactInGroup (threshold : Int) (g : ToolGroup) (i : Nat) (m : Message) : Message :=
  if i = g.assistantIndex then clearLargeToolCallArguments k threshold m
  else if m.role = .tool then
    if compactionShrinksToolResult k m then
      compactToolResult k m compactResultRenderingPolicyVersion
    else m
  else if m.toolAttachmentContext then compactToolAttachment m
  else m

def estimatedGroupCompactionSavings (ms : List Message) (g : ToolGroup) (threshold : Int) : Nat :=
  let projected := g.messageIndices.filterMap fun i =>
    ms[i]?.map fun m => { compactInGroup k threshold g i m with tokenEstimate := none }
  max 1 (estimatedGroupTokens k count ms g - (projected.map (Message.estimate k count)).sum)

/-- The oldest groups go until the rest fits the budget; the last `keep` stay
however large they are. -/
def dropOldest (ms : List Message) (budget keep : Nat) : List ToolGroup → List ToolGroup
  | [] => []
  | g :: gs =>
    if keep < (g :: gs).length ∧ budget < ((g :: gs).map (estimatedGroupTokens k count ms)).sum then
      dropOldest ms budget keep gs
    else g :: gs

def tokenCappedGroups (ms : List Message) (budget : Nat) (gs : List ToolGroup) : List ToolGroup :=
  if budget = 0 then [] else dropOldest k count ms budget 0 gs

/-- `_group_has_oversized_recoverable_tool_result`. -/
def hasOversizedRecoverableToolResult (ms : List Message) (limit : Nat) (g : ToolGroup) : Bool :=
  limit ≠ 0 && g.messageIndices.any fun i =>
    ms[i]?.any fun m =>
      m.role = .tool && !m.protectedToolOutput && m.hasRecoveryHandle && limit < m.estimate k count

/-- `_group_has_recoverable_tool_results`. -/
def hasRecoverableToolResults (ms : List Message) (g : ToolGroup) : Bool :=
  let results := (g.messageIndices.filterMap (ms[·]?)).filter (·.role = .tool)
  results ≠ [] && results.all fun m => m.projectedCompacted || m.hasRecoveryHandle

/-- One message of `_compact_prunable_delegation_replays`; a compacted one keeps
the estimate it was measured by. -/
def compactDelegationReplay (limit : Nat) (m : Message) : Message :=
  if m.delegationResultReplay && limit < m.estimate k count then
    { m with
      content := .str (delegationPlaceholder k m)
      projectedCompacted := true
      tokenEstimate := some (m.estimate k count) }
  else m

/-- `_compact_prunable_delegation_replays`, and whether it changed a message. -/
def compactPrunableDelegationReplays (limit : Nat) (ms : List Message) : List Message × Bool :=
  if limit = 0 then (ms, false)
  else
    (ms.map (compactDelegationReplay k count limit),
      ms.any fun m => m.delegationResultReplay && limit < m.estimate k count)

end

structure ProjectionTurnState where
  committedPreservations : List String := []
  demotedAnchors : List String := []
  recoveryResultCallIds : List String := []

structure ProjectionResult where
  messages : List Message
  mutableStartIndex : Nat
  /-- Every message is the very object that was passed in. -/
  reused : Bool

structure ProjectionRequest where
  policy : ProjectionPolicy
  requiredSavingsTokens : Option Int := none
  allowUnrecoverableProjection : Bool := false

def ProjectionRequest.savingsTarget (r : ProjectionRequest) : Option Nat :=
  r.requiredSavingsTokens.map Int.toNat

def ProjectionRequest.isCritical (r : ProjectionRequest) : Bool := r.policy.pressureMode = .critical

section

variable (k : Codec) (count : String → Nat) (r : ProjectionRequest) (ms : List Message)

/-- The groups a projection may compact: completed, unprotected, and of an
earlier turn unless there is pressure. -/
def completedGroups : List ToolGroup :=
  (collectToolGroups ms).filter fun g =>
    g.completed && !g.protectedGroup &&
      (g.assistantIndex < latestRealUserIndex ms || r.policy.pressureMode ≠ .normal)

def settledLatestTurnGroups : List ToolGroup :=
  if latestTurnHasUnresolvedToolCall ms (latestRealUserIndex ms) then []
  else (completedGroups r ms).filter (latestRealUserIndex ms ≤ ·.assistantIndex)

/-- `completed_groups[-n:]`, of no more tokens than the policy preserves. -/
def preservedSlice : List ToolGroup :=
  let recent := (completedGroups r ms).drop
    ((completedGroups r ms).length - r.policy.preserveRecentCompletedToolGroups)
  if r.policy.preserveRecentCompletedToolTokens = 0 then recent
  else dropOldest k count ms r.policy.preserveRecentCompletedToolTokens 1 recent

def recoveryPinGroups (st : ProjectionTurnState) (ms : List Message) : List ToolGroup :=
  tokenCappedGroups k count ms (r.policy.preserveRecentCompletedToolTokens * 2 / 5)
    ((completedGroups r ms).filter fun g => g.callIds.any st.recoveryResultCallIds.contains)

def preservedIndices (st : ProjectionTurnState) (ms : List Message) : List Nat :=
  let pins := (recoveryPinGroups k count r st ms).map (·.assistantIndex)
  if r.isCritical then
    let latest := settledLatestTurnGroups r ms
    let recent :=
      if r.policy.preserveRecentCompletedToolGroups = 0 then latest
      else latest.drop (latest.length - r.policy.preserveRecentCompletedToolGroups)
    (tokenCappedGroups k count ms r.policy.preserveRecentCompletedToolTokens recent).map
      (·.assistantIndex) ++ pins
  else
    let latest := (settledLatestTurnGroups r ms).getLast?.toList.map (·.assistantIndex)
    let recent :=
      if r.savingsTarget.isSome then (completedGroups r ms).map (·.assistantIndex)
      else
        ((preservedSlice k count r ms).filter fun g =>
          !hasOversizedRecoverableToolResult k count ms r.policy.maxHistoricalToolResultTokens
            g).map
            (·.assistantIndex)
    let committed := (collectToolGroups ms).filter fun g =>
      st.committedPreservations.contains (g.anchor k)
    recent ++ latest ++ committed.map (·.assistantIndex) ++ pins

def undemotedIndices (st : ProjectionTurnState) (ms : List Message) : List Nat :=
  let demoted := (collectToolGroups ms).filter fun g => st.demotedAnchors.contains (g.anchor k)
  (preservedIndices k count r st ms).filter (!(demoted.map (·.assistantIndex)).contains ·)

/-- The loop that gives up preserved groups, the oldest first, until enough is
saved. -/
def spendSavings (st : ProjectionTurnState) (ms : List Message) (pins : List Nat) (target : Nat) :
    Nat → List Nat → List ToolGroup → List Nat
  | _, preserved, [] => preserved
  | saved, preserved, g :: gs =>
    if target ≤ saved then preserved
    else if !preserved.contains g.assistantIndex ||
        st.committedPreservations.contains (g.anchor k) || pins.contains g.assistantIndex ||
        (!r.allowUnrecoverableProjection && !hasRecoverableToolResults ms g) then
      spendSavings st ms pins target saved preserved gs
    else
      spendSavings st ms pins target
        (saved + estimatedGroupCompactionSavings k count ms g r.policy.argClearThreshold)
        (preserved.filter (· ≠ g.assistantIndex)) gs

def finallyPreserved (st : ProjectionTurnState) (ms : List Message) : List Nat :=
  let preserved := undemotedIndices k count r st ms
  match r.savingsTarget with
  | some target =>
    if r.isCritical then preserved
    else
      spendSavings k count r st ms ((recoveryPinGroups k count r st ms).map (·.assistantIndex))
        target 0 preserved (completedGroups r ms)
  | none => preserved

/-- The groups a projection compacts: the candidates that are not preserved, and
what the turn has demoted before. -/
def compactedGroups (st : ProjectionTurnState) (ms : List Message) : List ToolGroup :=
  let preserved := finallyPreserved k count r st ms
  let candidates := (completedGroups r ms).map (·.assistantIndex)
  (collectToolGroups ms).filter fun g =>
    (candidates.contains g.assistantIndex && !preserved.contains g.assistantIndex) ||
      (g.completed && !g.protectedGroup && st.demotedAnchors.contains (g.anchor k))

def projectMessage (compacted : List ToolGroup) (i : Nat) (m : Message) : Message :=
  let ids := compacted.flatMap (·.callIds)
  if (compacted.map (·.assistantIndex)).contains i then
    clearLargeToolCallArguments k r.policy.argClearThreshold m
  else if m.isResultOf ids && compactionShrinksToolResult k m then
    compactToolResult k m compactResultRenderingPolicyVersion
  else if m.isAttachmentOf ids then compactToolAttachment m
  else m

def turnStateAfter (st : ProjectionTurnState) (ms : List Message) : ProjectionTurnState :=
  let demoted := (compactedGroups k count r st ms).map (ToolGroup.anchor k)
  let preserved := ((collectToolGroups ms).filter fun g =>
    (finallyPreserved k count r st ms).contains g.assistantIndex).map (ToolGroup.anchor k)
  { st with
    committedPreservations :=
      (if r.isCritical then st.committedPreservations.filter (!demoted.contains ·)
        else st.committedPreservations) ++ preserved
    demotedAnchors := st.demotedAnchors ++ demoted }

/-- `project_messages`, with the turn's sets it leaves behind. -/
def projectMessages (st : ProjectionTurnState) (messages : List Message) :
    ProjectionResult × ProjectionTurnState :=
  let (ms, replaysCompacted) :=
    compactPrunableDelegationReplays k count r.policy.maxHistoricalToolResultTokens messages
  let groups := collectToolGroups ms
  if groups.isEmpty then (⟨ms, 0, !replaysCompacted⟩, st)
  else
    let compacted := compactedGroups k count r st ms
    let st' := turnStateAfter k count r st ms
    if compacted.isEmpty then (⟨ms, 0, !replaysCompacted⟩, st')
    else
      let projected := ms.mapIdx (projectMessage k r compacted)
      let kept := groups.filter fun g =>
        !(compacted.map (·.assistantIndex)).contains g.assistantIndex
      (⟨projected, (kept.map (·.assistantIndex)).head?.getD projected.length, false⟩, st')

end

/-- The settings of `prune_projected_messages`. -/
structure PruneRequest where
  protectTokens : Int
  minimumSavings : Int
  minIndexToModify : Nat := 0
  argClearThreshold : Int := Context.argClearThreshold
  pressureMode : PressureMode := .normal
  recoveryResultCallIds : List String := []
  recoveryPinBudgetTokens : Option Int := none

section

variable (k : Codec) (count : String → Nat) (r : PruneRequest)

def Message.textTokens (m : Message) : Nat :=
  match m.content with
  | .str s => count s
  | _ => 0

/-- `_newest_completed_latest_turn_tool_index`, over the messages of the turn with
their positions, the newest first. -/
def newestCompletedToolIndex : List String → List (Nat × Message) → Option Nat
  | _, [] => none
  | completed, (i, m) :: older =>
    if m.role = .tool then
      if m.protectedToolOutput then
        newestCompletedToolIndex ((m.toolCallId.filter (· ≠ "")).toList ++ completed) older
      else some i
    else if m.assistantCallIds.any (!completed.contains ·) then none
    else newestCompletedToolIndex completed older

def newestFirst (ms : List Message) (start : Nat) : List (Nat × Message) :=
  ((ms.zipIdx.map Prod.swap).drop start).reverse

def dropOldestPins (budget : Nat) : List (Nat × Nat) → List (Nat × Nat)
  | [] => []
  | p :: ps =>
    if budget < ((p :: ps).map Prod.snd).sum then dropOldestPins budget ps else p :: ps

def recoveryPinResultIndices (ms : List Message) : List Nat :=
  let ids := r.recoveryResultCallIds.filter (· ≠ "")
  let candidates := (ms.zipIdx.filter fun p => p.1.isResultOf ids).map fun p =>
    (p.2, p.1.textTokens count)
  let budget := r.recoveryPinBudgetTokens.getD (r.protectTokens * 2 / 5)
  (dropOldestPins budget.toNat candidates).map Prod.fst

def allowLatestTurnPruning (ms : List Message) : Bool :=
  r.pressureMode ≠ .normal && !latestTurnHasUnresolvedToolCall ms (latestRealUserIndex ms)

def prunable (ms : List Message) (i : Nat) (m : Message) : Bool :=
  (i < latestRealUserIndex ms || allowLatestTurnPruning r ms) &&
    newestCompletedToolIndex [] (newestFirst ms (latestRealUserIndex ms)) ≠ some i &&
    m.role = .tool && !m.protectedToolOutput && !m.projectedCompacted &&
    !(recoveryPinResultIndices count r ms).contains i

/-- The walk from the newest result: the protected tokens are spent on the newer
ones, and what does not fit is pruned where that pays. -/
def pruneWalk (ms : List Message) : Nat → List (Nat × Message) → List Nat
  | _, [] => []
  | spent, (i, m) :: older =>
    if prunable count r ms i m then
      if ((spent + m.textTokens count : Nat) : Int) ≤ r.protectTokens then
        pruneWalk ms (spent + m.textTokens count) older
      else if compactionShrinksToolResult k m then i :: pruneWalk ms spent older
      else pruneWalk ms spent older
    else pruneWalk ms spent older

def pruneableResultIndices (ms : List Message) : List Nat :=
  pruneWalk k count r ms 0 (newestFirst ms r.minIndexToModify)

def pruneableCallIds (ms : List Message) : List String :=
  (pruneableResultIndices k count r ms).filterMap fun i =>
    (ms[i]?.bind (·.toolCallId)).filter (· ≠ "")

def pruneRange (ms : List Message) (i : Nat) : Bool :=
  r.minIndexToModify ≤ i && (allowLatestTurnPruning r ms || i < latestRealUserIndex ms)

/-- `json.dumps(tc.get("function", {}).get("arguments", {}))`. -/
def ToolCall.dumpedArguments : ToolCall → Option String
  | .call _ _ f => some (k.dumps ((f.bind (·.arguments)).getD (.obj [])))
  | .other _ => none

variable (ids : List String)

/-- `tc.get("id") in call_ids`. -/
def ToolCall.idIn : ToolCall → Bool
  | .call id _ _ => id.any ids.contains
  | .other _ => false

def prunesCalls (m : Message) : Bool :=
  m.role = .assistant && m.toolCalls.any fun calls =>
    calls.any (ToolCall.idIn ids) &&
      r.argClearThreshold <
        (((calls.filterMap (ToolCall.dumpedArguments k)).map (·.length)).sum : Nat)

def Message.attachmentKey (m : Message) : Option String := orElse m.attachmentCallId m.toolCallId

def prunesAttachment (m : Message) : Bool :=
  m.toolAttachmentContext && !m.projectedCompacted && m.attachmentKey.any ids.contains

def pruneSavings (ms : List Message) : Nat :=
  let ids := pruneableCallIds k count r ms
  let results := (pruneableResultIndices k count r ms).filterMap (ms[·]?)
  let others := (ms.zipIdx.filter fun p => pruneRange r ms p.2).map Prod.fst
  let ofResult : Message → Nat := fun m =>
    match m.content with
    | .str s =>
      count s - count (buildCompactedToolResultPlaceholder k m compactResultRenderingPolicyVersion)
    | _ => 0
  let ofCalls : Message → Nat := fun m =>
    (((m.toolCalls.getD []).filterMap (ToolCall.dumpedArguments k)).map count).sum
  (results.map ofResult).sum + ((others.filter (prunesCalls k r ids)).map ofCalls).sum +
    ((others.filter (prunesAttachment ids)).map fun m => count (k.dumps m.content)).sum

/-- The two loops over assistant messages and attachment contexts; a result that is
also an attachment context is rewritten twice. -/
def pruneMessage (ms : List Message) (i : Nat) (m : Message) : Message :=
  let ids := pruneableCallIds k count r ms
  let pruned :=
    if (pruneableResultIndices k count r ms).contains i then
      compactToolResult k m compactResultRenderingPolicyVersion
    else if pruneRange r ms i && prunesCalls k r ids m then
      clearLargeToolCallArguments k r.argClearThreshold m
    else m
  if pruneRange r ms i && prunesAttachment ids m then compactToolAttachment pruned else pruned

/-- `prune_projected_messages`, and whether it replaced nothing. -/
def pruneProjectedMessages (ms : List Message) : List Message × Bool :=
  if (pruneSavings k count r ms : Int) < r.minimumSavings then (ms, true)
  else
    (ms.mapIdx (pruneMessage k count r ms), pruneableResultIndices k count r ms = [] ∧
        ms.zipIdx.all fun p =>
          !(pruneRange r ms p.2 && (prunesCalls k r (pruneableCallIds k count r ms) p.1 ||
            prunesAttachment (pruneableCallIds k count r ms) p.1)))

end

end Cognis.Context
