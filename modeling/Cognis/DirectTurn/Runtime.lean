import Cognis.DirectTurn.Moves

namespace Cognis.DirectTurn

open JsonValue Coordination

/-- `DIRECT_TURN_LEASE_SECONDS`, in microseconds. -/
def directTurnLease : Int := 30000000

/-- `TOOL_RECOVERY_DEADLINE_SECONDS`, in microseconds. -/
def toolRecoveryDeadline : Int := 60000000

/-- `DIRECT_TURN_CONTROLLER_MAX_ATTEMPTS`. -/
def controllerMaxAttempts : Nat := 3

def DirectTurnStatus.text : DirectTurnStatus → String
  | .queued => "queued"
  | .claimed => "claimed"
  | .running => "running"
  | .absorbing => "absorbing"
  | .recoverable => "recoverable"
  | .completed => "completed"
  | .failed => "failed"
  | .cancelled => "cancelled"
  | .absorbed => "absorbed"
  | .ambiguous => "ambiguous"

variable (outcome : Members) (current : Option DirectTurnRequestRow)

/-- `str(outcome.get("phase") or "claimed")`. -/
def phaseText : String :=
  match get? outcome "phase" with
  | some (.str p) => if p = "" then "claimed" else p
  | _ => "claimed"

def textEntry (key : String) : Members :=
  match get? outcome key with
  | some (.str s) => [(key, .str s)]
  | _ => []

/-- `DirectTurnExecutionFence`. -/
structure ExecutionFence where
  requestId : String
  lease : Lease
  userAppendPhase : Option String := none
  userAppendSessionId : Option String := none

namespace ExecutionFence

variable (f : ExecutionFence)

def toolDispatchMetadata : Members :=
  (f.userAppendPhase.map (fun p => ("user_append_phase", .str p))).toList ++
    (f.userAppendSessionId.map (fun s => ("user_append_session_id", .str s))).toList

/-- `metadata.setdefault` of the user-append state. -/
def checkpointMetadata (metadata : Members) : Members :=
  metadata ++ f.toolDispatchMetadata.filter (fun p => p.1 ∉ metadata.map Prod.fst)

end ExecutionFence

/-- What the execution callback does through its fence. -/
inductive FenceCall where
  | setUserAppendState (phase : String) (sessionId : Option String)
  | checkpoint (phase : String) (metadata : Members)
  | recordToolDispatch (sessionId : String) (turnId : Option String) (descriptors : List JsonValue)
  | completeToolDispatch (sessionId : String) (turnId : Option String) (callIds : List String)
  | bindToolDispatch (sessionId : String) (turnId : Option String) (binding : DispatchBinding)

def FenceCall.call (f : ExecutionFence) : FenceCall → Option Call
  | .setUserAppendState _ _ => none
  | .checkpoint phase metadata =>
    some (.checkpoint f.requestId f.lease phase (f.checkpointMetadata metadata) false)
  | .recordToolDispatch sessionId turnId descriptors =>
    some (.recordToolDispatch f.requestId f.lease sessionId turnId descriptors
      (f.toolDispatchMetadata ++
        [("session_id", .str sessionId), ("turn_id", (turnId.map .str).getD .null)]))
  | .completeToolDispatch sessionId turnId callIds =>
    some (.completeToolDispatch f.requestId f.lease sessionId turnId callIds f.toolDispatchMetadata)
  | .bindToolDispatch sessionId turnId binding =>
    some (.mergeToolDispatch f.requestId f.lease sessionId turnId binding)

def FenceCall.fence (f : ExecutionFence) : FenceCall → ExecutionFence
  | .setUserAppendState phase sessionId =>
    { f with userAppendPhase := some phase, userAppendSessionId := sessionId }
  | _ => f

/-- Where one activity of a controller stands between two of its store calls:
a row in the recovery loop, or an execution. -/
inductive Stage where
  | listed (row : DirectTurnRequestRow)
  | acquired (row : DirectTurnRequestRow) (lease : Lease)
  | recoveringTools (row : DirectTurnRequestRow) (lease : Lease)
      (recoveryRow : DirectTurnRequestRow)
  | toolsRecovered (row : DirectTurnRequestRow) (lease : Lease)
      (recoveryRow : DirectTurnRequestRow)
  | toolsCleared (row : DirectTurnRequestRow) (lease : Lease) (checkpointed : Members)
  | recoveryFailed (row : DirectTurnRequestRow) (lease : Lease) (ambiguous : Option Bool)
      (error : String)
  | starting (row : DirectTurnRequestRow) (lease : Lease)
  | executing (row : DirectTurnRequestRow) (fence : ExecutionFence)
  | busy (row : DirectTurnRequestRow) (lease : Lease) (reason : String)
  | busyRead (row : DirectTurnRequestRow) (lease : Lease) (reason : String)
      (current : Option DirectTurnRequestRow)
  | raised (row : DirectTurnRequestRow) (lease : Lease)
  | raisedRead (row : DirectTurnRequestRow) (lease : Lease)
      (current : Option DirectTurnRequestRow)
  | permanentFailure (row : DirectTurnRequestRow) (lease : Lease) (error : String)
  | cancelled (row : DirectTurnRequestRow) (lease : Lease)
  | releasing (lease : Lease)

structure Activity where
  controllerId : String
  incarnationId : String
  stage : Stage

/-- What the environment decides at a step: the callback, the recovery handler,
the reconciliation of an append, the wall clock. -/
inductive Choice where
  | proceed
  | quarantined
  /-- The append was found, not found, or could not be read. -/
  | reconciled (found : Option Bool)
  /-- A persistence error, ambiguous or not, or any other exception. -/
  | handlerFails (ambiguous : Option Bool) (error : String)
  | ownershipLost
  | fence (call : FenceCall)
  | store (call : Call)
  | returns
  | raisesBusy (reason : String)
  | raisesPermanent (error : String)
  | isCancelled
  | raises

section

variable (row : DirectTurnRequestRow) (lease : Lease)

def staleAmbiguous (reason : String) (extra : Members) : Call :=
  .markStaleAmbiguous row.requestId lease
    ([("phase", .str "ambiguous"), ("reason", .str reason)] ++ extra)

/-- `outcome.get("call_ids") or []`. -/
def recordedCallIds : JsonValue :=
  match get? outcome "call_ids" with
  | some v => if truthy v then v else .arr []
  | none => .arr []

def HasEventType (type : String) : Prop :=
  match get? outcome "event_types" with
  | some (.arr types) => .str type ∈ types
  | _ => False

instance (outcome : Members) (type : String) : Decidable (HasEventType outcome type) :=
  match h : get? outcome "event_types" with
  | some (.arr types) => decidable_of_iff (JsonValue.str type ∈ types) (by simp [HasEventType, h])
  | none | some .null | some (.bool _) | some (.num _) | some (.str _) | some (.obj _) =>
    isFalse (by simp [HasEventType, h])

def recoverAppend (appendPhase : String) : Call :=
  let outcome : Members := [("phase", .str appendPhase), ("user_append_phase", .str appendPhase)] ++
    textEntry row.outcomeDict "session_id"
  match row.status with
  | .claimed => .recoverStaleClaim row.requestId lease (some outcome)
  | .running => .recoverStaleRunning row.requestId lease outcome
  | _ => staleAmbiguous row lease
    ("stale " ++ phaseText row.outcomeDict ++ " in " ++ row.status.text) []

def appendMetadata : Members :=
  outcome.filter
    (fun p => p.1 = "user_append_phase" ∨ p.1 = "user_append_session_id" ∨ p.1 = "session_id")

variable (found : Option Bool)

def staleCanonicalAppend : Call :=
  match found with
  | none => staleAmbiguous row lease "canonical user append could not be reconciled" []
  | some reconciled =>
    if row.status = .absorbing then
      if reconciled then .reconcileStaleAbsorbed row.requestId lease
      else .recoverStaleAbsorbing row.requestId lease
    else recoverAppend row lease (if reconciled then "user_appended" else "user_append_pending")

/-- A stale event append; `none` leaves it to the model boundary. -/
def staleIntarisAppend : Option Call :=
  let outcome := row.outcomeDict
  if HasEventType outcome "tool_call" then
    some (staleAmbiguous row lease "tool call persistence crossed an uncertain dispatch boundary"
      [("call_ids", recordedCallIds outcome)])
  else if HasEventType outcome "tool_result" then
    some (staleAmbiguous row lease "tool result append outcome is uncertain"
      [("call_ids", recordedCallIds outcome)])
  else
    match found with
    | some true =>
      if row.status = .absorbing then some (.reconcileStaleAbsorbed row.requestId lease)
      else if HasEventType outcome "assistant_message" then
        some (.reconcileStaleCompleted row.requestId lease
          [("phase", .str "reconciled_terminal_assistant")])
      else some (.recoverStaleRunning row.requestId lease [("phase", .str "user_appended")])
    | none => some (staleAmbiguous row lease "event append could not be reconciled" [])
    | some false => none

def staleBoundary : Call :=
  if row.status = .absorbing then .recoverStaleAbsorbing row.requestId lease
  else if row.status = .running then
    .recoverStaleRunning row.requestId lease ([("phase", .str "recovered_model_boundary"),
        ("source_phase", .str (phaseText row.outcomeDict))] ++ appendMetadata row.outcomeDict)
  else staleAmbiguous row lease ("stale " ++ phaseText row.outcomeDict) []

/-- The branches of `_recover_stale` past the tool-recovery one, on the row as
it was listed. -/
def staleCall : Call :=
  let phase := phaseText row.outcomeDict
  if phase = "user_appended" then recoverAppend row lease "user_appended"
  else if phase = "canonical_user_append" ∨ phase = "user_append_uncertain" then
    staleCanonicalAppend row lease found
  else if row.status = .claimed then
    .recoverStaleClaim row.requestId lease
      (some (("phase", .str "recovered_pre_model") :: appendMetadata row.outcomeDict))
  else if phase = "intaris_append" then
    (staleIntarisAppend row lease found).getD (staleBoundary row lease)
  else if phase = "model_response" then
    if found = some true then
      .reconcileStaleCompleted row.requestId lease [("phase", .str "reconciled_terminal_assistant")]
    else staleAmbiguous row lease "model response completion could not be reconciled" []
  else staleBoundary row lease

def clearedCheckpoint (recoveryRow : DirectTurnRequestRow) : Call :=
  .checkpoint row.requestId lease "tool_recovery_result_persisted"
    (eraseKeys recoveryRow.outcomeDict
      ["phase", "phase_started_at", "deferred_phase", "tool_dispatch_groups", "tool_calls"]) true

def recoveredOutcome (checkpointed : Members) : Members :=
  JsonValue.update checkpointed [("phase", .str "user_appended"),
    ("user_append_phase", .str "user_appended"),
    ("interruption_reason", .str "tool execution was interrupted after restart"),
    ("tool_recovery_result_persisted", .bool true)]

def recoveryFailedOutcome (ambiguous : Option Bool) (error : String) : Members :=
  match ambiguous with
  | some true => [("phase", .str "ambiguous"), ("code", .str "tool_outcome_ambiguous"),
    ("reason", .str error), ("error", .str error)]
  | some false => [("phase", .str "failed"), ("code", .str "tool_recovery_persistence_failed"),
    ("reason", .str error), ("error", .str error)]
  | none => [("phase", .str "failed"), ("code", .str "tool_recovery_persistence_failed"),
    ("error", .str error)]

end

section

def appendPhases : List String := ["user_append_pending", "user_append_uncertain", "user_appended"]

/-- The append state an earlier attempt left on the row. -/
def priorAppendPhase : Option String :=
  match get? outcome "user_append_phase" with
  | some (.str p) => some p
  | _ => if phaseText outcome ∈ appendPhases then some (phaseText outcome) else none

def priorAppendSessionId : Option String :=
  match get? outcome "user_append_session_id", get? outcome "session_id" with
  | some (.str s), _ => some s
  | _, some (.str s) => some s
  | _, _ => none

variable (row : DirectTurnRequestRow)

/-- The fence `_execute` starts its callback with. -/
def startFence (lease : Lease) : ExecutionFence :=
  match priorAppendPhase row.outcomeDict with
  | some phase => ⟨row.requestId, lease, some phase, priorAppendSessionId row.outcomeDict⟩
  | none => ⟨row.requestId, lease, none, none⟩

def startCheckpoint : FenceCall :=
  let outcome := row.outcomeDict
  if (priorAppendPhase outcome).isSome then
    .checkpoint (phaseText outcome) (eraseKeys outcome ["phase", "phase_started_at"])
  else .checkpoint "claimed" []

/-- `current.outcome`, when there is a current row with a dict outcome. -/
def currentOutcome : Members :=
  (current.map (·.outcomeDict)).getD []

def PreservesAppend : Prop :=
  textEntry outcome "user_append_phase" ≠ [] ∨ phaseText outcome ∈ appendPhases

instance (outcome : Members) : Decidable (PreservesAppend outcome) :=
  inferInstanceAs (Decidable (_ ∨ _))

def busyOutcome (reason : String) : Members :=
  JsonValue.update (currentOutcome current)
    [("phase", .str "local_turn_busy"), ("local_busy_reason", .str reason)]

def raisedOutcome : Members :=
  if PreservesAppend (currentOutcome current) then currentOutcome current else []

def raisedCall (lease : Lease)
    (current : Option DirectTurnRequestRow) : Call :=
  if (current.map (·.attemptCount)).any (controllerMaxAttempts ≤ ·) then
    .markTerminal row.requestId lease .failed (some (JsonValue.update (raisedOutcome current)
      [("phase", .str "permanent_payload_visibility_pending"), ("failure_kind", .str "controller"),
        ("error", .str "Direct turn controller execution failed.")]))
  else
    .markRecoverable row.requestId lease
      (some (JsonValue.update (raisedOutcome current) [("phase", .str "controller_error")]))

end

/-- Calls made outside the runtime's own loops: admission and cancellation,
operators, lease traffic, and the scheduler's transient settlement. -/
def Call.external : Call → Bool
  | .admitRequest _ | .edit .. | .handoff .. | .cancelConversation .. | .requestCancel _
  | .expediteProviderRetry .. | .completeFailureVisibility _ | .resolveStaleToolAmbiguous _
  | .leaseCall _ | .settleTransientFailure .. => true
  | _ => false

def Call.byCallback : Call → Bool
  | .markRunning .. | .markTerminal .. | .markRecoverable .. | .settleTransientFailure ..
  | .beginAbsorb .. | .markAbsorbed .. | .admitRequest _ | .handoff .. => true
  | .checkpoint _ _ _ _ clear => !clear
  | _ => false

namespace Stage

def call (controllerId incarnationId : String) : Stage → Choice → Option Call
  | .listed row, .proceed =>
    some (.leaseCall (.acquire (conversationLeaseKey row.conversationId)
      (ownerId controllerId incarnationId) directTurnLease))
  | .acquired row lease, choice =>
    if row.cancelRequestedAt.isSome then some (.cancelStaleActive row.requestId lease)
    else if phaseText row.outcomeDict = toolInFlightPhase then
      some (.beginToolRecovery row.requestId lease controllerId incarnationId toolRecoveryDeadline)
    else
      match choice with
      | .reconciled found => some (staleCall row lease found)
      | _ => none
  | .toolsRecovered row lease recoveryRow, .proceed =>
      some (clearedCheckpoint row lease recoveryRow)
  | .toolsCleared row lease checkpointed, .proceed =>
    some (.finishToolRecovery row.requestId lease (recoveredOutcome checkpointed))
  | .recoveryFailed row lease ambiguous error, .proceed =>
    some (.markToolRecoveryTerminal row.requestId lease
      (if ambiguous = some true then .ambiguous else .failed)
        (recoveryFailedOutcome ambiguous error))
  | .starting row lease, .proceed => (startCheckpoint row).call (startFence row lease)
  | .executing _ fence, .fence op => op.call fence
  | .executing _ _, .store call => if call.byCallback then some call else none
  | .busyRead row lease reason current, .proceed =>
    some (.markRecoverable row.requestId lease (some (busyOutcome current reason)))
  | .raisedRead row lease current, .proceed => some (raisedCall row lease current)
  | .permanentFailure row lease error, .proceed =>
    some (.markTerminal row.requestId lease .failed
      (some [("phase", .str "permanent_payload_visibility_pending"), ("error", .str error)]))
  | .cancelled row lease, .proceed =>
    some (.markTerminal row.requestId lease .cancelled
      (some [("phase", .str "cancelled_during_controller_drain")]))
  | .releasing lease, .proceed => some (.leaseCall (.release lease))
  | _, _ => none

/-- Where the activity stands afterwards; `none` ends it. `current` is the row
of its request after the step, `updated` the row its call returned, `leased`
the lease it returned. -/
def next (updated : Option DirectTurnRequestRow) (leased : Option Lease) :
    Stage → Choice → Option Stage
  | .listed row, .proceed => leased.map (.acquired row)
  | .acquired row lease, choice =>
    if row.cancelRequestedAt.isSome then some (.releasing lease)
    else if phaseText row.outcomeDict = toolInFlightPhase then
      some ((updated.map (.recoveringTools row lease)).getD (.releasing lease))
    else
      match choice with
      | .reconciled _ | .quarantined => some (.releasing lease)
      | _ => some (.acquired row lease)
  | .recoveringTools row lease recoveryRow, .proceed => some (.toolsRecovered row lease recoveryRow)
  | .recoveringTools row lease _, .handlerFails ambiguous error =>
    some (.recoveryFailed row lease ambiguous error)
  | .recoveringTools _ lease _, .ownershipLost => some (.releasing lease)
  | .toolsRecovered row lease _, .proceed =>
    some ((updated.map (fun r => .toolsCleared row lease r.outcomeDict)).getD (.releasing lease))
  | .toolsCleared _ lease _, .proceed => some (.releasing lease)
  | .recoveryFailed _ lease _ _, .proceed => some (.releasing lease)
  | .starting row lease, .proceed =>
    match updated with
    | none => some (.releasing lease)
    | some r =>
      if r.cancelRequestedAt.isSome then some (.cancelled row lease)
      else some (.executing row (startFence row lease))
  | .starting row lease, .raisesPermanent error => some (.permanentFailure row lease error)
  | .starting row lease, .raises => some (.raised row lease)
  | .starting _ lease, .ownershipLost => some (.releasing lease)
  | .starting row lease, .isCancelled => some (.cancelled row lease)
  | .executing row fence, .fence op => some (.executing row (op.fence fence))
  | .executing row fence, .store _ => some (.executing row fence)
  | .executing _ fence, .returns => some (.releasing fence.lease)
  | .executing _ fence, .ownershipLost => some (.releasing fence.lease)
  | .executing row fence, .raisesBusy reason => some (.busy row fence.lease reason)
  | .executing row fence, .raises => some (.raised row fence.lease)
  | .executing row fence, .raisesPermanent error => some (.permanentFailure row fence.lease error)
  | .executing row fence, .isCancelled => some (.cancelled row fence.lease)
  | .busy row lease reason, .proceed => some (.busyRead row lease reason current)
  | .raised row lease, .proceed => some (.raisedRead row lease current)
  | .busyRead _ lease _ _, .proceed => some (.releasing lease)
  | .raisedRead _ lease _, .proceed => some (.releasing lease)
  | .permanentFailure _ lease _, .proceed => some (.releasing lease)
  | .cancelled _ lease, .proceed => some (.releasing lease)
  | .releasing _, .proceed => none
  | stage, _ => some stage

def handled : Stage → Choice → List (String × Lease)
  | .recoveringTools row lease _, .proceed => [(row.requestId, lease)]
  | _, _ => []

def requestId : Stage → String
  | .listed row | .acquired row _ | .recoveringTools row _ _ | .toolsRecovered row _ _
  | .toolsCleared row _ _ | .recoveryFailed row _ _ _ | .starting row _ | .executing row _
  | .busy row _ _ | .busyRead row _ _ _ | .raised row _ | .raisedRead row _ _
  | .permanentFailure row _ _ | .cancelled row _ => row.requestId
  | .releasing _ => ""

end Stage

/-- The database, the activities of all live controllers, and the tool-recovery
handlers that have completed, each with its request and the lease it ran under. -/
structure Runtime where
  db : Database
  activities : List Activity
  handled : List (String × Lease)

inductive Action where
  | external (call : Call)
  /-- `list_stale_active` finds the request. -/
  | list (controllerId incarnationId requestId : String)
  | claim (controllerId incarnationId requestId : String) (lease : Lease)
  | advance (index : Nat) (choice : Choice)
  | crash (index : Nat)

structure RuntimeEvent where
  elapsed : Nat
  action : Action

/-- `list_stale_active`'s predicate: active under a lease that is not current. -/
def StaleActive (db : Database) (r : DirectTurnRequestRow) : Prop :=
  r.status.Active ∧ (match r.ownerControllerId, r.ownerIncarnationId, r.fencingToken with
      | some controller, some incarnation, some token =>
        db.leases.isCurrent
          ⟨conversationLeaseKey r.conversationId, ownerId controller incarnation, token, 0⟩
      | _, _, _ => false) = false

instance (db : Database) (r : DirectTurnRequestRow) : Decidable (StaleActive db r) :=
  inferInstanceAs (Decidable (_ ∧ _))

namespace Runtime

variable (c : Codec) (rt : Runtime)

def call : Action → Option Call
  | .external call => if call.external then some call else none
  | .list .. => none
  | .claim controllerId incarnationId requestId lease =>
    some (.claim requestId lease controllerId incarnationId none)
  | .advance index choice =>
    rt.activities[index]?.bind fun a => a.stage.call a.controllerId a.incarnationId choice
  | .crash _ => none

def updated (call : Option Call) (db : Database) (requestId : String) :
    Option DirectTurnRequestRow :=
  match call, db.find requestId with
  | some call, some r => (call.values c db r).map r.assign
  | _, _ => none

def after (call : Option Call) (db : Database) : Database :=
  match call with
  | some call => perform c db call
  | none => db

def step (e : RuntimeEvent) : Runtime :=
  let db := rt.db.wait e.elapsed
  let call := rt.call e.action
  let db' := after c call db
  match e.action with
  | .external _ => { rt with db := db' }
  | .list controllerId incarnationId requestId =>
    match db.find requestId with
    | some r =>
      if StaleActive db r then
        { rt with db := db', activities :=
          rt.activities ++ [⟨controllerId, incarnationId, .listed r⟩] }
      else { rt with db := db' }
    | none => { rt with db := db' }
  | .claim controllerId incarnationId requestId lease =>
    match updated c call db requestId with
    | some r =>
      { rt with
        db := db', activities :=
          rt.activities ++ [⟨controllerId, incarnationId, .starting r lease⟩] }
    | none => { rt with db := db' }
  | .advance index choice =>
    match rt.activities[index]? with
    | none => { rt with db := db' }
    | some a =>
      let leased := match call with
        | some (.leaseCall l) => (db.leases.perform l).2
        | _ => none
      match a.stage.next (db'.find a.stage.requestId) (updated c call db a.stage.requestId)
          leased choice with
      | some stage =>
        ⟨db', rt.activities.set index { a with stage := stage },
          a.stage.handled choice ++ rt.handled⟩
      | none => ⟨db', rt.activities.eraseIdx index, rt.handled⟩
  | .crash index => { rt with db := db', activities := rt.activities.eraseIdx index }

end Runtime

end Cognis.DirectTurn
