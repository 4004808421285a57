import Cognis.Library.RowLocks
import Cognis.Library.Runs

namespace Cognis.ToolClassification

def classificationMaxAttempts : Nat := 3

inductive Status where
  | pending
  | running
  | ready
  | failed
  deriving DecidableEq

structure Classification where
  category : String
  capabilities : List String
  confidence : String
  deriving DecidableEq

/-- A row of the table. `classifiedFrom` is the fingerprint of the tool that was classified. -/
structure Row where
  fingerprint : String
  status : Status
  attempts : Nat
  lastAttemptAt : Option Nat
  nextRetryAt : Option Nat
  lastError : Option String
  classification : Option Classification
  classifiedFrom : Option String
  deriving DecidableEq

variable (fingerprint : String) (leaseSeconds : Nat) (s : System) (number batch now : Nat)
  (row : Row) (id : String) (c : Claim) (ok applied : Bool)

/-- A row with a new fingerprint, as `_enqueue_tools_once` writes it. -/
def enqueued : Row where
  fingerprint := fingerprint
  status := .pending
  attempts := 0
  lastAttemptAt := none
  nextRetryAt := some now
  lastError := none
  classification := none
  classifiedFrom := none

/-- The rows that `_claim_due_items` selects, and that it updates. -/
def due : Bool :=
  (row.status = .pending && row.nextRetryAt.all (· ≤ now)) ||
    (row.status = .running && row.lastAttemptAt.any fun at' => at' + leaseSeconds ≤ now)

def claimed : Row :=
  { row with status := .running, lastAttemptAt := some now, lastError := none }

/-- The condition of `_renew_claims` and `_settle_claim`. -/
def owned (claimToken : Nat) (row : Row) : Bool :=
  row.status = .running && row.fingerprint = fingerprint && row.lastAttemptAt = some claimToken

def renewed : Row := { row with lastAttemptAt := some now }

/-- What the classifier says of one tool of a batch. -/
inductive Outcome where
  | classified (classification : Classification)
  | rejected (error : String) (nextRetryAt : Nat)
  deriving DecidableEq

/-- The values that `_process_batch` settles with. -/
def settled (attempts : Nat) (outcome : Outcome) (row : Row) : Row :=
  match outcome with
  | .classified classification =>
    { row with
      status := .ready
      classification := some classification
      classifiedFrom := some fingerprint
      lastError := none
      nextRetryAt := none }
  | .rejected error nextRetryAt =>
    let exhausted := classificationMaxAttempts ≤ attempts + 1
    { row with
      status := if exhausted then .failed else .pending
      attempts := attempts + 1
      lastError := some error
      nextRetryAt := if exhausted then none else some nextRetryAt }

/-- How far the claim of a row has come; `updated` before its transaction has ended. -/
inductive Stage where
  | selected
  | updated
  | skipped
  | owned
  | gone
  deriving DecidableEq

/-- The renewal of a claim: `sent` with the token of the statement, `noted` when the task has the
result and its transaction is open. -/
inductive Renewal where
  | idle
  | sent (now token : Nat)
  | updated (now : Nat) (matched : Bool)
  | noted (now : Nat) (matched : Bool)
  deriving DecidableEq

inductive Settlement where
  | waiting
  | sent (token : Nat) (outcome : Outcome)
  | updated (matched : Bool)
  | done (matched : Bool)
  deriving DecidableEq

/-- `_ClaimedClassification`, with what its worker is about to do with it. -/
structure Claim where
  batch : Nat
  classificationId : String
  fingerprint : String
  attempts : Nat
  now : Nat
  claimToken : Nat
  stage : Stage
  renewal : Renewal
  settlement : Settlement
  /-- Another claim or a new fingerprint came since. -/
  lost : Bool
  deriving DecidableEq

inductive Phase where
  | working
  | settling
  | abandoned
  deriving DecidableEq

/-- One `_process_batch`; `failed` after a crash of its worker or a database error. -/
structure Batch where
  phase : Phase
  ownershipLost : Bool
  failed : Bool
  deriving DecidableEq

inductive Task where
  | claim (number : Nat)
  | renewal (number : Nat)
  | settlement (number : Nat)
  deriving DecidableEq

/-- All workers on one database. `stamp` tells which claim has used a timestamp on a row. -/
structure System where
  table : LockedTable String Row Task
  claims : Nat → Option Claim
  batches : Nat → Batch
  stamp : String → Nat → Option Nat

def System.empty : System where
  table := ⟨fun _ => none, fun _ => none⟩
  claims := fun _ => none
  batches := fun _ => ⟨.working, false, false⟩
  stamp := fun _ _ => none

namespace System

def setClaim : System :=
  { s with claims := Function.update s.claims number (some c) }

def setBatch (b : Batch) : System :=
  { s with batches := Function.update s.batches batch b }

def fail : System :=
  s.setBatch batch { s.batches batch with failed := true }

def setStamp (now number : Nat) : System :=
  { s with
    stamp := Function.update s.stamp id (Function.update (s.stamp id) now (some number)) }

def loseOthers (number : Option Nat) : System :=
  { s with
    claims := fun n => (s.claims n).map fun c =>
      if c.classificationId = id ∧ some n ≠ number then { c with lost := true } else c }

def finish (s : System) (task : Task) (id : String) (applied : Bool) : System :=
  { s with table := s.table.finish task id applied }

end System

/-- The steps of the workers, one statement or one end of a transaction at a time. The transactions
of a batch are taken row by row. -/
inductive Event where
  | write (id fingerprint : String) (now : Nat)
  | select (number batch : Nat) (id : String) (now : Nat)
  | claim (number : Nat)
  | claimMiss (number : Nat)
  | claimEnd (number : Nat) (ok applied : Bool)
  | renewSend (number now : Nat)
  | renew (number : Nat)
  | renewMiss (number : Nat)
  | renewNote (number : Nat)
  | renewEnd (number : Nat) (ok applied : Bool)
  | renewStop (number : Nat) (applied : Bool)
  | check (batch : Nat)
  | settleSend (number : Nat) (outcome : Outcome)
  | settle (number : Nat)
  | settleMiss (number : Nat)
  | settleEnd (number : Nat) (ok applied : Bool)
  | crash (number : Nat)

/-- `_claim_due_items` selects a row. -/
def select (now : Nat) : Option System :=
  match s.claims number, s.table.committed id with
  | none, some row =>
    if due leaseSeconds now row then
      some (s.setClaim number
        { batch := batch
          classificationId := id
          fingerprint := row.fingerprint
          attempts := row.attempts
          now := now
          claimToken := now
          stage := .selected
          renewal := .idle
          settlement := .waiting
          lost := false })
    else none
  | _, _ => none

def claimRow : Option System :=
  if c.stage ≠ .selected then none
  else
    match s.table.update (.claim number) c.classificationId (due leaseSeconds c.now)
      (claimed c.now) with
    | none => none
    | some (false, _) => some (s.setClaim number { c with stage := .skipped })
    | some (true, table) =>
      if s.stamp c.classificationId c.now = none then
        some { (s.setStamp c.classificationId c.now number).setClaim number
          { c with stage := .updated } with table := table }
      else none

def claimMiss : Option System :=
  if c.stage = .selected ∧ s.table.misses c.classificationId (due leaseSeconds c.now) = true then
    some (s.setClaim number { c with stage := .skipped })
  else none

def claimEnd : Option System :=
  if c.stage ≠ .updated ∨ (ok = true ∧ applied = false) then none
  else
    let s :=
      if applied then
        ((s.setClaim number { c with lost := false }).finish (.claim number) c.classificationId
          true).loseOthers c.classificationId (some number)
      else s.finish (.claim number) c.classificationId false
    let lost := !applied && c.lost
    if ok then some (s.setClaim number { c with stage := .owned, lost := lost })
    else some ((s.setClaim number { c with stage := .gone, lost := lost }).fail c.batch)

def renewSend : Option System :=
  if c.stage = .owned ∧ c.renewal = .idle then
    some (s.setClaim number { c with renewal := .sent now c.claimToken })
  else none

/-- The update of `_renew_claims`. -/
def renewRow : Option System :=
  match c.renewal with
  | .sent now token =>
    if c.stage ≠ .owned then none
    else
      match s.table.update (.renewal number) c.classificationId (owned c.fingerprint token)
        (renewed now) with
      | none => none
      | some (false, _) => some (s.setClaim number { c with renewal := .updated now false })
      | some (true, table) =>
        if s.stamp c.classificationId now = none then
          some { (s.setStamp c.classificationId now number).setClaim number
            { c with renewal := .updated now true } with table := table }
        else none
  | _ => none

def renewMiss : Option System :=
  match c.renewal with
  | .sent now token =>
    if c.stage = .owned ∧ s.table.misses c.classificationId (owned c.fingerprint token) = true then
      some (s.setClaim number { c with renewal := .updated now false })
    else none
  | _ => none

def renewNote : Option System :=
  match c.renewal with
  | .updated now matched =>
    if c.stage ≠ .owned then none
    else some (s.setClaim number { c with
        renewal := .noted now matched
        claimToken := if matched then now else c.claimToken })
  | _ => none

def Renewal.isNoted : Renewal → Bool
  | .noted _ _ => true
  | _ => false

def Renewal.matched : Renewal → Bool
  | .noted _ matched => matched
  | _ => false

/-- The end of a renewal; one that did not renew everything, or failed, sets `ownership_lost`. -/
def renewEnd : Option System :=
  if c.stage ≠ .owned ∨ c.renewal = .idle ∨ (ok = true ∧ applied = false) ∨
      (applied = true ∧ c.renewal.isNoted = false) then none
  else
    let batch := s.batches c.batch
    some (((s.finish (.renewal number) c.classificationId applied).setClaim number
      { c with renewal := .idle }).setBatch c.batch { batch with
          ownershipLost := batch.ownershipLost || !(ok && c.renewal.matched)
          failed := batch.failed || !ok })

def renewStop : Option System :=
  let isOver : Bool := (s.batches c.batch).phase = .abandoned ||
    (c.settlement = .done true || c.settlement = .done false)
  if c.stage ≠ .owned ∨ isOver = false ∨ (applied = true ∧ c.renewal.isNoted = false) then none
  else
    some ((s.finish (.renewal number) c.classificationId applied).setClaim number
      { c with renewal := .idle })

/-- `_process_batch` has its results, and asks whether ownership was lost. -/
def check : Option System :=
  let b := s.batches batch
  if b.phase = .working then
    some (s.setBatch batch { b with phase := if b.ownershipLost then .abandoned else .settling })
  else none

def settleSend (outcome : Outcome) : Option System :=
  if c.stage = .owned ∧ (s.batches c.batch).phase = .settling ∧ c.settlement = .waiting then
    some (s.setClaim number { c with settlement := .sent c.claimToken outcome })
  else none

/-- The update of `_settle_claim`. -/
def settleRow : Option System :=
  match c.settlement with
  | .sent token outcome =>
    if c.stage ≠ .owned then none
    else
      match s.table.update (.settlement number) c.classificationId (owned c.fingerprint token)
        (settled c.fingerprint c.attempts outcome) with
      | none => none
      | some (matched, table) =>
        some { s.setClaim number { c with settlement := .updated matched } with table := table }
  | _ => none

def settleMiss : Option System :=
  match c.settlement with
  | .sent token _ =>
    if c.stage = .owned ∧ s.table.misses c.classificationId (owned c.fingerprint token) = true then
      some (s.setClaim number { c with settlement := .updated false })
    else none
  | _ => none

def settleEnd : Option System :=
  match c.settlement with
  | .updated matched =>
    if c.stage ≠ .owned ∨ (ok = true ∧ applied = false) then none
    else
      let s := s.finish (.settlement number) c.classificationId applied
      if ok then some (s.setClaim number { c with settlement := .done matched })
      else
        some ((s.setClaim number { c with settlement := .waiting }).setBatch c.batch
          { s.batches c.batch with phase := .working, failed := true })
  | .sent _ _ =>
    if c.stage ≠ .owned ∨ ok = true ∨ applied = true then none
    else
      let s := s.finish (.settlement number) c.classificationId false
      some ((s.setClaim number { c with settlement := .waiting }).setBatch c.batch
        { s.batches c.batch with phase := .working, failed := true })
  | _ => none

def crash : System :=
  let s := s.finish (.claim number) c.classificationId false
  let s := s.finish (.renewal number) c.classificationId false
  let s := s.finish (.settlement number) c.classificationId false
  (s.setClaim number { c with stage := .gone, renewal := .idle, settlement := .waiting }).fail
    c.batch

def attempt : Event → Option System
  | .write id fingerprint now =>
    (s.table.write id (enqueued fingerprint now)).map fun table =>
      { s with table := table }.loseOthers id none
  | .select number batch id now => select leaseSeconds s number batch id now
  | .claim number => (s.claims number).bind (claimRow leaseSeconds s number)
  | .claimMiss number => (s.claims number).bind (claimMiss leaseSeconds s number)
  | .claimEnd number ok applied => (s.claims number).bind fun c => claimEnd s number c ok applied
  | .renewSend number now => (s.claims number).bind (renewSend s number now)
  | .renew number => (s.claims number).bind (renewRow s number)
  | .renewMiss number => (s.claims number).bind (renewMiss s number)
  | .renewNote number => (s.claims number).bind (renewNote s number)
  | .renewEnd number ok applied => (s.claims number).bind fun c => renewEnd s number c ok applied
  | .renewStop number applied => (s.claims number).bind fun c => renewStop s number c applied
  | .check batch => check s batch
  | .settleSend number outcome => (s.claims number).bind fun c => settleSend s number c outcome
  | .settle number => (s.claims number).bind (settleRow s number)
  | .settleMiss number => (s.claims number).bind (settleMiss s number)
  | .settleEnd number ok applied => (s.claims number).bind fun c => settleEnd s number c ok applied
  | .crash number => (s.claims number).map (crash s number)

def step (e : Event) : System :=
  (attempt leaseSeconds s e).getD s

def run (leaseSeconds : Nat) (events : List Event) : System :=
  Runs.run (step leaseSeconds) .empty events

end Cognis.ToolClassification
