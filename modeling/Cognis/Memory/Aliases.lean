import Mathlib.Data.List.Dedup
import Cognis.Library.OrderedMap
import Cognis.Library.Runs
import Cognis.Memory.Revision

namespace Cognis.Memory

section

open SortByKey

/-- `_ALIAS_RE.fullmatch(text)`, and the number it finds. -/
def aliasNumber (text : String) : Option Nat :=
  match text.toList with
  | 'm' :: d :: ds =>
    if d ≠ '0' && (d :: ds).all Char.isDigit then some (Nat.ofDigitChars 10 (d :: ds) 0) else none
  | _ => none

def aliasText (n : Nat) : String := "m" ++ toString n

def aliasSortKey (aliasName : String) : Nat := (aliasNumber aliasName).getD 0

structure MemoryAliasError where
  aliasName : String
  reason : String
  deriving DecidableEq

@[ext] structure MemoryAliasBinding where
  aliasName : String
  memoryId : String
  revision : String
  expectedRevision : Option String
  deriving DecidableEq

def MemoryAliasBinding.revisionKey (b : MemoryAliasBinding) : String × String :=
  (b.memoryId, b.revision)

def MemoryAliasBinding.asDict (b : MemoryAliasBinding) : Record :=
  [("alias", .str b.aliasName), ("memory_id", .str b.memoryId), ("revision", .str b.revision)] ++
    match b.expectedRevision with
    | some expected => [("expected_revision", .str expected)]
    | none => []

/-- `invalidated` is a set, listed without repetition. -/
structure MemoryAliasState where
  bindings : OrderedMap String MemoryAliasBinding := .empty
  aliasesByRevision : OrderedMap (String × String) String := .empty
  activeByMemoryId : OrderedMap String String := .empty
  invalidated : List String := []
  nextNumber : Nat := 1

namespace MemoryAliasState

variable (s : MemoryAliasState)

/-- `resolve_binding`; `none` for a text that is no alias. -/
def resolveBinding (value : String) :
    Except MemoryAliasError (Option MemoryAliasBinding) :=
  let candidate := strip value
  if (aliasNumber candidate).isNone then .ok none
  else
    match s.bindings.get? candidate with
    | none => .error ⟨candidate, "unknown"⟩
    | some binding =>
      if s.invalidated.contains candidate ||
          s.activeByMemoryId.get? binding.memoryId ≠ some candidate then
        .error ⟨candidate, "stale"⟩
      else .ok (some binding)

def resolve (value : String) : Except MemoryAliasError String :=
  (fun binding => binding.elim (strip value) (·.memoryId)) <$> s.resolveBinding value

def activeAlias (memoryId : String) : Option String :=
  (s.activeByMemoryId.get? memoryId).filter fun aliasName => !s.invalidated.contains aliasName

end MemoryAliasState

/-- The locals of `plan_records`. -/
structure Plan where
  projected : List Record := []
  newBindings : List MemoryAliasBinding := []
  invalidated : List String := []
  plannedByRevision : OrderedMap (String × String) String := .empty
  plannedActive : OrderedMap String String
  nextNumber : Nat

namespace Plan

def allocate (p : Plan) (memoryId : String) (revision : String × Option String) : Plan :=
  { p with
    newBindings := p.newBindings ++ [⟨aliasText p.nextNumber, memoryId, revision.1, revision.2⟩]
    plannedByRevision := p.plannedByRevision.set (memoryId, revision.1) (aliasText p.nextNumber)
    nextNumber := p.nextNumber + 1 }

def list (p : Plan) (record : Record) (memoryId aliasName : String) : Plan :=
  { p with
    invalidated :=
      match (p.plannedActive.get? memoryId).filter (· ≠ aliasName) with
      | some previous => p.invalidated.insert previous
      | none => p.invalidated
    plannedActive := p.plannedActive.set memoryId aliasName
    projected := p.projected ++ [JsonValue.insert record "id" (.str aliasName)] }

end Plan

namespace MemoryAliasState

variable (k : Codec) (s : MemoryAliasState)

def knownAlias (p : Plan) (key : String × String) : Option String :=
  (s.aliasesByRevision.get? key).or (p.plannedByRevision.get? key)

def planRecord (p : Plan) (record : Record) : Plan :=
  let memoryId := memoryIdOf k record
  let revision := memoryRevision k record
  if memoryId = "" then { p with projected := p.projected ++ [record] }
  else
    match s.knownAlias p (memoryId, revision.1) with
    | some aliasName => p.list record memoryId aliasName
    | none => (p.allocate memoryId revision).list record memoryId (aliasText p.nextNumber)

def startPlan : Plan where
  plannedActive := s.activeByMemoryId
  nextNumber := s.nextNumber

def plan (records : List Record) : Plan :=
  records.foldl (s.planRecord k) s.startPlan

end MemoryAliasState

def deltaDict (bindings : List MemoryAliasBinding) (invalidated : List String) : JsonValue :=
  .obj [("version", .num "1"), ("bindings", .arr (bindings.map fun b => .obj b.asDict)),
    ("invalidated", .arr (invalidated.map .str))]

namespace MemoryAliasState

section

variable (k : Codec) (s : MemoryAliasState)

def planRecords (records : List Record) : List Record × Option JsonValue :=
  let p := s.plan k records
  (p.projected,
    if p.newBindings.isEmpty && p.invalidated.isEmpty then none
    else some (deltaDict p.newBindings (sortBy aliasSortKey p.invalidated)))

def invalidateMemory (memoryId : String) : Option JsonValue :=
  (s.activeAlias memoryId).map fun aliasName => deltaDict [] [aliasName]

def snapshot : JsonValue :=
  deltaDict (sortBy (fun b : MemoryAliasBinding => aliasSortKey b.aliasName) s.bindings.values)
    (sortBy aliasSortKey s.invalidated)

end

end MemoryAliasState

/-- `raw.get("version") == 1`. -/
def isVersionOne : Option JsonValue → Bool
  | some (.num text) => ["1", "1.0"].contains text
  | some (.bool b) => b
  | _ => false

/-- `raw.get(key, [])`, if it is a list. -/
def itemsOf (raw : Record) (key : String) : Option (List JsonValue) :=
  match JsonValue.get? raw key with
  | none => some []
  | some (.arr items) => some items
  | some _ => none

def textOf : Option JsonValue → Option String
  | some (.str text) => some text
  | _ => none

/-- `expected_revision` of an entry: absent, or a text. -/
def expectedOf : Option JsonValue → Option (Option String)
  | none => some none
  | some .null => some none
  | some (.str text) => some (some text)
  | some _ => none

def parseBinding : JsonValue → Option MemoryAliasBinding
  | .obj item => do
    let aliasName ← textOf (JsonValue.get? item "alias")
    let memoryId ← textOf (JsonValue.get? item "memory_id")
    let revision ← textOf (JsonValue.get? item "revision")
    let expectedRevision ← expectedOf (JsonValue.get? item "expected_revision")
    guard ((aliasNumber aliasName).isSome && memoryId ≠ "" && revision ≠ "" &&
      validExpectedRevision revision expectedRevision)
    return ⟨aliasName, memoryId, revision, expectedRevision⟩
  | _ => none

/-- The locals of the first loop of `apply`. -/
structure ParsedBindings where
  parsed : List MemoryAliasBinding := []
  byAlias : OrderedMap String MemoryAliasBinding := .empty
  byRevision : OrderedMap (String × String) String := .empty

/-- The entries of `invalidated` that are aliases, as a set. -/
def invalidatedOf (items : List JsonValue) : List String :=
  (items.filterMap fun item => (textOf (some item)).filter fun text =>
    (aliasNumber text).isSome).dedup

namespace MemoryAliasState

variable (s : MemoryAliasState)

/-- One entry of `bindings`; `none` where `apply` returns false. -/
def parseItem (p : ParsedBindings) (item : JsonValue) :
    Option ParsedBindings := do
  let b ← parseBinding item
  guard (((s.bindings.get? b.aliasName).or (p.byAlias.get? b.aliasName)).all (· = b))
  guard (((s.aliasesByRevision.get? b.revisionKey).or (p.byRevision.get? b.revisionKey)).all
    (· = b.aliasName))
  return { parsed := p.parsed ++ [b]
           byAlias := p.byAlias.set b.aliasName b
           byRevision := p.byRevision.set b.revisionKey b.aliasName }

/-- One round of the second loop of `apply`. -/
def activate (b : MemoryAliasBinding) : MemoryAliasState where
  bindings := s.bindings.set b.aliasName b
  aliasesByRevision := s.aliasesByRevision.set b.revisionKey b.aliasName
  activeByMemoryId := s.activeByMemoryId.set b.memoryId b.aliasName
  invalidated :=
    (match (s.activeByMemoryId.get? b.memoryId).filter (· ≠ b.aliasName) with
      | some previous => s.invalidated.insert previous
      | none => s.invalidated).filter (· ≠ b.aliasName)
  nextNumber := max s.nextNumber (aliasSortKey b.aliasName + 1)

/-- What `apply` does with a delta it accepts. -/
def commit (bindings : List MemoryAliasBinding)
    (invalidated : List String) : MemoryAliasState :=
  bindings.foldl activate { s with invalidated := invalidated ∪ s.invalidated }

def parseDelta : JsonValue → Option (List MemoryAliasBinding × List String)
  | .obj raw => do
    guard (isVersionOne (JsonValue.get? raw "version"))
    let rawBindings ← itemsOf raw "bindings"
    let rawInvalidated ← itemsOf raw "invalidated"
    let p ← rawBindings.foldlM s.parseItem {}
    guard ((invalidatedOf rawInvalidated).length = rawInvalidated.length)
    return (p.parsed, invalidatedOf rawInvalidated)
  | _ => none

def apply (raw : JsonValue) : MemoryAliasState × Bool :=
  match s.parseDelta raw with
  | some (bindings, invalidated) => (s.commit bindings invalidated, true)
  | none => (s, false)

def applyPlanned (delta : Option JsonValue) : MemoryAliasState :=
  delta.elim s fun raw => (s.apply raw).1

end MemoryAliasState

/-- A step of a session: records are listed, or a memory is deleted, and the delta
is applied. -/
inductive Step where
  | records (records : List Record)
  | invalidate (memoryId : String)

def MemoryAliasState.step (k : Codec) (s : MemoryAliasState) : Step → MemoryAliasState
  | .records records => s.applyPlanned (s.planRecords k records).2
  | .invalidate memoryId => s.applyPlanned (s.invalidateMemory memoryId)

def sessionAfter (k : Codec) (steps : List Step) : MemoryAliasState :=
  Runs.run (MemoryAliasState.step k) {} steps

end

namespace MemoryAliasState

/-- Two states that hold the same, in whatever order it was learned. -/
structure Same (s t : MemoryAliasState) : Prop where
  bindings : ∀ aliasName, s.bindings.get? aliasName = t.bindings.get? aliasName
  aliasesByRevision : ∀ key, s.aliasesByRevision.get? key = t.aliasesByRevision.get? key
  activeByMemoryId : ∀ memoryId, s.activeByMemoryId.get? memoryId = t.activeByMemoryId.get? memoryId
  invalidated : ∀ aliasName, aliasName ∈ s.invalidated ↔ aliasName ∈ t.invalidated
  nextNumber : s.nextNumber = t.nextNumber

variable {s t u : MemoryAliasState}

theorem Same.refl (s : MemoryAliasState) : Same s s :=
  ⟨fun _ => rfl, fun _ => rfl, fun _ => rfl, fun _ => Iff.rfl, rfl⟩

variable (h : Same s t)
include h

theorem Same.symm : Same t s :=
  ⟨fun a => (h.bindings a).symm, fun k => (h.aliasesByRevision k).symm,
    fun m => (h.activeByMemoryId m).symm, fun a => (h.invalidated a).symm, h.nextNumber.symm⟩

theorem Same.trans (h' : Same t u) : Same s u :=
  ⟨fun a => (h.bindings a).trans (h'.bindings a),
    fun k => (h.aliasesByRevision k).trans (h'.aliasesByRevision k),
    fun m => (h.activeByMemoryId m).trans (h'.activeByMemoryId m),
    fun a => (h.invalidated a).trans (h'.invalidated a), h.nextNumber.trans h'.nextNumber⟩

theorem Same.parseItem (p : ParsedBindings) (item : JsonValue) :
    s.parseItem p item = t.parseItem p item := by
  unfold MemoryAliasState.parseItem
  simp only [h.bindings, h.aliasesByRevision]

theorem Same.parseDelta (raw : JsonValue) : s.parseDelta raw = t.parseDelta raw := by
  have hitem : s.parseItem = t.parseItem := by
    funext p item
    exact h.parseItem p item
  unfold MemoryAliasState.parseDelta
  rw [hitem]

theorem Same.activate (b : MemoryAliasBinding) :
    Same (s.activate b) (t.activate b) := by
  refine ⟨?_, ?_, ?_, ?_, ?_⟩
  · intro aliasName
    simp only [MemoryAliasState.activate, OrderedMap.get?_set, h.bindings]
  · intro key
    simp only [MemoryAliasState.activate, OrderedMap.get?_set, h.aliasesByRevision]
  · intro memoryId
    simp only [MemoryAliasState.activate, OrderedMap.get?_set, h.activeByMemoryId]
  · intro aliasName
    simp only [MemoryAliasState.activate, h.activeByMemoryId, List.mem_filter]
    cases (t.activeByMemoryId.get? b.memoryId).filter (· ≠ b.aliasName) with
    | none => simp only [h.invalidated]
    | some => simp only [List.mem_insert_iff, h.invalidated]
  · simp only [MemoryAliasState.activate, h.nextNumber]

theorem Same.commit (bindings : List MemoryAliasBinding)
    (invalidated : List String) :
    Same (s.commit bindings invalidated) (t.commit bindings invalidated) := by
  unfold MemoryAliasState.commit
  have hstart : Same { s with invalidated := invalidated ∪ s.invalidated }
      { t with invalidated := invalidated ∪ t.invalidated } := by
    refine ⟨h.bindings, h.aliasesByRevision, h.activeByMemoryId, ?_, h.nextNumber⟩
    intro aliasName
    simp only [List.mem_union_iff, h.invalidated]
  revert hstart
  generalize { s with invalidated := invalidated ∪ s.invalidated } = s'
  generalize { t with invalidated := invalidated ∪ t.invalidated } = t'
  intro hstart
  induction bindings generalizing s' t' with
  | nil => exact hstart
  | cons b _ ih => exact ih _ _ (hstart.activate b)

theorem Same.apply (raw : JsonValue) : Same (s.apply raw).1 (t.apply raw).1 := by
  unfold MemoryAliasState.apply
  rw [h.parseDelta raw]
  cases t.parseDelta raw with
  | none => exact h
  | some parsed => exact h.commit parsed.1 parsed.2

end MemoryAliasState

end Cognis.Memory
