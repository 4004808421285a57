import Mathlib.Data.List.TakeDrop
import Cognis.Library.JsonValue
import Cognis.Library.PythonText
import Cognis.Library.SortByKey

namespace Cognis.Memory

structure Codec where
  /-- `str` of a list or a dict. -/
  str : JsonValue → String
  /-- `format(value, ".17g")`, from a float's text. -/
  formatFloat : String → String
  /-- `json.dumps(value, sort_keys=True, ensure_ascii=False)`. -/
  dumps : JsonValue → String
  /-- `hashlib.sha256(encoded).hexdigest()`. -/
  sha256 : String → String

abbrev Record := JsonValue.Members

def strip (text : String) : String := String.ofList (PythonText.strip text.toList)

/-- The text is that of an `int`. -/
def isIntText (text : String) : Bool := text.toList.all fun c => c.isDigit || c = '-'

/-- `bool(value)`. -/
def truthy : JsonValue → Bool
  | .null => false
  | .bool b => b
  | .num text => !(["0", "0.0", "-0.0"].contains text)
  | .str s => s ≠ ""
  | .arr items => !items.isEmpty
  | .obj members => !members.isEmpty

variable (k : Codec) (record : Record)

/-- `str(value)`. -/
def pyStr : JsonValue → String
  | .null => "None"
  | .bool b => if b then "True" else "False"
  | .num text => text
  | .str s => s
  | value => k.str value

/-- `str(record.get("id") or "").strip()`. -/
def memoryIdOf : String :=
  match JsonValue.get? record "id" with
  | some value => if truthy value then strip (pyStr k value) else ""
  | none => ""

def volatileRevisionKeys : List String :=
  ["access_count", "checked_at", "last_accessed", "last_accessed_at", "score"]

def nativeRevisionKeys : List String := ["revision_id", "revision", "version", "provenance_id"]

def membersOf : Option JsonValue → Record
  | some (.obj members) => members
  | _ => []

/-- The places `_native_revision` looks at, in their order. -/
def nativeCandidates : List (String × Option JsonValue) :=
  let metadata := membersOf (JsonValue.get? record "metadata")
  let provenance := membersOf (JsonValue.get? metadata "provenance")
  nativeRevisionKeys.map (fun key => (key, JsonValue.get? record key)) ++
    nativeRevisionKeys.map (fun key => ("metadata." ++ key, JsonValue.get? metadata key)) ++
    nativeRevisionKeys.map
      (fun key => ("metadata.provenance." ++ key, JsonValue.get? provenance key))

/-- `str(value).strip()` of a string or an integer. -/
def nativeToken : Option JsonValue → Option String
  | some (.str s) => some (strip s)
  | some (.num text) => if isIntText text then some (strip text) else none
  | some (.bool b) => some (if b then "True" else "False")
  | _ => none

def usableToken (token : String) : Bool :=
  token ≠ "" && token.length ≤ 512 && token.toList.all fun c => 33 ≤ c.toNat && c.toNat ≤ 126

def nativeRevision : Option (String × String) :=
  (nativeCandidates record).findSome? fun p =>
    (nativeToken p.2).bind fun token => if usableToken token then some (p.1, token) else none

mutual
def normalizeRevisionValue (k : Codec) : JsonValue → JsonValue
  | .obj members => .obj (SortByKey.sortBy Prod.fst (normalizeMembers k members))
  | .arr items => .arr (normalizeItems k items)
  | .num text => if isIntText text then .num text else .str (k.formatFloat text)
  | value => value

def normalizeItems (k : Codec) : List JsonValue → List JsonValue
  | [] => []
  | item :: items => normalizeRevisionValue k item :: normalizeItems k items

def normalizeMembers (k : Codec) : Record → Record
  | [] => []
  | (key, item) :: members =>
    if volatileRevisionKeys.contains key then normalizeMembers k members
    else (key, normalizeRevisionValue k item) :: normalizeMembers k members
end

/-- The revision's identity and the precondition it gives a mutation. -/
def memoryRevision : String × Option String :=
  match nativeRevision record with
  | some (source, value) => ("native:" ++ source ++ ":" ++ value, some value)
  | none =>
    ("snapshot-sha256:" ++ k.sha256 (k.dumps (normalizeRevisionValue k (.obj record))), none)

/-- `text.split(":", maxsplit)`. -/
def splitColon : Nat → List Char → List (List Char)
  | 0, cs => [cs]
  | maxsplit + 1, cs =>
    match cs.span (· ≠ ':') with
    | (head, []) => [head]
    | (head, _ :: rest) => head :: splitColon maxsplit rest

def validExpectedRevision (revision : String) : Option String → Bool
  | none => true
  | some expected =>
    match splitColon 2 revision.toList with
    | [kind, source, value] =>
      kind = "native".toList && !source.isEmpty && usableToken expected && value = expected.toList
    | _ => false

def revisionSources : List String :=
  nativeRevisionKeys ++ nativeRevisionKeys.map ("metadata." ++ ·) ++
    nativeRevisionKeys.map ("metadata.provenance." ++ ·)

theorem revisionSources_plain :
    ∀ source ∈ revisionSources, source.toList ≠ [] ∧ ':' ∉ source.toList := by
  decide

theorem nativeCandidates_sources : (nativeCandidates record).map Prod.fst = revisionSources := rfl

theorem nativeRevision_spec {record : Record} {source value : String}
    (h : nativeRevision record = some (source, value)) :
    source ∈ revisionSources ∧ usableToken value := by
  obtain ⟨p, hp, hbind⟩ := List.exists_of_findSome?_eq_some h
  obtain ⟨token, -, htoken⟩ := Option.bind_eq_some_iff.mp hbind
  split at htoken
  · rename_i husable
    obtain ⟨rfl, rfl⟩ := Prod.mk.inj (Option.some.inj htoken)
    refine ⟨?_, husable⟩
    exact List.mem_map_of_mem hp
  · cases htoken

theorem splitColon_cons {head : List Char} (h : ':' ∉ head) (maxsplit : Nat) (rest : List Char) :
    splitColon (maxsplit + 1) (head ++ ':' :: rest) = head :: splitColon maxsplit rest := by
  have hspan : (head ++ ':' :: rest).span (· ≠ ':') = (head, ':' :: rest) := by
    have hhead : ∀ c ∈ head, decide (c ≠ ':') := by
      intro c hc
      apply decide_eq_true
      intro heq
      exact h (heq ▸ hc)
    rw [List.span_eq_takeWhile_dropWhile, List.takeWhile_append_of_pos hhead,
      List.dropWhile_append_of_pos hhead]
    simp
  rw [splitColon, hspan]

theorem memoryRevision_valid : (memoryRevision k record).1 ≠ "" ∧
      validExpectedRevision (memoryRevision k record).1 (memoryRevision k record).2 := by
  unfold memoryRevision
  split
  · rename_i source value hnative
    obtain ⟨hsource, husable⟩ := nativeRevision_spec hnative
    obtain ⟨hne, hcolon⟩ := revisionSources_plain source hsource
    have htext : ("native:" ++ source ++ ":" ++ value).toList =
        "native".toList ++ ':' :: (source.toList ++ ':' :: value.toList) := by
      simp [String.toList_append]
    refine ⟨?_, ?_⟩
    · intro heq
      have := congrArg String.toList heq
      simp at this
    · unfold validExpectedRevision
      rw [htext, splitColon_cons (by decide), splitColon_cons hcolon]
      simp [splitColon, husable, hne]
  · refine ⟨?_, rfl⟩
    intro heq
    have := congrArg String.toList heq
    simp [String.toList_append] at this

end Cognis.Memory
