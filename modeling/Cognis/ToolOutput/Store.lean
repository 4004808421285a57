import Cognis.Library.JsonValue
import Cognis.Library.OrderedMap

namespace Cognis.ToolOutput

open List

variable {anchors : List JsonValue.Members} {manifest : Option JsonValue.Members}

/-- The text functions of the JSON codec, the digest and `repr`. -/
structure OutputCodec where
  dumps : JsonValue → String
  loads : String → Option JsonValue
  sha256 : String → String
  repr : String → String

/-- What reading in text mode makes of line ends. -/
def universalNewlines : List Char → List Char
  | '\r' :: '\n' :: cs => '\n' :: universalNewlines cs
  | '\r' :: cs => '\n' :: universalNewlines cs
  | c :: cs => c :: universalNewlines cs
  | [] => []

/-- `path.read_text(encoding="utf-8")` of a file that holds a text. -/
def readText (text : String) : String := String.ofList (universalNewlines text.toList)

/-- A character that a file name may hold. -/
def isSafe (c : Char) : Bool := c.isAlphanum || c = '_' || c = '-'

/-- `re.sub(r"[^a-zA-Z0-9_\-]", "_", call_id)`. -/
def safeId (callId : String) : String :=
  String.ofList (callId.toList.map fun c => if isSafe c then c else '_')

structure FilesystemToolOutputBackend where
  files : OrderedMap String String := .empty

namespace FilesystemToolOutputBackend

def path (callId : String) : String := safeId callId ++ ".txt"

def anchorsPath (callId : String) : String := safeId callId ++ ".anchors.json"

def save (b : FilesystemToolOutputBackend) (callId output : String) :
    FilesystemToolOutputBackend := ⟨b.files.set (path callId) output⟩

/-- `bool(anchors)` of what is saved as anchors. -/
def hasAnchors : JsonValue → Bool
  | .arr items => !items.isEmpty
  | .obj members => !members.isEmpty
  | _ => false

def saveAnchors (k : OutputCodec) (b : FilesystemToolOutputBackend) (callId : String)
    (anchors : JsonValue) : FilesystemToolOutputBackend :=
  if hasAnchors anchors then ⟨b.files.set (anchorsPath callId) (k.dumps anchors)⟩
  else ⟨b.files.erase (anchorsPath callId)⟩

def load (b : FilesystemToolOutputBackend) (callId : String) : Option String :=
  (b.files.get? (path callId)).map readText

def loadAnchors (k : OutputCodec) (b : FilesystemToolOutputBackend) (callId : String) :
    Option JsonValue :=
  match (b.files.get? (anchorsPath callId)).bind fun text => k.loads (readText text) with
  | some (.arr items) => some (.arr items)
  | some (.obj members) => some (.obj members)
  | _ => none

def present (b : FilesystemToolOutputBackend) (callId : String) : Bool :=
  b.files.contains (path callId)

def delete (b : FilesystemToolOutputBackend) (callId : String) : FilesystemToolOutputBackend :=
  ⟨(b.files.erase (path callId)).erase (anchorsPath callId)⟩

end FilesystemToolOutputBackend

def dictsOf (items : List JsonValue) : List JsonValue.Members :=
  items.filterMap fun item =>
    match item with
    | .obj members => some members
    | _ => none

/-- What `save` returns of the anchors it has read back. -/
def confirmedAnchors : JsonValue → List JsonValue.Members
  | .obj members =>
    match JsonValue.get? members "anchors" with
    | some (.arr items) => dictsOf items
    | _ => []
  | .arr items => dictsOf items
  | _ => []

/-- The persisted text is the one that was to be saved, as far as its length and its
digest tell. -/
def verifies (k : OutputCodec) (output : String) : Option String → Bool
  | none => false
  | some persisted =>
    persisted.utf8ByteSize = output.utf8ByteSize && k.sha256 persisted = k.sha256 output

def anchorPayload (anchors : List JsonValue.Members) (manifest : Option JsonValue.Members) :
    JsonValue :=
  match manifest with
  | some members => .obj members
  | none => .arr (anchors.map .obj)

/-- `ToolOutputStore.save`; the error is the text of a `ToolOutputIntegrityError`. -/
def saveOutput (k : OutputCodec) (b : FilesystemToolOutputBackend) (callId output : String)
    (anchors : List JsonValue.Members) (manifest : Option JsonValue.Members) :
    FilesystemToolOutputBackend × Except String (List JsonValue.Members) :=
  let b := b.save callId output
  if !verifies k output (b.load callId) then
    (b, .error ("Stored tool output failed integrity verification for call_id " ++
      k.repr callId ++ "."))
  else
    let payload := anchorPayload anchors manifest
    let b := b.saveAnchors k callId payload
    if !b.present callId then
      (b, .error ("Stored tool output disappeared before verification for call_id " ++
        k.repr callId ++ "."))
    else if anchors.isEmpty then (b, .ok [])
    else if b.loadAnchors k callId ≠ some payload then
      (b, .error ("Stored anchor manifest failed verification for call_id " ++
        k.repr callId ++ "."))
    else (b, .ok (confirmedAnchors payload))

inductive StoreOp where
  | save (callId output : String) (anchors : List JsonValue.Members)
      (manifest : Option JsonValue.Members)
  | delete (callId : String)
  | load (callId : String)

namespace StoreOp

variable (k : OutputCodec)

def step (b : FilesystemToolOutputBackend) : StoreOp → FilesystemToolOutputBackend
  | .save callId output anchors manifest => (saveOutput k b callId output anchors manifest).1
  | .delete callId => b.delete callId
  | .load _ => b

variable (ops : List StoreOp)

def after : FilesystemToolOutputBackend := ops.foldl (step k) {}

/-- What the last save or delete among the operations that `touches` picks has left. -/
def lastWritten (touches : String → Bool) (ops : List StoreOp) : Option String :=
  ops.foldl (fun stored op =>
    match op with
    | .save callId output _ _ => if touches callId then some output else stored
    | .delete callId => if touches callId then none else stored
    | .load _ => stored) none

def expected (callId : String) : Option String :=
  lastWritten (· = callId) ops

def underName (callId : String) : Option String :=
  lastWritten (fun other => safeId other = safeId callId) ops

def Faithful (before : List StoreOp) : StoreOp → Prop
  | .save callId output anchors manifest =>
    ∃ confirmed, (saveOutput k (after k before) callId output anchors manifest).2 = .ok confirmed
  | .delete _ => True
  | .load callId => (after k before).load callId = expected before callId

/-- A save has no carriage return, and no empty manifest for its anchors; and before a load
the last save or delete under the file name is one of this call id, or leaves the same. -/
def Clean (before : List StoreOp) : StoreOp → Prop
  | .save _ output anchors manifest =>
    '\r' ∉ output.toList ∧ (anchors = [] ∨ manifest ≠ some [])
  | .delete _ => True
  | .load callId => underName before callId = expected before callId

end StoreOp

section

variable {cs : List Char}

theorem not_mem_universalNewlines (cs : List Char) : '\r' ∉ universalNewlines cs := by
  induction cs using universalNewlines.induct with
  | case1 cs ih | case2 cs hcrlf ih => simpa [universalNewlines] using ih
  | case3 c cs hcrlf hcr ih =>
    rw [universalNewlines]
    · rw [mem_cons, not_or]
      exact ⟨fun h => hcr h.symm, ih⟩
    · exact hcrlf
    · exact hcr
  | case4 => simp [universalNewlines]

theorem universalNewlines_of_not_mem (h : '\r' ∉ cs) : universalNewlines cs = cs := by
  induction cs with
  | nil => rfl
  | cons c cs ih =>
    rw [mem_cons, not_or] at h
    rw [universalNewlines, ih h.2]
    · rintro rest rfl
      exact absurd rfl h.1
    · rintro rfl
      exact h.1 rfl

theorem readText_eq_self_iff {text : String} : readText text = text ↔ '\r' ∉ text.toList := by
  constructor
  · intro h
    rw [← h, readText, String.toList_ofList]
    exact not_mem_universalNewlines _
  · intro h
    rw [readText, universalNewlines_of_not_mem h, String.ofList_toList]

end

section

open FilesystemToolOutputBackend

variable {k : OutputCodec} {b : FilesystemToolOutputBackend} {callId other output : String}

theorem path_inj : path callId = path other ↔ safeId callId = safeId other := by
  constructor
  · intro h
    have hlist := congrArg String.toList h
    unfold path at hlist
    rw [String.toList_append, String.toList_append] at hlist
    exact String.toList_inj.mp (append_cancel_right hlist)
  · intro h
    rw [path, path, h]

theorem path_ne_anchorsPath : path callId ≠ anchorsPath other := by
  intro h
  have hlist := congrArg (fun name : String => name.toList.getLast?) h
  simp [path, anchorsPath, String.toList_append, getLast?_append] at hlist

theorem get?_saveAnchors (payload : JsonValue) :
    (b.saveAnchors k callId payload).files.get? (path other) = b.files.get? (path other) := by
  unfold FilesystemToolOutputBackend.saveAnchors
  split
  · exact OrderedMap.get?_set_of_ne _ _ path_ne_anchorsPath
  · rw [OrderedMap.get?_erase, if_neg path_ne_anchorsPath]

theorem get?_saveOutput (anchors : List JsonValue.Members) (manifest : Option JsonValue.Members) :
    (saveOutput k b callId output anchors manifest).1.files.get? (path other) =
      if safeId callId = safeId other then some output else b.files.get? (path other) := by
  have hsave : (b.save callId output).files.get? (path other) =
      if safeId callId = safeId other then some output else b.files.get? (path other) := by
    change (b.files.set (path callId) output).get? (path other) = _
    rw [OrderedMap.get?_set]
    simp only [path_inj, eq_comm (a := safeId other)]
  have hanchors : ((b.save callId output).saveAnchors k callId
      (anchorPayload anchors manifest)).files.get? (path other) =
        if safeId callId = safeId other then some output else b.files.get? (path other) :=
    (get?_saveAnchors _).trans hsave
  unfold saveOutput
  dsimp only
  split
  · exact hsave
  · split
    · exact hanchors
    · split
      · exact hanchors
      · split
        · exact hanchors
        · exact hanchors

theorem get?_delete : (b.delete callId).files.get? (path other) =
    if safeId callId = safeId other then none else b.files.get? (path other) := by
  unfold FilesystemToolOutputBackend.delete
  rw [OrderedMap.get?_erase, if_neg path_ne_anchorsPath, OrderedMap.get?_erase]
  simp only [path_inj, eq_comm (a := safeId other)]

theorem hasAnchors_anchorPayload (hne : anchors ≠ []) :
    hasAnchors (anchorPayload anchors manifest) ↔ manifest ≠ some [] := by
  cases manifest with
  | none => simp [anchorPayload, hasAnchors, hne]
  | some => simp [anchorPayload, hasAnchors]

theorem loadAnchors_saveAnchors (hne : anchors ≠ [])
    (hjson : k.loads (readText (k.dumps (anchorPayload anchors manifest))) =
      some (anchorPayload anchors manifest)) :
    (b.saveAnchors k callId (anchorPayload anchors manifest)).loadAnchors k callId =
      some (anchorPayload anchors manifest) ↔ manifest ≠ some [] := by
  rw [← hasAnchors_anchorPayload hne]
  unfold FilesystemToolOutputBackend.saveAnchors FilesystemToolOutputBackend.loadAnchors
  by_cases hsome : hasAnchors (anchorPayload anchors manifest)
  · rw [if_pos hsome]
    refine iff_of_true ?_ hsome
    rw [OrderedMap.get?_set_self, Option.bind_some, hjson]
    cases manifest with
    | none | some => rfl
  · rw [if_neg hsome]
    refine iff_of_false ?_ hsome
    rw [OrderedMap.get?_erase, if_pos rfl]
    rintro ⟨⟩

theorem load_saved : (b.save callId output).load callId = some (readText output) := by
  change ((b.files.set (path callId) output).get? (path callId)).map readText = _
  rw [OrderedMap.get?_set_self]
  rfl

theorem present_saveAnchors (payload : JsonValue) :
    ((b.save callId output).saveAnchors k callId payload).present callId := by
  unfold FilesystemToolOutputBackend.present OrderedMap.contains
  rw [get?_saveAnchors]
  change ((b.files.set (path callId) output).get? (path callId)).isSome
  rw [OrderedMap.get?_set_self]
  rfl

theorem saveOutput_ok_iff
    (hdigest : k.sha256 (readText output) = k.sha256 output → readText output = output)
    (hjson : k.loads (readText (k.dumps (anchorPayload anchors manifest))) =
      some (anchorPayload anchors manifest)) :
    (∃ confirmed, (saveOutput k b callId output anchors manifest).2 = .ok confirmed) ↔
      '\r' ∉ output.toList ∧ (anchors = [] ∨ manifest ≠ some []) := by
  have hverifies : verifies k output ((b.save callId output).load callId) ↔
      '\r' ∉ output.toList := by
    rw [load_saved, ← readText_eq_self_iff]
    unfold verifies
    rw [Bool.and_eq_true, decide_eq_true_iff, decide_eq_true_iff]
    constructor
    · exact fun h => hdigest h.2
    · intro h
      rw [h]
      exact ⟨rfl, rfl⟩
  rw [← hverifies]
  unfold saveOutput
  dsimp only
  cases hv : verifies k output ((b.save callId output).load callId) with
  | false => simp
  | true =>
    rw [present_saveAnchors]
    by_cases hne : anchors = []
    · simp [hne]
    · have hload : ((b.save callId output).saveAnchors k callId
          (anchorPayload anchors manifest)).loadAnchors k callId =
            some (anchorPayload anchors manifest) ↔ manifest ≠ some [] :=
        loadAnchors_saveAnchors hne hjson
      simp only [Bool.not_true, Bool.false_eq_true, if_false, List.isEmpty_iff, if_neg hne,
        ne_eq, ite_not, true_and, or_iff_right hne]
      by_cases hmanifest : manifest = some []
      · rw [if_neg fun hsame => hload.mp hsame hmanifest]
        simp [hmanifest]
      · rw [if_pos (hload.mpr hmanifest)]
        simp [hmanifest]

end

section

variable {k : OutputCodec}

theorem get?_after (ops : List StoreOp) (callId : String) :
    (StoreOp.after k ops).files.get? (FilesystemToolOutputBackend.path callId) =
      StoreOp.underName ops callId := by
  induction ops using reverseRecOn with
  | nil => rfl
  | append_singleton ops op ih =>
    unfold StoreOp.after StoreOp.underName StoreOp.lastWritten at ih ⊢
    rw [foldl_append, foldl_append, foldl_cons, foldl_nil, foldl_cons, foldl_nil]
    cases op with
    | save other output anchors manifest =>
      change (saveOutput k _ other output anchors manifest).1.files.get? _ = _
      rw [get?_saveOutput, ih]
      simp only [decide_eq_true_eq]
    | delete other =>
      change (FilesystemToolOutputBackend.delete _ other).files.get? _ = _
      rw [get?_delete, ih]
      simp only [decide_eq_true_eq]
    | load => exact ih

theorem exists_save_of_lastWritten {touches : String → Bool} {ops : List StoreOp}
    {output : String} (h : StoreOp.lastWritten touches ops = some output) :
    ∃ callId anchors manifest, StoreOp.save callId output anchors manifest ∈ ops := by
  induction ops using reverseRecOn with
  | nil => cases h
  | append_singleton ops op ih =>
    have hearlier (hops : StoreOp.lastWritten touches ops = some output) :
        ∃ callId anchors manifest,
          StoreOp.save callId output anchors manifest ∈ ops ++ [op] := by
      obtain ⟨callId, anchors, manifest, hmem⟩ := ih hops
      exact ⟨callId, anchors, manifest, mem_append_left _ hmem⟩
    unfold StoreOp.lastWritten at h hearlier
    rw [foldl_append, foldl_cons, foldl_nil] at h
    cases op with
    | save callId saved anchors manifest =>
      dsimp only at h
      split at h
      · cases h
        exact ⟨callId, anchors, manifest, by simp⟩
      · exact hearlier h
    | delete =>
      dsimp only at h
      split at h
      · cases h
      · exact hearlier h
    | load => exact hearlier h

theorem load_after {ops : List StoreOp}
    (hplain : ∀ callId output anchors manifest,
      StoreOp.save callId output anchors manifest ∈ ops → '\r' ∉ output.toList)
    (callId : String) : (StoreOp.after k ops).load callId = StoreOp.underName ops callId := by
  unfold FilesystemToolOutputBackend.load
  rw [get?_after]
  cases hstored : StoreOp.underName ops callId with
  | none => rfl
  | some =>
    obtain ⟨other, anchors, manifest, hsave⟩ := exists_save_of_lastWritten hstored
    rw [Option.map_some, readText_eq_self_iff.mpr (hplain _ _ _ _ hsave)]

end

/-- The store is faithful to its call ids, every save succeeding and every load returning
what was saved last, exactly if all operations are clean; the file names fit the file system. -/
theorem store_faithful_iff (k : OutputCodec) (ops : List StoreOp)
    (hdigest : ∀ callId output anchors manifest, StoreOp.save callId output anchors manifest ∈ ops →
      k.sha256 (readText output) = k.sha256 output → readText output = output)
    (hjson : ∀ callId output anchors manifest, StoreOp.save callId output anchors manifest ∈ ops →
      k.loads (readText (k.dumps (anchorPayload anchors manifest))) =
        some (anchorPayload anchors manifest)) :
    (∀ before op, before ++ [op] <+: ops → op.Faithful k before) ↔
      ∀ before op, before ++ [op] <+: ops → op.Clean before := by
  have hsave {before : List StoreOp} {callId output : String}
      {anchors : List JsonValue.Members} {manifest : Option JsonValue.Members}
      (hpre : before ++ [.save callId output anchors manifest] <+: ops) :
      (StoreOp.save callId output anchors manifest).Faithful k before ↔
        (StoreOp.save callId output anchors manifest).Clean before := by
    have hmem := hpre.subset (mem_append_right before mem_cons_self)
    exact saveOutput_ok_iff (hdigest _ _ _ _ hmem) (hjson _ _ _ _ hmem)
  -- loads read plain text once every earlier save was clean
  have hload {before : List StoreOp} {callId : String}
      (hpre : before ++ [.load callId] <+: ops)
      (hsaves : ∀ earlier callId output anchors manifest,
        earlier ++ [.save callId output anchors manifest] <+: ops → '\r' ∉ output.toList) :
      (StoreOp.load callId).Faithful k before ↔ (StoreOp.load callId).Clean before := by
    have hplain : ∀ callId output anchors manifest,
        StoreOp.save callId output anchors manifest ∈ before → '\r' ∉ output.toList := by
      intro callId output anchors manifest hmem
      obtain ⟨earlier, later, hsplit⟩ := append_of_mem hmem
      apply hsaves earlier callId output anchors manifest
      have hearlier : earlier ++ [.save callId output anchors manifest] <+: before := by
        rw [hsplit]
        exact ⟨later, by simp⟩
      exact hearlier.trans ((prefix_append _ _).trans hpre)
    change (StoreOp.after k before).load callId = _ ↔ StoreOp.underName before callId = _
    rw [load_after hplain]
  constructor
  · intro hfaithful before op hpre
    cases op with
    | save => exact (hsave hpre).mp (hfaithful _ _ hpre)
    | delete => trivial
    | load =>
      refine (hload hpre ?_).mp (hfaithful _ _ hpre)
      intro earlier callId output anchors manifest hearlier
      exact ((hsave hearlier).mp (hfaithful _ _ hearlier)).1
  · intro hclean before op hpre
    cases op with
    | save => exact (hsave hpre).mpr (hclean _ _ hpre)
    | delete => trivial
    | load =>
      refine (hload hpre ?_).mpr (hclean _ _ hpre)
      intro earlier callId output anchors manifest hearlier
      exact (hclean _ _ hearlier).1

def plainOutputCodec : OutputCodec where
  dumps _ := "[]"
  loads _ := some (.arr [])
  sha256 text := text
  repr callId := callId

def collidingOps : List StoreOp :=
  [.save "a.b" "x" [] none, .save "a:b" "x" [] none, .load "a.b", .delete "a:b", .load "a:b"]

/-- Two ids with one file name hold the same text, until one of them is deleted. -/
theorem store_faithful_colliding :
    (StoreOp.load "a.b").Faithful plainOutputCodec (collidingOps.take 2) ∧
      (StoreOp.load "a:b").Faithful plainOutputCodec (collidingOps.take 4) := by
  have hall := (store_faithful_iff plainOutputCodec collidingOps (fun _ _ _ _ _ h => h) ?_).mpr ?_
  · exact ⟨hall _ _ ⟨_, rfl⟩, hall _ _ ⟨[], rfl⟩⟩
  · intro callId output anchors manifest hmem
    simp only [collidingOps, mem_cons, StoreOp.save.injEq, reduceCtorEq, not_mem_nil, or_self,
      or_false] at hmem
    obtain ⟨-, -, rfl, rfl⟩ | ⟨-, -, rfl, rfl⟩ := hmem <;> rfl
  · have hat (n : Nat) (op : StoreOp) (hop : collidingOps[n]? = some op) :
        op.Clean (collidingOps.take n) := by
      obtain _ | _ | _ | _ | _ | n := n <;> cases hop
      · exact ⟨by decide, .inl rfl⟩
      · exact ⟨by decide, .inl rfl⟩
      · change StoreOp.underName _ _ = StoreOp.expected _ _
        decide +kernel
      · trivial
      · change StoreOp.underName _ _ = StoreOp.expected _ _
        decide +kernel
    rintro before op ⟨rest, hrest⟩
    have htake : collidingOps.take before.length = before := by simp [← hrest]
    have hop : collidingOps[before.length]? = some op := by simp [← hrest]
    exact htake ▸ hat before.length op hop

/-- A text with a carriage return cannot be saved, and a call id loads what was saved under
another one with the same file name. -/
theorem store_not_faithful : ¬(StoreOp.save "a" "\r" [] none).Faithful plainOutputCodec [] ∧
      ¬(StoreOp.load "a.b").Faithful plainOutputCodec
        [.save "a.b" "x" [] none, .save "a:b" "y" [] none] := by
  constructor
  · rintro ⟨confirmed, hok⟩
    have herror : (saveOutput plainOutputCodec (StoreOp.after plainOutputCodec []) "a" "\r" []
        none).2.isOk = false := by decide +kernel
    rw [hok] at herror
    cases herror
  · change ¬(StoreOp.after plainOutputCodec _).load "a.b" = StoreOp.expected _ "a.b"
    decide +kernel

end Cognis.ToolOutput
