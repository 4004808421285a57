import Mathlib.Algebra.GroupWithZero.Nat
import Cognis.Library.OrderedMap

namespace Cognis.ToolOutput

open List

variable (s : ToolOutputSpool) (e : ToolOutputSpoolEntry) (now : Int) (key : SpoolKey)

structure ToolOutputChunk where
  index : Nat
  offset : Nat
  stream : Option String
  text : String
  createdAt : Int
  deriving DecidableEq

def ToolOutputChunk.size (c : ToolOutputChunk) : Nat := c.text.utf8ByteSize

def retainedBytes (chunks : List ToolOutputChunk) : Nat := (chunks.map (·.size)).sum

structure ToolOutputSpoolEntry where
  toolName : String
  turnId : Option String
  status : String := "running"
  chunks : List ToolOutputChunk := []
  totalBytes : Nat := 0
  droppedChunks : Nat := 0
  droppedBytes : Nat := 0
  truncated : Bool := false
  createdAt : Int
  updatedAt : Int
  deriving DecidableEq

structure ToolOutputSpoolPage where
  content : String
  chunks : List ToolOutputChunk
  status : String
  source : String := "live_spool"
  offset : Nat
  limit : Nat
  nextOffset : Option Nat
  prevOffset : Option Nat
  hasMoreBefore : Bool
  hasMoreAfter : Bool
  outputSize : Nat
  chunkCount : Nat
  truncated : Bool

/-- Conversation, session and call. -/
abbrev SpoolKey := String × String × String

structure ToolOutputSpool where
  ttl : Int := 900
  maxBytes : Nat := 2000000
  maxChunks : Nat := 10000
  entries : OrderedMap SpoolKey ToolOutputSpoolEntry := .empty

namespace ToolOutputSpoolEntry

def dropOldest : ToolOutputSpoolEntry :=
  match e.chunks with
  | [] => e
  | chunk :: chunks =>
    { e with
      chunks := chunks
      droppedChunks := e.droppedChunks + 1
      droppedBytes := e.droppedBytes + chunk.size
      truncated := true }

/-- `while exceeds(entry.chunks): _drop_oldest(entry)`, for as many rounds as there are
chunks. -/
def dropWhile (exceeds : List ToolOutputChunk → Bool) :
    Nat → ToolOutputSpoolEntry → ToolOutputSpoolEntry
  | 0, e => e
  | rounds + 1, e =>
    if exceeds e.chunks then dropWhile exceeds rounds e.dropOldest else e

def dropAllWhile (exceeds : List ToolOutputChunk → Bool) (e : ToolOutputSpoolEntry) :
    ToolOutputSpoolEntry := dropWhile exceeds e.chunks.length e

/-- The part of `append` that concerns the entry. -/
def push (text : String) (stream : Option String) : ToolOutputSpoolEntry :=
  { e with
    chunks := e.chunks ++ [{
      index := e.droppedChunks + e.chunks.length
      offset := e.droppedBytes + retainedBytes e.chunks
      stream := stream
      text := text
      createdAt := now }]
    totalBytes := e.totalBytes + text.utf8ByteSize
    updatedAt := now }

end ToolOutputSpoolEntry

namespace ToolOutputSpool

def enforceLimits : ToolOutputSpoolEntry :=
  (e.dropAllWhile fun chunks => s.maxChunks < chunks.length).dropAllWhile fun chunks =>
    s.maxBytes < retainedBytes chunks

def expired (e : ToolOutputSpoolEntry) : Bool :=
  e.updatedAt < now - s.ttl

def prune : ToolOutputSpool :=
  { s with
    entries := (s.entries.entries.filter fun p => s.expired now p.2).foldl
      (fun entries p => entries.erase p.1) s.entries }

def newEntry (toolName : String) (turnId : Option String) : ToolOutputSpoolEntry where
  toolName := toolName
  turnId := turnId
  createdAt := now
  updatedAt := now

/-- The entry `append` writes to, after pruning. -/
def entryFor (toolName : String) (turnId : Option String) : ToolOutputSpoolEntry :=
  (s.entries.get? key).getD (newEntry now toolName turnId)

/-- `append`, and the index and the byte offset it returns. -/
def append (toolName text : String) (stream turnId : Option String) : ToolOutputSpool × Nat × Nat :=
  let s := s.prune now
  let e := s.entryFor now key toolName turnId
  ({ s with entries := s.entries.set key (s.enforceLimits (e.push now text stream)) },
    e.droppedChunks + e.chunks.length, e.droppedBytes + retainedBytes e.chunks)

def markComplete (status : String) (toolName turnId : Option String) : ToolOutputSpool :=
  let e := s.entryFor now key ((toolName.filter (· ≠ "")).getD "tool") turnId
  { s with entries := s.entries.set key { e with status := status, updatedAt := now } }

/-- `get_entry`, and the spool it leaves. -/
def getEntry : ToolOutputSpool × Option ToolOutputSpoolEntry :=
  (s.prune now, (s.prune now).entries.get? key)

end ToolOutputSpool

/-- `max(1, min(limit, 1000))`. -/
def safeLimit (limit : Int) : Nat := (max 1 (min limit 1000)).toNat

def ToolOutputSpoolEntry.page (offset limit : Int) (latest : Bool) : ToolOutputSpoolPage :=
  let chunkCount := e.chunks.length
  let size := safeLimit limit
  let start := if latest then chunkCount - size else (max 0 offset).toNat
  let stop := min chunkCount (start + size)
  let selected := (e.chunks.drop start).take (stop - start)
  { content := String.join (selected.map (·.text))
    chunks := selected
    status := e.status
    offset := start
    limit := size
    nextOffset := if stop < chunkCount then some stop else none
    prevOffset := if 0 < start then some (start - size) else none
    hasMoreBefore := 0 < start || 0 < e.droppedChunks
    hasMoreAfter := stop < chunkCount
    outputSize := e.totalBytes
    chunkCount := e.droppedChunks + chunkCount
    truncated := e.truncated }

def ToolOutputSpool.page (s : ToolOutputSpool) (now : Int) (key : SpoolKey) (offset limit : Int)
    (latest : Bool) : ToolOutputSpool × Option ToolOutputSpoolPage :=
  ((s.getEntry now key).1, (s.getEntry now key).2.map fun e => e.page offset limit latest)

def Laid : Nat → Nat → List ToolOutputChunk → Prop
  | _, _, [] => True
  | index, offset, c :: chunks =>
    c.index = index ∧ c.offset = offset ∧ Laid (index + 1) (offset + c.size) chunks

section

variable {index offset : Nat} {chunks : List ToolOutputChunk}

@[simp] theorem retainedBytes_nil : retainedBytes [] = 0 := rfl

@[simp] theorem retainedBytes_cons (c : ToolOutputChunk) (chunks : List ToolOutputChunk) :
    retainedBytes (c :: chunks) = c.size + retainedBytes chunks := by
  simp [retainedBytes]

theorem laid_append_singleton {c : ToolOutputChunk} (h : Laid index offset chunks)
    (hindex : c.index = index + chunks.length)
    (hoffset : c.offset = offset + retainedBytes chunks) :
    Laid index offset (chunks ++ [c]) := by
  induction chunks generalizing index offset with
  | nil => exact ⟨hindex, hoffset, trivial⟩
  | cons d chunks ih =>
    obtain ⟨hi, ho, hrest⟩ := h
    refine ⟨hi, ho, ih hrest ?_ ?_⟩
    · rw [hindex, length_cons]
      omega
    · rw [hoffset, retainedBytes_cons]
      omega

theorem Laid.index_eq (h : Laid index offset chunks) {i : Nat} {c : ToolOutputChunk}
    (hc : chunks[i]? = some c) : c.index = index + i := by
  induction chunks generalizing index offset i with
  | nil => cases hc
  | cons d chunks ih =>
    obtain ⟨hi, -, hrest⟩ := h
    cases i with
    | zero =>
      cases hc
      exact hi
    | succ i =>
      rw [ih hrest hc]
      omega

end

/-- What holds of every entry: its chunks follow each other behind what was dropped, and
the bytes add up. -/
structure ToolOutputSpoolEntry.Ordered (e : ToolOutputSpoolEntry) : Prop where
  laid : Laid e.droppedChunks e.droppedBytes e.chunks
  total : e.droppedBytes + retainedBytes e.chunks = e.totalBytes

/-- The entry keeps to the bounds. -/
structure ToolOutputSpool.Within (s : ToolOutputSpool) (e : ToolOutputSpoolEntry) : Prop where
  chunks : e.chunks.length ≤ s.maxChunks
  bytes : retainedBytes e.chunks ≤ s.maxBytes

section

variable {e : ToolOutputSpoolEntry} {exceeds : List ToolOutputChunk → Bool}

/-- Only the oldest chunks go, and they are counted. -/
structure Trimmed (e e' : ToolOutputSpoolEntry) : Prop where
  ordered : e.Ordered → e'.Ordered
  suffix : ∃ n ≤ e.chunks.length, e'.chunks = e.chunks.drop n ∧
    e'.droppedChunks = e.droppedChunks + n

theorem Trimmed.refl (e : ToolOutputSpoolEntry) : Trimmed e e :=
  ⟨id, 0, Nat.zero_le _, rfl, rfl⟩

theorem Trimmed.trans {e' e'' : ToolOutputSpoolEntry} (h : Trimmed e e') (h' : Trimmed e' e'') :
    Trimmed e e'' := by
  obtain ⟨n, hn, hchunks, hdropped⟩ := h.suffix
  obtain ⟨n', hn', hchunks', hdropped'⟩ := h'.suffix
  rw [hchunks, length_drop] at hn'
  refine ⟨fun he => h'.ordered (h.ordered he), n + n', by omega, ?_, ?_⟩
  · rw [hchunks', hchunks, drop_drop]
  · omega

theorem trimmed_dropOldest (e : ToolOutputSpoolEntry) : Trimmed e e.dropOldest := by
  unfold ToolOutputSpoolEntry.dropOldest
  cases hc : e.chunks with
  | nil => exact .refl e
  | cons c chunks =>
    refine ⟨?_, 1, by rw [hc]; simp, by rw [hc]; rfl, rfl⟩
    rintro ⟨hlaid, htotal⟩
    rw [hc] at hlaid htotal
    refine ⟨hlaid.2.2, ?_⟩
    rw [retainedBytes_cons] at htotal
    change e.droppedBytes + c.size + retainedBytes chunks = e.totalBytes
    omega

theorem trimmed_dropWhile (rounds : Nat) (e : ToolOutputSpoolEntry) :
    Trimmed e (e.dropWhile exceeds rounds) := by
  induction rounds generalizing e with
  | zero => exact .refl e
  | succ rounds ih =>
    unfold ToolOutputSpoolEntry.dropWhile
    split
    · exact (trimmed_dropOldest e).trans (ih _)
    · exact .refl e

theorem dropAllWhile_stops (hnil : exceeds [] = false) (e : ToolOutputSpoolEntry) :
    exceeds (e.dropAllWhile exceeds).chunks = false := by
  unfold ToolOutputSpoolEntry.dropAllWhile
  cases hc : e.chunks.length with
  | zero =>
    rw [length_eq_zero_iff] at hc
    rw [ToolOutputSpoolEntry.dropWhile, hc]
    exact hnil
  | succ rounds =>
    induction rounds generalizing e with
    | zero =>
      unfold ToolOutputSpoolEntry.dropWhile
      split
      · obtain ⟨c, hchunks⟩ := length_eq_one_iff.mp hc
        rw [ToolOutputSpoolEntry.dropWhile, ToolOutputSpoolEntry.dropOldest, hchunks]
        exact hnil
      · rename_i hfits
        exact Bool.eq_false_iff.mpr hfits
    | succ rounds ih =>
      unfold ToolOutputSpoolEntry.dropWhile
      split
      · apply ih
        unfold ToolOutputSpoolEntry.dropOldest
        cases hchunks : e.chunks with
        | nil =>
          rw [hchunks] at hc
          cases hc
        | cons =>
          rw [hchunks, length_cons] at hc
          exact Nat.succ.inj hc
      · rename_i hfits
        exact Bool.eq_false_iff.mpr hfits

end

section

variable {s : ToolOutputSpool} {e : ToolOutputSpoolEntry}

theorem trimmed_enforceLimits (s : ToolOutputSpool) (e : ToolOutputSpoolEntry) :
    Trimmed e (s.enforceLimits e) :=
  (trimmed_dropWhile _ e).trans (trimmed_dropWhile _ _)

theorem within_enforceLimits (s : ToolOutputSpool) (e : ToolOutputSpoolEntry) :
    s.Within (s.enforceLimits e) := by
  let tooMany (chunks : List ToolOutputChunk) : Bool := s.maxChunks < chunks.length
  let tooLarge (chunks : List ToolOutputChunk) : Bool := s.maxBytes < retainedBytes chunks
  let fewer := e.dropAllWhile tooMany
  have hchunks : fewer.chunks.length ≤ s.maxChunks := by
    have hstop : tooMany fewer.chunks = false := dropAllWhile_stops (by simp [tooMany]) e
    simpa [tooMany] using hstop
  have hbytes : tooLarge (fewer.dropAllWhile tooLarge).chunks = false :=
    dropAllWhile_stops (by simp [tooLarge]) fewer
  have htrimmed : Trimmed fewer (fewer.dropAllWhile tooLarge) := trimmed_dropWhile _ fewer
  obtain ⟨n, -, hsuffix, -⟩ := htrimmed.suffix
  constructor
  · change (fewer.dropAllWhile tooLarge).chunks.length ≤ s.maxChunks
    rw [hsuffix, length_drop]
    omega
  · change retainedBytes (fewer.dropAllWhile tooLarge).chunks ≤ s.maxBytes
    simpa [tooLarge] using hbytes

theorem ToolOutputSpoolEntry.Ordered.push (h : e.Ordered) (now : Int) (text : String)
    (stream : Option String) : (e.push now text stream).Ordered := by
  refine ⟨laid_append_singleton h.laid rfl rfl, ?_⟩
  change e.droppedBytes + retainedBytes (e.chunks ++ [_]) = e.totalBytes + text.utf8ByteSize
  rw [← h.total]
  simp [retainedBytes, ToolOutputChunk.size]
  omega

theorem ToolOutputSpoolEntry.Ordered.append (h : e.Ordered) (s : ToolOutputSpool) (now : Int)
    (text : String) (stream : Option String) :
    (s.enforceLimits (e.push now text stream)).Ordered ∧
      s.Within (s.enforceLimits (e.push now text stream)) :=
  ⟨(trimmed_enforceLimits s _).ordered (h.push now text stream), within_enforceLimits s _⟩

theorem ordered_newEntry (toolName : String) (turnId : Option String) :
    (ToolOutputSpool.newEntry now toolName turnId).Ordered := ⟨trivial, rfl⟩

end

end Cognis.ToolOutput
