import Noid.Lib.Run
import Noid.Tx.Types

/-! # The segmented slot state

The raw state is a vector of `2 ^ logSlots` slots, cut into segments of at most `2 ^ 16`.  A segment without columns is
virtual zero or *evicted*: its data is in durable storage and has to be hydrated before it is read or written.

A hash set is a list here: every iteration order of the set is the order of some list.  The commitments are uninterpreted
(`SegmentHash`).  A function that indexes a vector or asserts returns an `Option`, and `none` is the panic. -/

namespace Noid.Chain

open Noid.Lib

/-- One UTXO slot: the packed `amount`/`creation_id` word and the owner lanes. -/
structure SlotValue where
  amount : ℕ
  creationId : ℕ
  owner : Address
deriving DecidableEq, Repr

namespace SlotValue

/-- The all-zero slot. -/
def EMPTY : SlotValue := ⟨0, 0, 0⟩

def isEmpty (v : SlotValue) : Bool := decide (v = EMPTY)

@[simp] lemma isEmpty_iff (v : SlotValue) : v.isEmpty = true ↔ v = EMPTY := by
  simp [isEmpty]

@[simp] lemma isEmpty_EMPTY : EMPTY.isEmpty = true := rfl

@[simp] lemma amount_EMPTY : EMPTY.amount = 0 := rfl

end SlotValue

/-- `log2` of a full segment's slot count. -/
def LOG_SEGMENT_SIZE : ℕ := 16

/-- The three columns of a segment, as the slot at each local index. -/
abbrev SegmentColumns := ℕ → SlotValue

def SegmentColumns.newZero : SegmentColumns := fun _ => SlotValue.EMPTY

/-- The raw commitment functions: two-to-one compression and the root of `2 ^ log` columns. -/
structure SegmentHash where
  compress : Digest → Digest → Digest
  computeSegRoot : ℕ → SegmentColumns → Digest

/-- The commitment of a virtual zero segment of `2 ^ log` slots. -/
def SegmentHash.zeroSegRootFor (H : SegmentHash) (log : ℕ) : Digest :=
  H.computeSegRoot log SegmentColumns.newZero

/-! ### Sets of segment ids -/

namespace IdSet

def remove (ids : List ℕ) (id : ℕ) : List ℕ := ids.filter (· ≠ id)

def retainBelow (ids : List ℕ) (bound : ℕ) : List ℕ := ids.filter (· < bound)

@[simp] lemma mem_remove {ids : List ℕ} {id x : ℕ} : x ∈ remove ids id ↔ x ∈ ids ∧ x ≠ id := by
  simp [remove]

@[simp] lemma mem_retainBelow {ids : List ℕ} {bound x : ℕ} :
    x ∈ retainBelow ids bound ↔ x ∈ ids ∧ x < bound := by
  simp [retainBelow]

end IdSet

/-! ### The hot-segment cache -/

/-- The bounded LRU of exact segment trees: id and resident bytes of each entry, oldest first. -/
structure ExactSegmentCache where
  entries : List (ℕ × ℕ) := []
  bytes : ℕ := 0
  budget : ℕ := 64 * 1024 * 1024
deriving DecidableEq, Repr

namespace ExactSegmentCache

def contains (c : ExactSegmentCache) (id : ℕ) : Bool := c.entries.any (·.1 = id)

def remove (c : ExactSegmentCache) (id : ℕ) : ExactSegmentCache :=
  match c.entries.find? (·.1 = id) with
  | none => c
  | some e => { c with entries := c.entries.erase e, bytes := c.bytes - e.2 }

/-- Drop the oldest entries until `need` more bytes fit the budget. -/
def makeRoom (budget need : ℕ) : List (ℕ × ℕ) → ℕ → List (ℕ × ℕ) × ℕ
  | [], bytes => ([], bytes)
  | e :: es, bytes =>
    if budget < bytes + need then makeRoom budget need es (bytes - e.2) else (e :: es, bytes)

def insert (c : ExactSegmentCache) (id size : ℕ) : ExactSegmentCache :=
  let c := c.remove id
  if c.budget < size then c
  else
    let (entries, bytes) := makeRoom c.budget size c.entries c.bytes
    { c with entries := entries ++ [(id, size)], bytes := bytes + size }

/-- A written slot moves its segment's tree to the recent end. -/
def updateSlot (c : ExactSegmentCache) (id : ℕ) : ExactSegmentCache :=
  match c.entries.find? (·.1 = id) with
  | none => c
  | some e => { c with entries := c.entries.erase e ++ [e] }

def clear (c : ExactSegmentCache) : ExactSegmentCache := { c with entries := [], bytes := 0 }

def truncateSegments (c : ExactSegmentCache) (count : ℕ) : ExactSegmentCache :=
  let entries := c.entries.filter (·.1 < count)
  { c with entries := entries, bytes := (entries.map (·.2)).sum }

end ExactSegmentCache

/-! ### The state -/

/-- The segmented raw state and its residency and commitment metadata. -/
structure SegmentedFriState where
  logSlots : ℕ
  effectiveLogSeg : ℕ
  numSegments : ℕ
  segments : List (Option SegmentColumns)
  segRoots : List (Option Digest)
  liveCounts : List ℕ
  tree : List Digest
  treeDirty : Bool
  dirty : List ℕ
  mdbxDirty : List ℕ
  exactDirty : List ℕ
  exactSegmentCache : ExactSegmentCache
  evicted : List ℕ
  dirtyTreeLeaves : List ℕ

/-- Errors of rolling the slot domain back across an expansion. -/
inductive StateResizeError where
  | invalidTarget (current target : ℕ)
  | evictedUpperSegment (segId : ℕ)
  | nonEmptyUpperHalf (segId : ℕ)
deriving DecidableEq, Repr

/-- Write a vector entry; out of range panics. -/
def setAt? {α : Type} (l : List α) (i : ℕ) (a : α) : Option (List α) :=
  if i < l.length then some (l.set i a) else none

/-- Recompute one internal tree node from its two children. -/
def hashNode? (H : SegmentHash) (tree : List Digest) (k : ℕ) : Option (List Digest) := do
  let left ← tree[2 * k]?
  let right ← tree[2 * k + 1]?
  setAt? tree k (H.compress left right)

/-- Recompute the internal nodes `n - 1, …, 1`. -/
def hashAll? (H : SegmentHash) (n : ℕ) (tree : List Digest) : Option (List Digest) :=
  (List.range' 1 (n - 1)).reverse.foldlM (hashNode? H) tree

/-- A fresh tree over `n` leaves read from the cached commitments. -/
def rebuildTree? (H : SegmentHash) (n : ℕ) (segRoots : List (Option Digest)) (zeroLeaf : Digest) :
    Option (List Digest) := do
  let leaves ← (List.range n).foldlM (fun tree i => do
    let root ← segRoots[i]?
    setAt? tree (n + i) (root.getD zeroLeaf)) (List.replicate (2 * n + 1) 0)
  hashAll? H n leaves

/-- The proper ancestors of a tree node, nearest first. -/
def ancestors : ℕ → ℕ → List ℕ
  | 0, _ => []
  | fuel + 1, k =>
    if k / 2 = 0 then [] else if k / 2 = 1 then [1] else k / 2 :: ancestors fuel (k / 2)

namespace SegmentedFriState

/-- The number of segments of a domain of `2 ^ log` slots. -/
def segmentCount (log : ℕ) : ℕ :=
  if LOG_SEGMENT_SIZE < log then 2 ^ (log - LOG_SEGMENT_SIZE) else 1

/-- The empty state with `2 ^ log` zero slots. -/
def newEmpty (H : SegmentHash) (log : ℕ) : Option SegmentedFriState :=
  let effective := min log LOG_SEGMENT_SIZE
  let n := segmentCount log
  let zeroLeaf := H.zeroSegRootFor effective
  let segRoots := List.replicate n (some zeroLeaf)
  if log < 1 then none
  else
    (rebuildTree? H n segRoots zeroLeaf).map fun tree =>
      { logSlots := log, effectiveLogSeg := effective, numSegments := n
        segments := List.replicate n none, segRoots := segRoots
        liveCounts := List.replicate n 0, tree := tree, treeDirty := false
        dirty := [], mdbxDirty := [], exactDirty := [], exactSegmentCache := {}
        evicted := [], dirtyTreeLeaves := [] }

/-! ### Slots -/

def numSlots (s : SegmentedFriState) : ℕ := 2 ^ s.logSlots

def segIdOf (s : SegmentedFriState) (idx : ℕ) : ℕ := idx / 2 ^ s.effectiveLogSeg

def localIdxOf (s : SegmentedFriState) (idx : ℕ) : ℕ := idx % 2 ^ s.effectiveLogSeg

/-- The columns of a segment in memory. -/
def columns (s : SegmentedFriState) (id : ℕ) : Option SegmentColumns := (s.segments[id]?).join

def segmentLiveCount (s : SegmentedFriState) (id : ℕ) : ℕ := s.liveCounts.getD id 0

def isEvicted (s : SegmentedFriState) (id : ℕ) : Bool := s.evicted.contains id

/-- Read one slot; a segment without columns reads as zero. -/
def slot (s : SegmentedFriState) (idx : ℕ) : SlotValue :=
  match s.columns (s.segIdOf idx) with
  | none => SlotValue.EMPTY
  | some cols => cols (s.localIdxOf idx)

/-- Number of live slots among the first `size` of a segment. -/
def countLive (size : ℕ) (cols : SegmentColumns) : ℕ :=
  (List.range size).countP fun i => !(cols i).isEmpty

/-- The live count after one slot of the segment changes from `old` to `v` (saturating `u32`). -/
def liveAfter (live : ℕ) (old v : SlotValue) : ℕ :=
  match old.isEmpty, v.isEmpty with
  | true, false => min (live + 1) (2 ^ 32 - 1)
  | false, true => live - 1
  | _, _ => live

/-- Store `v` at a slot whose segment columns are `cols`, with the evicted set `evicted`. -/
def storeSlot (s : SegmentedFriState) (idx : ℕ) (v : SlotValue) (cols : SegmentColumns)
    (evicted : List ℕ) : SegmentedFriState :=
  let seg := s.segIdOf idx
  let live := liveAfter (s.segmentLiveCount seg) (s.slot idx) v
  { s with
    segments := s.segments.set seg
      (if live = 0 then none else some (Function.update cols (s.localIdxOf idx) v))
    liveCounts := s.liveCounts.set seg live
    evicted := if live = 0 then IdSet.remove evicted seg else evicted
    exactSegmentCache :=
      if live = 0 then s.exactSegmentCache.remove seg else s.exactSegmentCache.updateSlot seg
    segRoots := s.segRoots.set seg none
    dirty := s.dirty.insert seg
    mdbxDirty := s.mdbxDirty.insert seg
    exactDirty := s.exactDirty.insert seg
    treeDirty := true }

def writeSlot (s : SegmentedFriState) (idx : ℕ) (v : SlotValue) : SegmentedFriState :=
  if s.slot idx = v then s
  else
    match s.columns (s.segIdOf idx) with
    | some cols => s.storeSlot idx v cols s.evicted
    | none =>
      -- writing EMPTY to virtual zero is a no-op; anything else materialises the segment
      if v.isEmpty then s
      else s.storeSlot idx v SegmentColumns.newZero (IdSet.remove s.evicted (s.segIdOf idx))

/-- A batch of writes; an index out of range refuses the whole batch. -/
def applyDeltaUnrooted (s : SegmentedFriState) (deltas : List (ℕ × SlotValue)) :
    Option SegmentedFriState :=
  if deltas.all (fun d => d.1 < s.numSlots) then
    some (deltas.foldl (fun s d => s.writeSlot d.1 d.2) s)
  else none

/-! ### Commitments -/

/-- Write a commitment to its tree leaf; a single segment has no tree. -/
def setLeaf (s : SegmentedFriState) (id : ℕ) (root : Digest) : Option SegmentedFriState :=
  if s.numSegments ≤ 1 then some s
  else
    (setAt? s.tree (s.numSegments + id) root).map fun tree =>
      { s with tree := tree, treeDirty := true, dirtyTreeLeaves := s.dirtyTreeLeaves.insert id }

/-- Record a recomputed commitment and its tree leaf. -/
def installRoot (s : SegmentedFriState) (id : ℕ) (root : Digest) : Option SegmentedFriState :=
  setLeaf { s with segRoots := s.segRoots.set id (some root), dirty := IdSet.remove s.dirty id } id root

def rootOfColumns (H : SegmentHash) (s : SegmentedFriState) : Option SegmentColumns → Digest
  | none => H.zeroSegRootFor s.effectiveLogSeg
  | some cols => H.computeSegRoot s.effectiveLogSeg cols

/-- Recompute the commitment of one dirty segment; the segment must be resident. -/
def flushSegment (H : SegmentHash) (s : SegmentedFriState) (id : ℕ) : Option SegmentedFriState :=
  match s.segRoots[id]? with
  | none => none
  | some cached =>
    if id ∉ s.dirty ∧ cached.isSome then some s
    -- "segment commitment requested for evicted segment; hydrate it first"
    else if id ∈ s.evicted then none
    else
      match s.segments[id]? with
      | none => none
      | some cols => s.installRoot id (s.rootOfColumns H cols)

/-- Propagate changed leaves upward, from the largest node index to the root. -/
def flushTree (H : SegmentHash) (s : SegmentedFriState) : Option SegmentedFriState :=
  if s.treeDirty = false ∨ s.numSegments ≤ 1 then
    some { s with treeDirty := false, dirtyTreeLeaves := [] }
  else if s.dirtyTreeLeaves = [] then
    (hashAll? H s.numSegments s.tree).map fun tree => { s with tree := tree, treeDirty := false }
  else
    let nodes := s.dirtyTreeLeaves.flatMap fun id => ancestors (s.numSegments + id) (s.numSegments + id)
    ((nodes.dedup.mergeSort (fun a b => decide (b ≤ a))).foldlM (hashNode? H) s.tree).map fun tree =>
      { s with tree := tree, treeDirty := false, dirtyTreeLeaves := [] }

def flushAllDirty (H : SegmentHash) (s : SegmentedFriState) : Option SegmentedFriState :=
  (s.dirty.foldlM (flushSegment H) s).bind (flushTree H)

/-! ### Residency -/

/-- Install the durable residency and live count of an evicted segment. -/
def installEvictedExactSummary (s : SegmentedFriState) (id live : ℕ) : Option SegmentedFriState :=
  if s.numSegments ≤ id ∨ live = 0 then none
  else
    some { s with
      exactSegmentCache := s.exactSegmentCache.remove id
      segments := s.segments.set id none
      liveCounts := s.liveCounts.set id live
      segRoots := s.segRoots.set id none
      evicted := s.evicted.insert id
      dirty := s.dirty.insert id
      treeDirty := true }

/-- Seal a startup image; the commitment-dirty markers survive. -/
def finishEvictedExactSummaries (s : SegmentedFriState) : SegmentedFriState :=
  { s with mdbxDirty := [], exactDirty := [] }

/-- Install the durable summary of an evicted segment with its commitment. -/
def installEvictedSegmentSummary (s : SegmentedFriState) (id live : ℕ) (root : Digest) : Option SegmentedFriState :=
  if s.numSegments ≤ id ∨ live = 0 then none
  else
    setLeaf { s with
      exactSegmentCache := s.exactSegmentCache.remove id
      segments := s.segments.set id none
      liveCounts := s.liveCounts.set id live
      segRoots := s.segRoots.set id (some root)
      evicted := s.evicted.insert id } id root

/-- Seal a startup image whose summaries carry commitments. -/
def finishEvictedSegmentSummaries (H : SegmentHash) (s : SegmentedFriState) : Option SegmentedFriState :=
  (s.flushTree H).map fun s => { s with dirty := [], mdbxDirty := [], exactDirty := [] }

/-- After a rolled-back transition: reinstall the durable parent's commitment, if any, and drop the columns. -/
def restorePersistedSegmentSummaryAndEvict (H : SegmentHash) (s : SegmentedFriState) (id : ℕ)
    (parentRoot : Option Digest) : Option SegmentedFriState :=
  if s.numSegments ≤ id ∨ id ∈ s.mdbxDirty ∨ id ∈ s.exactDirty then none
  else
    let empty := s.segmentLiveCount id = 0
    let root := if empty then some (H.zeroSegRootFor s.effectiveLogSeg) else parentRoot
    let s := { s with
      exactSegmentCache := s.exactSegmentCache.remove id
      segments := s.segments.set id none
      segRoots := s.segRoots.set id root
      evicted := if empty then IdSet.remove s.evicted id else s.evicted.insert id
      dirty := if root.isSome then IdSet.remove s.dirty id else s.dirty.insert id }
    match root with
    | some root => s.setLeaf id root
    | none => some { s with treeDirty := s.treeDirty || decide (1 < s.numSegments) }

/-- Drop a segment's columns, keeping its commitment. -/
def evictSegment (s : SegmentedFriState) (id : ℕ) : Option SegmentedFriState :=
  match s.segments[id]? with
  | none => none
  | some none => some { s with exactSegmentCache := s.exactSegmentCache.remove id }
  | some (some _) =>
    some { s with
      exactSegmentCache := s.exactSegmentCache.remove id
      segments := s.segments.set id none
      evicted := s.evicted.insert id }

/-- Hydrate a segment from columns loaded from durable storage. -/
def restoreEvictedSegment (s : SegmentedFriState) (id : ℕ) (cols : SegmentColumns) :
    Option SegmentedFriState :=
  if s.segments.length ≤ id then none
  else
    let live := countLive (2 ^ s.effectiveLogSeg) cols
    some { s with
      exactSegmentCache := s.exactSegmentCache.remove id
      liveCounts := s.liveCounts.set id live
      segments := s.segments.set id (if live = 0 then none else some cols)
      evicted := IdSet.remove s.evicted id
      segRoots := s.segRoots.set id none
      dirty := s.dirty.insert id
      treeDirty := true }

/-- Drop one segment of an eviction sweep when `cond` selects it. -/
def evictWhere (cond : SegmentedFriState → ℕ → Bool) (s : SegmentedFriState) (id : ℕ) :
    SegmentedFriState :=
  if (s.columns id).isSome && cond s id then
    { s with
      exactSegmentCache := s.exactSegmentCache.remove id
      segments := s.segments.set id none
      evicted := s.evicted.insert id }
  else s

/-- Evict every segment that is not waiting to be persisted. -/
def evictCleanSegments (s : SegmentedFriState) : SegmentedFriState :=
  (List.range s.numSegments).foldl (evictWhere fun s id => !s.mdbxDirty.contains id) s

/-- Evict every live segment; asserts that nothing waits to be persisted. -/
def evictAllPersistedSegments (s : SegmentedFriState) : Option SegmentedFriState :=
  if s.mdbxDirty = [] then
    some ((List.range s.numSegments).foldl (evictWhere fun s id => s.segmentLiveCount id ≠ 0)
      { s with exactSegmentCache := s.exactSegmentCache.clear })
  else none

/-- Evict the live segments outside the hot cache; asserts clean persistence and exact roots. -/
def evictColdPersistedSegments (s : SegmentedFriState) : Option SegmentedFriState :=
  if s.mdbxDirty = [] ∧ s.exactDirty = [] then
    some ((List.range s.numSegments).foldl
      (evictWhere fun s id => s.segmentLiveCount id ≠ 0 && !s.exactSegmentCache.contains id) s)
  else none

def clearDirty (s : SegmentedFriState) : SegmentedFriState := { s with mdbxDirty := [] }

def clearExactDirty (s : SegmentedFriState) : SegmentedFriState := { s with exactDirty := [] }

/-- Remember a freshly built exact tree of `size` bytes for a resident live segment. -/
def rememberExactSegmentTree (s : SegmentedFriState) (id size : ℕ) : SegmentedFriState :=
  if s.segmentLiveCount id ≠ 0 && !s.isEvicted id then
    { s with exactSegmentCache := s.exactSegmentCache.insert id size }
  else s

end SegmentedFriState

end Noid.Chain
