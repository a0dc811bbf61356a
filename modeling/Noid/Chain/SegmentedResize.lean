import Noid.Chain.SegmentedState

/-! # Growing and shrinking the slot domain

`shrinkToLogSlots` undoes expansions after a rollback has emptied the upper half; `shrinkExactMetadataToLogSlots` is its
sibling for historical views, which touches no raw commitment. -/

namespace Noid.Chain

open Noid.Lib

/-- `Vec::resize`. -/
def resizeVec {α : Type} (l : List α) (n : ℕ) (a : α) : List α :=
  l.take n ++ List.replicate (n - l.length) a

namespace SegmentedFriState

/-- Double the slot domain; the new upper half is virtual zero. -/
def expand (H : SegmentHash) (s : SegmentedFriState) : Option SegmentedFriState :=
  let log := s.logSlots + 1
  if log ≤ LOG_SEGMENT_SIZE then
    -- still one segment: its columns grow by zeros
    match s.segments[0]? with
    | none => none
    | some cols =>
      flushAllDirty H { s with
        logSlots := log
        effectiveLogSeg := log
        exactSegmentCache := s.exactSegmentCache.remove 0
        segments := s.segments.set 0
          (cols.map fun c i => if i < 2 ^ (log - 1) then c i else SlotValue.EMPTY)
        segRoots := s.segRoots.set 0 none
        dirty := s.dirty.insert 0
        exactDirty := s.exactDirty.insert 0
        treeDirty := true }
  else
    let n := s.numSegments * 2
    let zeroLeaf := H.zeroSegRootFor s.effectiveLogSeg
    let segRoots := resizeVec s.segRoots s.numSegments none ++ List.replicate s.numSegments (some zeroLeaf)
    (rebuildTree? H n segRoots zeroLeaf).map fun tree =>
      { s with
        logSlots := log
        numSegments := n
        segments := resizeVec s.segments n none
        segRoots := segRoots
        liveCounts := resizeVec s.liveCounts n 0
        tree := tree
        treeDirty := false }

/-- The first segment in `[lo, hi)` that keeps the upper half from being dropped. -/
def upperFault (s : SegmentedFriState) (busy : ℕ → Bool) (lo hi : ℕ) : Option StateResizeError :=
  (List.range' lo (hi - lo)).findSome? fun id =>
    if id ∈ s.evicted then some (.evictedUpperSegment id)
    else if busy id then some (.nonEmptyUpperHalf id)
    else none

/-- Drop the segments from `n` on; the tree is left to the caller. -/
def dropSegments (s : SegmentedFriState) (log n : ℕ) : SegmentedFriState :=
  { s with
    logSlots := log
    numSegments := n
    exactSegmentCache := s.exactSegmentCache.truncateSegments n
    segments := s.segments.take n
    segRoots := s.segRoots.take n
    liveCounts := s.liveCounts.take n
    evicted := IdSet.retainBelow s.evicted n
    dirty := IdSet.retainBelow s.dirty n
    mdbxDirty := IdSet.retainBelow s.mdbxDirty n
    exactDirty := IdSet.retainBelow s.exactDirty n
    dirtyTreeLeaves := IdSet.retainBelow s.dirtyTreeLeaves n }

/-- The lower half of a single segment's columns, dropped when nothing in it is live. -/
def keepLower (keep : ℕ) : Option SegmentColumns → Option SegmentColumns
  | none => none
  | some c =>
    if countLive keep c = 0 then none
    else some fun i => if i < keep then c i else SlotValue.EMPTY

/-- The upper half of a single segment's columns is zero. -/
def upperIsEmpty (keep : ℕ) : Option SegmentColumns → Bool
  | none => true
  | some c => (List.range' keep keep).all fun i => (c i).isEmpty

/-- One halving inside a single segment: the upper half of its columns must be zero. -/
def shrinkSingle (H : SegmentHash) (s : SegmentedFriState) :
    Option (Except StateResizeError Unit × SegmentedFriState) :=
  let keep := 2 ^ (s.logSlots - 1)
  match s.segments[0]? with
  | none => none
  | some cols =>
    if 0 ∈ s.evicted then some (.error (.evictedUpperSegment 0), s)
    else if upperIsEmpty keep cols = false then some (.error (.nonEmptyUpperHalf 0), s)
    else
      (flushAllDirty H { s with
        segments := s.segments.set 0 (keepLower keep cols)
        liveCounts := s.liveCounts.set 0
          (match cols with
           | none => s.segmentLiveCount 0
           | some c => countLive keep c)
        logSlots := s.logSlots - 1
        effectiveLogSeg := s.logSlots - 1
        exactSegmentCache := s.exactSegmentCache.remove 0
        segRoots := s.segRoots.set 0 none
        dirty := s.dirty.insert 0
        mdbxDirty := s.mdbxDirty.insert 0
        exactDirty := s.exactDirty.insert 0
        treeDirty := true }).map fun s => (.ok (), s)

/-- One halving over several segments: the upper half must be empty and resident. -/
def shrinkHalf (H : SegmentHash) (s : SegmentedFriState) :
    Option (Except StateResizeError Unit × SegmentedFriState) :=
  let n := s.numSegments / 2
  match s.upperFault (fun id => s.segmentLiveCount id ≠ 0) n s.numSegments with
  | some e => some (.error e, s)
  | none =>
    (rebuildTree? H n (s.segRoots.take n) (H.zeroSegRootFor s.effectiveLogSeg)).map fun tree =>
      (.ok (), { s.dropSegments (s.logSlots - 1) n with tree := tree, treeDirty := false })

/-- One round of the shrink loop: flush, then halve. -/
def shrinkStep (H : SegmentHash) (s : SegmentedFriState) :
    Option (Except StateResizeError Unit × SegmentedFriState) :=
  (flushAllDirty H s).bind fun s =>
    if s.logSlots ≤ LOG_SEGMENT_SIZE then shrinkSingle H s else shrinkHalf H s

/-- The shrink loop; a round that succeeds lowers `logSlots` by one. -/
def shrinkLoop (H : SegmentHash) (target : ℕ) :
    ℕ → SegmentedFriState → Option (Except StateResizeError Unit × SegmentedFriState)
  | 0, s => some (.ok (), s)
  | fuel + 1, s =>
    if s.logSlots ≤ target then some (.ok (), s)
    else
      match shrinkStep H s with
      | none => none
      | some (.error e, s) => some (.error e, s)
      | some (.ok _, s) => shrinkLoop H target fuel s

/-- Shrink to a previously committed depth; `none` is a panic. -/
def shrinkToLogSlots (H : SegmentHash) (s : SegmentedFriState) (target : ℕ) :
    Option (Except StateResizeError Unit × SegmentedFriState) :=
  if target < 1 ∨ s.logSlots < target then
    some (.error (.invalidTarget s.logSlots target), s)
  else shrinkLoop H target (s.logSlots - target) s

/-- The leaves of a fresh tree where a commitment is cached, and zero elsewhere. -/
def compactLeaves (n : ℕ) (segRoots : List (Option Digest)) : List Digest :=
  (List.range n).foldl
    (fun tree i => match (segRoots[i]?).join with
      | none => tree
      | some root => tree.set (n + i) root) (List.replicate (2 * n + 1) 0)

/-- Exact-only rollback of the residency metadata: no commitment is flushed or hashed. -/
def shrinkExactMetadataToLogSlots (s : SegmentedFriState) (target : ℕ) :
    Except StateResizeError Unit × SegmentedFriState :=
  if target = s.logSlots then (.ok (), s)
  else if s.effectiveLogSeg ≠ LOG_SEGMENT_SIZE ∨ target < LOG_SEGMENT_SIZE ∨ s.logSlots < target then
    (.error (.invalidTarget s.logSlots target), s)
  else
    let n := 2 ^ (target - LOG_SEGMENT_SIZE)
    match s.upperFault (fun id => s.segmentLiveCount id ≠ 0 || (s.columns id).isSome) n
        s.numSegments with
    | some e => (.error e, s)
    | none =>
      let s := s.dropSegments target n
      (.ok (), { s with tree := compactLeaves n s.segRoots, treeDirty := true
                        dirtyTreeLeaves := [] })

end SegmentedFriState

/-! ### Operations on a live state -/

/-- The deepest slot domain; slot indices are `u32` and segment ids `u16`. -/
def LOG_SLOTS_MAX : ℕ := 32

/-- What the durable context does to a state between two reorganizations. -/
inductive SegOp where
  | installEvictedExactSummary (id live : ℕ)
  | finishEvictedExactSummaries
  | installEvictedSegmentSummary (id live : ℕ) (root : Digest)
  | finishEvictedSegmentSummaries
  | restorePersistedSegmentSummaryAndEvict (id : ℕ) (parentRoot : Option Digest)
  | applyDeltaUnrooted (deltas : List (ℕ × SlotValue))
  | restoreEvictedSegment (id : ℕ) (cols : SegmentColumns)
  | evictSegment (id : ℕ)
  | evictCleanSegments | evictAllPersistedSegments | evictColdPersistedSegments | clearDirty
  | clearExactDirty
  | rememberExactSegmentTree (id size : ℕ)
  | root | expand

/-- The state after one operation; `none` when it is refused or panics. -/
def SegOp.apply (H : SegmentHash) (s : SegmentedFriState) : SegOp → Option SegmentedFriState
  | .installEvictedExactSummary id live => s.installEvictedExactSummary id live
  | .finishEvictedExactSummaries => some s.finishEvictedExactSummaries
  | .installEvictedSegmentSummary id live digest => s.installEvictedSegmentSummary id live digest
  | .finishEvictedSegmentSummaries => s.finishEvictedSegmentSummaries H
  | .restorePersistedSegmentSummaryAndEvict id digest? => s.restorePersistedSegmentSummaryAndEvict H id digest?
  | .applyDeltaUnrooted deltas => s.applyDeltaUnrooted deltas
  | .restoreEvictedSegment id cols => s.restoreEvictedSegment id cols
  | .evictSegment id => s.evictSegment id
  | .evictCleanSegments => some s.evictCleanSegments
  | .evictAllPersistedSegments => s.evictAllPersistedSegments
  | .evictColdPersistedSegments => s.evictColdPersistedSegments
  | .clearDirty => some s.clearDirty
  | .clearExactDirty => some s.clearExactDirty
  | .rememberExactSegmentTree id size => some (s.rememberExactSegmentTree id size)
  | .root => s.flushAllDirty H
  | .expand => if s.logSlots < LOG_SLOTS_MAX then s.expand H else none

/-- The states reached from an empty one. -/
def SegReachable (H : SegmentHash) : SegmentedFriState → Prop :=
  Reachable (fun s => ∃ log ≤ LOG_SLOTS_MAX, SegmentedFriState.newEmpty H log = some s)
    (SegOp.apply H)

end Noid.Chain
