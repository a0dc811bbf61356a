import Noid.Lib.Merkle
import Noid.Lib.SortedMap
import Noid.Chain.SegmentedState

/-! # Sparse Merkle multiproofs

A multiproof for a sorted list of leaf indices carries only the hashes of the missing frontier, whose coordinates follow
from a walk from the leaves to the root: level by level, each pair of children once, a child that is not known being read
from the proof.  The walks differ in what they keep for a known position and in what they do with a pair of children.

An index out of range or a failed `expect` is the error `panicked`. -/

namespace Noid.Chain

open Noid.Lib

abbrev StateHash := Digest

/-- The commitment functions of a chain state: raw commitments, and exact leaves and nodes. -/
structure ChainHash extends SegmentHash where
  slotLeafHash : SlotValue → Digest
  stateNodeHash : Digest → Digest → Digest

namespace ChainHash

/-- `zero_slot_roots(depth)[depth]`. -/
def zeroSlotRoot (H : ChainHash) : ℕ → Digest
  | 0 => H.slotLeafHash SlotValue.EMPTY
  | depth + 1 => H.stateNodeHash (H.zeroSlotRoot depth) (H.zeroSlotRoot depth)

end ChainHash

inductive SparseMerkleError where
  | invalidDepth (depth : ℕ)
  | emptyIndices
  | leafCountMismatch (indices leaves : ℕ)
  | unsortedIndices
  | duplicateIndex (index : ℕ)
  | indexOutOfRange (index depth : ℕ)
  | proofLengthMismatch (expected actual : ℕ)
  | cacheDepthMismatch (cacheDepth requestedDepth : ℕ)
  | panicked
deriving DecidableEq, Repr

def validateDepth (depth : ℕ) : Except SparseMerkleError Unit := require (depth ≤ 32) (.invalidDepth depth)

def validateIndex (index depth : ℕ) : Except SparseMerkleError Unit := do
  validateDepth depth
  require (index < 2 ^ depth) (.indexOutOfRange index depth)

/-- One index of `validateIndices`, after the previous one. -/
def validateNext (depth : ℕ) (st : Option ℕ × SortedMap ℕ Unit) (index : ℕ) :
    Except SparseMerkleError (Option ℕ × SortedMap ℕ Unit) := do
  validateIndex index depth
  require (∀ prev ∈ st.1, prev ≤ index) .unsortedIndices
  require (∀ prev ∈ st.1, prev ≠ index) (.duplicateIndex index)
  return (some index, st.2.insert index ())

def validateIndices (indices : List ℕ) (depth : ℕ) : Except SparseMerkleError (SortedMap ℕ Unit) := do
  validateDepth depth
  require (indices ≠ []) .emptyIndices
  let (_, out) ← indices.foldlM (validateNext depth) (none, .empty)
  return out

/-! ### The walk -/

section
variable {S V W : Type}

/-- One known position: its pair of children is joined unless it was. -/
def passPosition (join : S → ℕ → Option V → Option V → Except SparseMerkleError (S × W)) (known : SortedMap ℕ V)
    (st : S × SortedMap ℕ W × List ℕ) (pos : ℕ) : Except SparseMerkleError (S × SortedMap ℕ W × List ℕ) := do
  let base := 2 * (pos / 2)
  if base ∈ st.2.2 then return st
  let (s, parent) ← join st.1 base (known.lookup base) (known.lookup (base + 1))
  return (s, st.2.1.insert (base / 2) parent, base :: st.2.2)

/-- One level: the known positions in increasing order. -/
def passLevel (join : S → ℕ → Option V → Option V → Except SparseMerkleError (S × W)) (known : SortedMap ℕ V)
    (s : S) : Except SparseMerkleError (S × SortedMap ℕ W) := do
  let (s, next, _) ← known.keys.foldlM (passPosition join known) (s, .empty, [])
  return (s, next)

def passLevels (join : ℕ → S → ℕ → Option V → Option V → Except SparseMerkleError (S × V)) (depth : ℕ) (s : S)
    (known : SortedMap ℕ V) : Except SparseMerkleError (S × SortedMap ℕ V) :=
  (List.range depth).foldlM (fun st level => passLevel (join level) st.2 st.1) (s, known)

end

/-! ### The frontier -/

/-- The coordinate of a missing node. -/
structure FrontierSiblingPosition where
  level : ℕ
  nodeIndex : ℕ
deriving DecidableEq, Repr

def countSibling (count _base : ℕ) (left right : Option Unit) : Except SparseMerkleError (ℕ × Unit) :=
  .ok (if left.isSome ^^ right.isSome then count + 1 else count, ())

/-- The number of siblings in a proof. -/
def expectedSiblingCount (indices : List ℕ) (depth : ℕ) : Except SparseMerkleError ℕ := do
  let known ← validateIndices indices depth
  let (count, _) ← passLevels (fun _ => countSibling) depth 0 known
  return count

def pushSibling (level : ℕ) (positions : List FrontierSiblingPosition) (base : ℕ) :
    Option Unit → Option Unit → Except SparseMerkleError (List FrontierSiblingPosition × Unit)
  | some _, some _ => .ok (positions, ())
  | some _, none => .ok (positions ++ [⟨level, base + 1⟩], ())
  | none, some _ => .ok (positions ++ [⟨level, base⟩], ())
  | none, none => .error .panicked

def frontierSiblingPositions (indices : List ℕ) (depth : ℕ) :
    Except SparseMerkleError (List FrontierSiblingPosition) := do
  let known ← validateIndices indices depth
  let (positions, _) ← passLevels pushSibling depth [] known
  return positions

/-! ### Structural plans -/

/-- Where a plan takes a node from. -/
inductive StructuralNodeRef where
  | touchedLeaf (ordinal : ℕ)
  | frontierSibling (ordinal : ℕ)
  | combine (ordinal : ℕ)
deriving DecidableEq, Repr

structure StructuralCombine where
  left : StructuralNodeRef
  right : StructuralNodeRef
deriving DecidableEq, Repr

structure StructuralFrontierPlan where
  touchedLeafCount : ℕ
  frontierPositions : List FrontierSiblingPosition
  combines : List StructuralCombine
  root : StructuralNodeRef
deriving DecidableEq, Repr

structure StructuralFrontierEvaluation where
  root : StateHash
  combines : List StateHash
deriving DecidableEq, Repr

/-- Positions and hash operations so far. -/
structure PlanState where
  positions : List FrontierSiblingPosition
  combines : List StructuralCombine
deriving DecidableEq, Repr

/-- The children of a pair; a missing one becomes the next sibling of the proof. -/
def planChildren (level : ℕ) (st : PlanState) (base : ℕ) :
    Option StructuralNodeRef → Option StructuralNodeRef →
      Except SparseMerkleError (PlanState × StructuralNodeRef × StructuralNodeRef)
  | some left, some right => .ok (st, left, right)
  | some left, none =>
    .ok ({ st with positions := st.positions ++ [⟨level, base + 1⟩] }, left, .frontierSibling st.positions.length)
  | none, some right =>
    .ok ({ st with positions := st.positions ++ [⟨level, base⟩] }, .frontierSibling st.positions.length, right)
  | none, none => .error .panicked

def planCombine (level : ℕ) (st : PlanState) (base : ℕ) (left right : Option StructuralNodeRef) :
    Except SparseMerkleError (PlanState × StructuralNodeRef) := do
  let (st, left, right) ← planChildren level st base left right
  return ({ st with combines := st.combines ++ [⟨left, right⟩] }, .combine st.combines.length)

/-- The only known position of the last level is the root. -/
def rootOf {V : Type} (depth : ℕ) (known : SortedMap ℕ V) : Except SparseMerkleError V :=
  match known.entries with
  | (0, root) :: _ => .ok root
  | _ => .error (.invalidDepth depth)

/-- The hash operations of a proof, without any hash. -/
def deriveStructuralFrontierPlan (indices : List ℕ) (depth : ℕ) :
    Except SparseMerkleError StructuralFrontierPlan := do
  let _ ← validateIndices indices depth
  let known := SortedMap.ofList (indices.zipIdx.map fun (index, ordinal) => (index, .touchedLeaf ordinal))
  let (st, known) ← passLevels planCombine depth ⟨[], []⟩ known
  let root ← rootOf depth known
  return { touchedLeafCount := indices.length, frontierPositions := st.positions, combines := st.combines, root := root }

def structuralNodeHash (leaves siblings combines : List StateHash) : StructuralNodeRef → Except SparseMerkleError StateHash
  | .touchedLeaf ordinal => orElseThrow .panicked leaves[ordinal]?
  | .frontierSibling ordinal => orElseThrow .panicked siblings[ordinal]?
  | .combine ordinal => orElseThrow .panicked combines[ordinal]?

section
variable (H : ChainHash)

/-- The root by a plan. -/
def evaluateStructuralFrontier (plan : StructuralFrontierPlan) (leaves siblings : List StateHash) :
    Except SparseMerkleError StructuralFrontierEvaluation := do
  require (leaves.length = plan.touchedLeafCount) (.leafCountMismatch plan.touchedLeafCount leaves.length)
  require (siblings.length = plan.frontierPositions.length)
    (.proofLengthMismatch plan.frontierPositions.length siblings.length)
  let combines ← plan.combines.foldlM (fun combines combine => do
    let left ← structuralNodeHash leaves siblings combines combine.left
    let right ← structuralNodeHash leaves siblings combines combine.right
    return combines ++ [H.stateNodeHash left right]) []
  let root ← structuralNodeHash leaves siblings combines plan.root
  return { root := root, combines := combines }

/-! ### Roots and paths -/

def checkProof (indices : List ℕ) (leaves siblings : List StateHash) (depth : ℕ) : Except SparseMerkleError Unit := do
  require (indices.length = leaves.length) (.leafCountMismatch indices.length leaves.length)
  let expected ← expectedSiblingCount indices depth
  require (siblings.length = expected) (.proofLengthMismatch expected siblings.length)

/-- The children of a pair; a missing one is read at the cursor. -/
def readChildren {V : Type} (sibling : ℕ → Option V) (cursor : ℕ) :
    Option V → Option V → Except SparseMerkleError (ℕ × V × V)
  | some left, some right => .ok (cursor, left, right)
  | some left, none => (orElseThrow .panicked (sibling cursor)).map fun right => (cursor + 1, left, right)
  | none, some right => (orElseThrow .panicked (sibling cursor)).map fun left => (cursor + 1, left, right)
  | none, none => .error .panicked

def hashChildren (siblings : List StateHash) (cursor _base : ℕ) (left right : Option StateHash) :
    Except SparseMerkleError (ℕ × StateHash) := do
  let (cursor, left, right) ← readChildren (fun i => siblings[i]?) cursor left right
  return (cursor, H.stateNodeHash left right)

/-- The root that leaves and siblings give. -/
def reconstructRoot (indices : List ℕ) (leaves siblings : List StateHash) (depth : ℕ) :
    Except SparseMerkleError StateHash := do
  checkProof indices leaves siblings depth
  let (_, known) ← passLevels (fun _ => hashChildren H siblings) depth 0 (SortedMap.ofList (indices.zip leaves))
  rootOf depth known

structure ExpandedMerklePath where
  index : ℕ
  leaf : StateHash
  siblings : List StateHash
  directions : List Bool
deriving DecidableEq, Repr

/-- A known node with the ordinals of the proven leaves below it. -/
structure PathNode where
  hash : StateHash
  leaves : List ℕ
deriving DecidableEq, Repr

def ExpandedMerklePath.setLevel (level : ℕ) (hash : StateHash) (isRight : Bool) (path : ExpandedMerklePath) :
    ExpandedMerklePath :=
  { path with siblings := path.siblings.set level hash, directions := path.directions.set level isRight }

/-- Write one level into the paths of some leaves. -/
def writeLevel (level : ℕ) (hash : StateHash) (isRight : Bool) (out : List ExpandedMerklePath) (ordinals : List ℕ) :
    List ExpandedMerklePath :=
  ordinals.foldl (fun out ordinal => out.modify ordinal (ExpandedMerklePath.setLevel level hash isRight)) out

def joinPaths (siblings : List StateHash) (level : ℕ) (st : ℕ × List ExpandedMerklePath) (_base : ℕ)
    (left right : Option PathNode) : Except SparseMerkleError ((ℕ × List ExpandedMerklePath) × PathNode) := do
  let (cursor, left, right) ← readChildren (fun i => siblings[i]?.map fun hash => ⟨hash, []⟩) st.1 left right
  let out := writeLevel level right.hash false st.2 left.leaves
  let out := writeLevel level left.hash true out right.leaves
  return ((cursor, out), { hash := H.stateNodeHash left.hash right.hash, leaves := left.leaves ++ right.leaves })

/-- The path of each proven leaf. -/
def expandMultiproofPaths (indices : List ℕ) (leaves siblings : List StateHash) (depth : ℕ) :
    Except SparseMerkleError (List ExpandedMerklePath) := do
  checkProof indices leaves siblings depth
  let out := (indices.zip leaves).map fun (index, leaf) =>
    { index := index, leaf := leaf, siblings := List.replicate depth 0, directions := List.replicate depth false }
  let known := SortedMap.ofList ((indices.zip leaves).zipIdx.map fun ((index, leaf), ordinal) =>
    (index, { hash := leaf, leaves := [ordinal] }))
  let ((_, out), _) ← passLevels (joinPaths H siblings) depth (0, out) known
  return out

/-! ### Updates -/

structure SequentialMerkleUpdatePath where
  index : ℕ
  oldLeaf : StateHash
  newLeaf : StateHash
  siblings : List StateHash
  directions : List Bool
  rootBefore : StateHash
  rootAfter : StateHash
deriving DecidableEq, Repr

/-- A map of tree nodes by level and position. -/
abbrev MerkleNodes := ℕ × ℕ → Option StateHash

/-- Hash the parent of a pair from the nodes. -/
def materialize (level : ℕ) (nodes : MerkleNodes) (base : ℕ) (_left _right : Option StateHash) :
    Except SparseMerkleError (MerkleNodes × StateHash) := do
  let left ← orElseThrow .panicked (nodes (level, base))
  let right ← orElseThrow .panicked (nodes (level, base + 1))
  let parent := H.stateNodeHash left right
  return (Function.update nodes (level + 1, base / 2) (some parent), parent)

/-- What an update has of its path: nodes, current hash, siblings and directions. -/
structure UpdateState where
  nodes : MerkleNodes
  current : StateHash
  siblings : List StateHash
  directions : List Bool

def updateLevel (index : ℕ) (st : UpdateState) (level : ℕ) : Except SparseMerkleError UpdateState := do
  let position := index / 2 ^ level
  let sibling ← orElseThrow .panicked (st.nodes (level, position ^^^ 1))
  let isRight := decide (position % 2 = 1)
  let current := if isRight then H.stateNodeHash sibling st.current else H.stateNodeHash st.current sibling
  return { nodes := Function.update st.nodes (level + 1, position / 2) (some current), current := current
           siblings := st.siblings ++ [sibling], directions := st.directions ++ [isRight] }

/-- Nodes, rolling root and the updates so far. -/
structure RollingState where
  nodes : MerkleNodes
  root : StateHash
  out : List SequentialMerkleUpdatePath

def updateLeaf (depth : ℕ) (st : RollingState) (step : (ℕ × StateHash) × StateHash) :
    Except SparseMerkleError RollingState := do
  let ((index, oldLeaf), newLeaf) := step
  let start := { nodes := Function.update st.nodes (0, index) (some newLeaf), current := newLeaf, siblings := [], directions := [] }
  let path ← (List.range depth).foldlM (updateLevel H index) start
  return { nodes := path.nodes, root := path.current
           out := st.out ++ [{ index := index, oldLeaf := oldLeaf, newLeaf := newLeaf, siblings := path.siblings
                               directions := path.directions, rootBefore := st.root, rootAfter := path.current }] }

def insertNodes (nodes : MerkleNodes) (l : List ((ℕ × ℕ) × StateHash)) : MerkleNodes :=
  l.foldl (fun nodes e => Function.update nodes e.1 (some e.2)) nodes

/-- The paths of updates made one after the other. -/
def expandMultiproofSequentialUpdates (indices : List ℕ) (oldLeaves newLeaves siblings : List StateHash) (depth : ℕ) :
    Except SparseMerkleError (List SequentialMerkleUpdatePath) := do
  require (indices.length = oldLeaves.length) (.leafCountMismatch indices.length oldLeaves.length)
  require (indices.length = newLeaves.length) (.leafCountMismatch indices.length newLeaves.length)
  let positions ← frontierSiblingPositions indices depth
  require (siblings.length = positions.length) (.proofLengthMismatch positions.length siblings.length)
  let nodes := insertNodes (fun _ => none) ((indices.zip oldLeaves).map fun (index, leaf) => ((0, index), leaf))
  let nodes := insertNodes nodes ((positions.zip siblings).map fun (position, sibling) =>
    ((position.level, position.nodeIndex), sibling))
  let (nodes, _) ← passLevels (materialize H) depth nodes (SortedMap.ofList (indices.zip oldLeaves))
  let root ← orElseThrow .panicked (nodes (depth, 0))
  let st ← ((indices.zip oldLeaves).zip newLeaves).foldlM (updateLeaf H depth) { nodes := nodes, root := root, out := [] }
  let _ ← reconstructRoot H indices newLeaves siblings depth
  return st.out

structure SegmentedSequentialMerkleUpdates where
  localDepth : ℕ
  upperDepth : ℕ
  localUpdates : List SequentialMerkleUpdatePath
  segmentUpdates : List SequentialMerkleUpdatePath
deriving DecidableEq, Repr

def foldDirectedPath (leaf : StateHash) (siblings : List StateHash) (directions : List Bool) : StateHash :=
  foldPath H.stateNodeHash leaf (siblings.zip directions)

/-- An update cut off at the segment boundary. -/
def localUpdate (localDepth : ℕ) (step : SequentialMerkleUpdatePath) : SequentialMerkleUpdatePath :=
  let siblings := step.siblings.take localDepth
  let directions := step.directions.take localDepth
  { step with siblings := siblings, directions := directions
              rootBefore := foldDirectedPath H step.oldLeaf siblings directions
              rootAfter := foldDirectedPath H step.newLeaf siblings directions }

def segmentOf (localDepth index : ℕ) : ℕ := if localDepth = 32 then 0 else index / 2 ^ localDepth

def segmentRuns (localDepth : ℕ) : List SequentialMerkleUpdatePath → List (List SequentialMerkleUpdatePath)
  | [] => []
  | step :: rest =>
    match segmentRuns localDepth rest with
    | (next :: run) :: runs =>
      if segmentOf localDepth step.index = segmentOf localDepth next.index then (step :: next :: run) :: runs
      else [step] :: (next :: run) :: runs
    | _ => [[step]]

def segmentUpdate (localDepth : ℕ) (first last : SequentialMerkleUpdatePath) : SequentialMerkleUpdatePath where
  index := segmentOf localDepth first.index
  oldLeaf := (localUpdate H localDepth first).rootBefore
  newLeaf := (localUpdate H localDepth last).rootAfter
  siblings := first.siblings.drop localDepth
  directions := first.directions.drop localDepth
  rootBefore := first.rootBefore
  rootAfter := last.rootAfter

/-- The same updates, segment by segment. -/
def expandMultiproofSegmentedUpdates (indices : List ℕ) (oldLeaves newLeaves siblings : List StateHash)
    (depth logSegmentSize : ℕ) : Except SparseMerkleError SegmentedSequentialMerkleUpdates := do
  let full ← expandMultiproofSequentialUpdates H indices oldLeaves newLeaves siblings depth
  let localDepth := min depth logSegmentSize
  return { localDepth := localDepth, upperDepth := depth - localDepth, localUpdates := full.map (localUpdate H localDepth)
           segmentUpdates := (segmentRuns localDepth full).filterMap fun run => do
             let first ← run.head?
             let last ← run.getLast?
             return segmentUpdate H localDepth first last }

/-! ### The cache -/

/-- The nodes that differ from those of an empty tree. -/
structure SparseMerkleCache where
  depth : ℕ
  zeroRoots : List StateHash
  nodes : MerkleNodes

def zeroSlotRoots (maxDepth : ℕ) : List StateHash := (List.range (maxDepth + 1)).map H.zeroSlotRoot

namespace SparseMerkleCache

def new (depth : ℕ) : Except SparseMerkleError SparseMerkleCache := do
  validateDepth depth
  return { depth := depth, zeroRoots := zeroSlotRoots H depth, nodes := fun _ => none }

/-- The zero root of a level; the levels of a cache have one. -/
def zeroRoot (c : SparseMerkleCache) (level : ℕ) : StateHash := c.zeroRoots.getD level 0

def nodeHash (c : SparseMerkleCache) (level index : ℕ) : StateHash := (c.nodes (level, index)).getD (c.zeroRoot level)

def root (c : SparseMerkleCache) : StateHash := c.nodeHash c.depth 0

def setNode (c : SparseMerkleCache) (level index : ℕ) (hash : StateHash) : SparseMerkleCache :=
  { c with nodes := Function.update c.nodes (level, index) (if hash = c.zeroRoot level then none else some hash) }

/-- One level of `setLeaf`: the cache with the position and the hash below. -/
def setLevel (st : SparseMerkleCache × ℕ × StateHash) (level : ℕ) : SparseMerkleCache × ℕ × StateHash :=
  let (c, idx, hash) := st
  let base := 2 * (idx / 2)
  let hash := if idx = base then H.stateNodeHash hash (c.nodeHash level (idx ^^^ 1))
    else H.stateNodeHash (c.nodeHash level (idx ^^^ 1)) hash
  (c.setNode (level + 1) (base / 2) hash, base / 2, hash)

/-- Replace a leaf and hash the nodes above it. -/
def setLeaf (c : SparseMerkleCache) (index : ℕ) (leaf : StateHash) : Except SparseMerkleError SparseMerkleCache := do
  validateIndex index c.depth
  return ((List.range c.depth).foldl (setLevel H) (c.setNode 0 index leaf, index, leaf)).1

end SparseMerkleCache

structure CanonicalMerkleMultiProof where
  siblings : List StateHash
deriving DecidableEq, Repr

/-- The leaves and siblings of a proof. -/
def buildMultiproof (cache : SparseMerkleCache) (indices : List ℕ) (depth : ℕ) :
    Except SparseMerkleError CanonicalMerkleMultiProof := do
  require (cache.depth = depth) (.cacheDepthMismatch cache.depth depth)
  let positions ← frontierSiblingPositions indices depth
  return { siblings := positions.map fun position => cache.nodeHash position.level position.nodeIndex }

end

end Noid.Chain
