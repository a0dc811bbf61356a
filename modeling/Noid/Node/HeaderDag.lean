import Noid.Chain.Work
import Noid.Lib.ParentTree
import Noid.Lib.SortedMap

/-! # The header DAG

A bounded graph of headers that passed native validation, with the finalized point and the best tip.  The nodes are a map
by hash.  The loops have a bound on their rounds (`rounds`); the error `diverged` says that it was reached.  A failed call
changes nothing. -/

namespace Noid.Node

open Noid.Lib Noid.Chain

abbrev Hash32 := ℕ

structure BlockHeader where
  prevBlockHash : Hash32
  stateRoot : Hash32
  txRoot : Hash32
  timestamp : ℕ
  height : ℕ
  minerAddress : Hash32
  nonce : ℕ
  difficultyTarget : Bytes32
  logSlots : ℕ
  activeSlotCount : ℕ
  allocCounter : ℕ
deriving DecidableEq

structure ChainPoint where
  height : ℕ
  hash : Hash32
deriving DecidableEq, Repr

structure ValidatedHeader where
  header : BlockHeader
  hash : Hash32
  cumulativeWork : Bytes32
deriving DecidableEq

def ValidatedHeader.newAfterConsensusChecks (blockId : BlockHeader → Hash32) (header : BlockHeader)
    (cumulativeWork : Bytes32) : ValidatedHeader where
  header := header
  hash := blockId header
  cumulativeWork := cumulativeWork

def ValidatedHeader.point (v : ValidatedHeader) : ChainPoint := ⟨v.header.height, v.hash⟩

inductive HeaderDagUpdate where
  | duplicate | added
  | newBest (previous best : ChainPoint)
deriving DecidableEq, Repr

inductive HeaderDagError where
  | belowFinalized | missingParent | badHeight | badCumulativeWork | hashCollision | capacity
  | unknownHeader | notAncestor | finalizedOffBestChain | panicked | diverged
deriving DecidableEq, Repr

/-- The headers above a finalized point, and the best tip. -/
structure HeaderDag where
  finalized : ChainPoint
  finalizedWork : Bytes32
  best : ChainPoint
  bestWork : Bytes32
  nodes : SortedMap Hash32 ValidatedHeader
  maxNodes : ℕ
deriving DecidableEq

/-- `saturating_add(1)` on `u64`. -/
def saturatingSucc (height : ℕ) : ℕ := min (height + 1) U64_MAX

namespace HeaderDag

/-- An empty graph above a finalized point. -/
def new (finalized : ChainPoint) (finalizedWork : Bytes32) (maxNodes : ℕ) : Except HeaderDagError HeaderDag := do
  require (0 < maxNodes) .panicked
  return { finalized := finalized, finalizedWork := finalizedWork, best := finalized, bestWork := finalizedWork
           nodes := .empty, maxNodes := maxNodes }

def len (d : HeaderDag) : ℕ := d.nodes.keys.length

/-- The work of a retained point. -/
def cumulativeWork (d : HeaderDag) (point : ChainPoint) : Except HeaderDagError Bytes32 := do
  if point = d.finalized then return d.finalizedWork
  let header ← orElseThrow .unknownHeader (d.nodes.lookup point.hash)
  require (header.header.height = point.height) .unknownHeader
  return header.cumulativeWork

/-! ### Following parents -/

/-- The parent of a retained point. -/
def parent (d : HeaderDag) (point : ChainPoint) : Except HeaderDagError ChainPoint := do
  require (point ≠ d.finalized) .notAncestor
  let node ← orElseThrow .unknownHeader (d.nodes.lookup point.hash)
  let parent := ⟨node.header.height - 1, node.header.prevBlockHash⟩
  require (d.finalized.height ≤ parent.height) .notAncestor
  require (parent.height = d.finalized.height → parent = d.finalized) .notAncestor
  return parent

/-- A bound on the rounds of a loop over parents: after the first the heights are those of nodes. -/
def rounds (d : HeaderDag) (point : ChainPoint) : ℕ :=
  d.nodes.values.foldl (fun n node => max n node.header.height) point.height

/-- Go up to a height. -/
def climbTo (d : HeaderDag) (height : ℕ) (point : ChainPoint) : Except HeaderDagError ChainPoint :=
  climb d.parent (fun cursor => decide (height < cursor.height)) .diverged (d.rounds point) point

/-- Go up from two points until they meet. -/
def meet (d : HeaderDag) : ℕ → ChainPoint → ChainPoint → Except HeaderDagError ChainPoint
  | 0, left, right => if left = right then .ok left else .error .diverged
  | fuel + 1, left, right => do
    if left = right then return left
    require (d.finalized.height < left.height ∧ d.finalized.height < right.height) .notAncestor
    let left ← d.parent left
    let right ← d.parent right
    d.meet fuel left right

/-- The last point that two histories share. -/
def commonAncestor (d : HeaderDag) (left right : ChainPoint) : Except HeaderDagError ChainPoint := do
  let left ← d.climbTo right.height left
  let right ← d.climbTo left.height right
  d.meet (d.rounds left) left right

/-- Whether a point is in the history of another. -/
def isAncestor (d : HeaderDag) (ancestor descendant : ChainPoint) : Except HeaderDagError Bool := do
  if descendant.height < ancestor.height then return false
  let cursor ← d.climbTo ancestor.height descendant
  return cursor = ancestor

/-- The ancestor of a point at a height. -/
def pointAtHeight (d : HeaderDag) (descendant : ChainPoint) (height : ℕ) : Except HeaderDagError ChainPoint := do
  require (d.finalized.height ≤ height ∧ height ≤ descendant.height) .notAncestor
  d.climbTo height descendant

/-- The headers from a base to a point, the last one first. -/
def pathBack (d : HeaderDag) (base : ChainPoint) : ℕ → ChainPoint → Except HeaderDagError (List ValidatedHeader)
  | 0, cursor => if cursor = base then .ok [] else .error .diverged
  | fuel + 1, cursor => do
    if cursor = base then return []
    require (base.height < cursor.height) .notAncestor
    let node ← orElseThrow .unknownHeader (d.nodes.lookup cursor.hash)
    let rest ← d.pathBack base fuel ⟨node.header.height - 1, node.header.prevBlockHash⟩
    return node :: rest

/-- The headers from a base to a target. -/
def pathFrom (d : HeaderDag) (base target : ChainPoint) : Except HeaderDagError (List ValidatedHeader) := do
  if base = target then return []
  let reversed ← d.pathBack base (d.rounds target) target
  return reversed.reverse

/-- The common ancestor with the best tip, and the headers from there. -/
def selectedPathFrom (d : HeaderDag) (committed : ChainPoint) :
    Except HeaderDagError (ChainPoint × List ValidatedHeader) := do
  let ancestor ← d.commonAncestor committed d.best
  let path ← d.pathFrom ancestor d.best
  return (ancestor, path)

/-! ### Insertion -/

/-- The hashes on the way to the finalized point, before those already collected. -/
def collectAncestryHashes (d : HeaderDag) : ℕ → ChainPoint → List Hash32 → Except HeaderDagError (List Hash32)
  | 0, point, hashes => if point = d.finalized then .ok hashes else .error .diverged
  | fuel + 1, point, hashes => do
    if point = d.finalized then return hashes
    let up ← d.parent point
    d.collectAncestryHashes fuel up (point.hash :: hashes)

/-- Keep the worse of two nodes. -/
def worse (eviction : Option ValidatedHeader) (node : ValidatedHeader) : Option ValidatedHeader :=
  match eviction with
  | none => some node
  | some current =>
    if chooseChainByWork node.cumulativeWork node.hash current.cumulativeWork current.hash = .b then some node
    else some current

/-- Remove the worst leaf outside both ancestries; nothing if there is none. -/
def evictUnprotectedLeaf (d : HeaderDag) (candidateParent : ChainPoint) : Except HeaderDagError (Option HeaderDag) := do
  let protectedHashes ← d.collectAncestryHashes d.best.height d.best []
  let protectedHashes ← d.collectAncestryHashes candidateParent.height candidateParent protectedHashes
  let parentHashes := d.nodes.values.map (·.header.prevBlockHash)
  let leaves := d.nodes.values.filter fun node =>
    !protectedHashes.contains node.hash && !parentHashes.contains node.hash
  return (leaves.foldl worse none).map fun eviction => { d with nodes := d.nodes.erase eviction.hash }

/-- The retained point that a candidate follows. -/
def candidateParent (d : HeaderDag) (candidate : ValidatedHeader) : Except HeaderDagError (ChainPoint × Bytes32) :=
  if candidate.header.prevBlockHash = d.finalized.hash then .ok (d.finalized, d.finalizedWork)
  else (orElseThrow .missingParent (d.nodes.lookup candidate.header.prevBlockHash)).map fun parent =>
    (parent.point, parent.cumulativeWork)

/-- A full graph makes room or refuses. -/
def makeRoom (d : HeaderDag) (parent : ChainPoint) : Except HeaderDagError HeaderDag :=
  if d.maxNodes ≤ d.len then do
    let evicted ← d.evictUnprotectedLeaf parent
    orElseThrow .capacity evicted
  else .ok d

/-- Add a checked header and choose the best tip. -/
def addNode (d : HeaderDag) (candidate : ValidatedHeader) : HeaderDagUpdate × HeaderDag :=
  let added := { d with nodes := d.nodes.insert candidate.hash candidate }
  if chooseChainByWork candidate.cumulativeWork candidate.hash d.bestWork d.best.hash = .a then
    (.newBest d.best candidate.point, { added with best := candidate.point, bestWork := candidate.cumulativeWork })
  else (.added, added)

/-- Insert a header that passed its consensus checks. -/
def insert (d : HeaderDag) (candidate : ValidatedHeader) : Except HeaderDagError (HeaderDagUpdate × HeaderDag) := do
  require (d.finalized.height < candidate.header.height) .belowFinalized
  match d.nodes.lookup candidate.hash with
  | some existing => if existing = candidate then return (.duplicate, d) else throw .hashCollision
  | none =>
    let (parent, parentWork) ← d.candidateParent candidate
    require (candidate.header.height = saturatingSucc parent.height) .badHeight
    require (candidate.cumulativeWork = addWork parentWork (blockWork candidate.header.difficultyTarget))
      .badCumulativeWork
    let room ← d.makeRoom parent
    return room.addNode candidate

/-! ### Finality -/

/-- Whether a node stays above a new finalized point. -/
def keeps (d : HeaderDag) (finalized : ChainPoint) (hash : Hash32) : Bool :=
  match d.nodes.lookup hash with
  | none => false
  | some node =>
    decide (finalized.height < node.header.height) &&
      match d.isAncestor finalized node.point with
      | .ok result => result
      | .error _ => false

/-- Move the finalized point and drop what does not descend from it. -/
def advanceFinalized (d : HeaderDag) (finalized : ChainPoint) (finalizedWork : Bytes32) :
    Except HeaderDagError HeaderDag := do
  if finalized = d.finalized then return { d with finalizedWork := finalizedWork }
  let onBest ← d.isAncestor finalized d.best
  require (onBest = true) .finalizedOffBestChain
  let kept := { d with nodes := d.nodes.filterKeys (d.keeps finalized), finalized := finalized
                       finalizedWork := finalizedWork }
  if d.best.height ≤ finalized.height then return { kept with best := finalized, bestWork := finalizedWork }
  return kept

end HeaderDag

end Noid.Node
