import Mathlib.Data.Nat.Pairing
import Noid.Chain.MultiproofUpdates

/-! # Multiproofs against the full tree

A cache holds the nodes of the full tree over its leaves.  Whatever reads a proof built from it, the root, the plan, the
paths and the updates, finds the root of that tree, and with other leaves the root of the tree with these leaves. -/

namespace Noid.Chain

open Noid.Lib List Function SparseMerkleCache

/-! ### The cache -/

section
variable {H : ChainHash} {c : SparseMerkleCache} {leaf leaf' : ℕ → StateHash}

/-- The cache holds the nodes of the full tree over the leaves. -/
def CacheIs (H : ChainHash) (leaf : ℕ → StateHash) (c : SparseMerkleCache) : Prop :=
  ∀ l ≤ c.depth, ∀ p, c.nodeHash l p = merkleNode H.stateNodeHash leaf l p

lemma merkleNode_zero (l p : ℕ) :
    merkleNode H.stateNodeHash (fun _ => H.slotLeafHash SlotValue.EMPTY) l p = H.zeroSlotRoot l := by
  induction l generalizing p with
  | zero => rfl
  | succ l ih => rw [merkleNode, ih, ih, ChainHash.zeroSlotRoot]

lemma cacheIs_new (H : ChainHash) {depth : ℕ} (h : depth ≤ 32) :
    ∃ c, SparseMerkleCache.new H depth = .ok c ∧ c.depth = depth ∧
      CacheIs H (fun _ => H.slotLeafHash SlotValue.EMPTY) c := by
  refine ⟨_, by rw [new, validateDepth, require_bind h]; rfl, rfl, ?_⟩
  intro l hl p
  rw [merkleNode_zero]
  change ((range (depth + 1)).map H.zeroSlotRoot).getD l 0 = H.zeroSlotRoot l
  rw [getD_eq_getElem?_getD, getElem?_map, getElem?_range (Nat.lt_succ_of_le hl)]
  rfl

lemma nodeHash_setNode_self (l p : ℕ) (hash : StateHash) : (c.setNode l p hash).nodeHash l p = hash := by
  change ((update c.nodes (l, p) (if hash = c.zeroRoot l then none else some hash)) (l, p)).getD (c.zeroRoot l) = hash
  rw [update_self]
  split_ifs with h
  · exact h.symm
  · rfl

lemma nodeHash_setNode_of_ne {l p l' p' : ℕ} (hash : StateHash) (h : (l', p') ≠ (l, p)) :
    (c.setNode l p hash).nodeHash l' p' = c.nodeHash l' p' := by
  change ((update c.nodes (l, p) _) (l', p')).getD (c.zeroRoot l') = _
  rw [update_of_ne h]
  rfl

/-- The cache after some levels of `setLeaf`: the new tree up to the level, the old one above. -/
structure SetLevelOk (H : ChainHash) (leaf leaf' : ℕ → StateHash) (depth i l : ℕ)
    (st : SparseMerkleCache × ℕ × StateHash) : Prop where
  cacheDepth : st.1.depth = depth
  position : st.2.1 = i / 2 ^ l
  hash : st.2.2 = merkleNode H.stateNodeHash leaf' l (i / 2 ^ l)
  below : ∀ l' ≤ depth, l' ≤ l → ∀ p, st.1.nodeHash l' p = merkleNode H.stateNodeHash leaf' l' p
  above : ∀ l' ≤ depth, l < l' → ∀ p, st.1.nodeHash l' p = merkleNode H.stateNodeHash leaf l' p

/-- Setting the new node of a path at the next level. -/
theorem setNode_ok {depth i l : ℕ} (hleaf : ∀ j, j ≠ i → leaf' j = leaf j)
    (hdepth : c.depth = depth) (hbelow : ∀ l' ≤ depth, l' < l → ∀ p, c.nodeHash l' p = merkleNode H.stateNodeHash leaf' l' p)
    (habove : ∀ l' ≤ depth, l ≤ l' → ∀ p, c.nodeHash l' p = merkleNode H.stateNodeHash leaf l' p) :
    SetLevelOk H leaf leaf' depth i l (c.setNode l (i / 2 ^ l) (merkleNode H.stateNodeHash leaf' l (i / 2 ^ l)),
      i / 2 ^ l, merkleNode H.stateNodeHash leaf' l (i / 2 ^ l)) := by
  refine ⟨hdepth, rfl, rfl, ?_, ?_⟩
  · intro l' hl' hle p
    by_cases heq : (l', p) = (l, i / 2 ^ l)
    · cases heq
      exact nodeHash_setNode_self ..
    · rw [nodeHash_setNode_of_ne _ heq]
      rcases Nat.lt_or_eq_of_le hle with hlt | rfl
      · exact hbelow l' hl' hlt p
      · rw [habove l' hl' le_rfl p]
        refine merkleNode_congr fun j hj => (hleaf j ?_).symm
        rintro rfl
        exact heq (by rw [hj])
  · intro l' hl' hlt p
    rw [nodeHash_setNode_of_ne]
    · exact habove l' hl' hlt.le p
    · intro heq
      cases heq
      exact lt_irrefl _ hlt

lemma pairHash_eq (node : ℕ → StateHash) (idx : ℕ) :
    (if idx = 2 * (idx / 2) then H.stateNodeHash (node idx) (node (idx ^^^ 1))
      else H.stateNodeHash (node (idx ^^^ 1)) (node idx)) =
        H.stateNodeHash (node (2 * (idx / 2))) (node (2 * (idx / 2) + 1)) := by
  rw [xor_one_eq]
  by_cases hodd : idx % 2 = 1
  · rw [if_neg (by omega), if_pos hodd]
    exact congrArg _ (congrArg _ (by omega))
  · rw [if_pos (by omega), if_neg hodd]
    exact congrArg (fun q => H.stateNodeHash (node q) _) (by omega)

lemma setLevel_ok {depth i l : ℕ} {st : SparseMerkleCache × ℕ × StateHash} (hleaf : ∀ j, j ≠ i → leaf' j = leaf j)
    (hl : l < depth) (h : SetLevelOk H leaf leaf' depth i l st) :
    SetLevelOk H leaf leaf' depth i (l + 1) (SparseMerkleCache.setLevel H st l) := by
  obtain ⟨c, idx, hash⟩ := st
  obtain ⟨hdepth, rfl, rfl, hbelow, habove⟩ := h
  have hset := setNode_ok hleaf hdepth (fun l' hl' hlt => hbelow l' hl' (Nat.le_of_lt_succ hlt)) habove
  have hhash := pairHash_eq (H := H) (merkleNode H.stateNodeHash leaf' l) (i / 2 ^ l)
  rw [div_two_pow_succ, merkleNode] at hset
  simp only [setLevel, hbelow l hl.le le_rfl, hhash, Nat.mul_div_cancel_left _ Nat.zero_lt_two]
  exact hset

/-- **Setting a leaf** turns the cache into that of the tree with the leaf. -/
theorem setLeaf_ok {i : ℕ} (hash : StateHash) (hdepth : c.depth ≤ 32) (hi : i < 2 ^ c.depth) (h : CacheIs H leaf c) :
    ∃ c', c.setLeaf H i hash = .ok c' ∧ c'.depth = c.depth ∧ CacheIs H (update leaf i hash) c' := by
  have hleaf : ∀ j, j ≠ i → update leaf i hash j = leaf j := fun j hj => update_of_ne hj _ _
  have hstart := setNode_ok (H := H) (l := 0) hleaf rfl (fun l' _ hlt => absurd hlt (Nat.not_lt_zero _)) fun l' hl' _ => h l' hl'
  rw [pow_zero, Nat.div_one, merkleNode, update_self] at hstart
  have hlevels : ∀ l ≤ c.depth, SetLevelOk H leaf (update leaf i hash) c.depth i l
      ((range l).foldl (setLevel H) (c.setNode 0 i hash, i, hash)) := by
    intro l
    induction l with
    | zero => intro _; exact hstart
    | succ l ih =>
      intro hl
      rw [range_succ, foldl_append]
      exact setLevel_ok hleaf hl (ih (by omega))
  have hfinal := hlevels c.depth le_rfl
  refine ⟨_, ?_, hfinal.cacheDepth, ?_⟩
  · rw [setLeaf, validateIndex, validateDepth, require_bind hdepth, require_bind hi]
    rfl
  · intro l hl p
    rw [hfinal.cacheDepth] at hl
    exact hfinal.below l hl hl p

/-- A sequence of `setLeaf` calls; a call that fails changes nothing. -/
def setLeaves (H : ChainHash) (c : SparseMerkleCache) (calls : List (ℕ × StateHash)) : SparseMerkleCache :=
  calls.foldl (fun c call => (c.setLeaf H call.1 call.2).toOption.getD c) c

def leavesAfter (depth : ℕ) (leaf : ℕ → StateHash) (calls : List (ℕ × StateHash)) : ℕ → StateHash :=
  calls.foldl (fun leaf call => if call.1 < 2 ^ depth then update leaf call.1 call.2 else leaf) leaf

lemma setLeaves_ok (calls : List (ℕ × StateHash)) (hdepth : c.depth ≤ 32) (h : CacheIs H leaf c) :
    (setLeaves H c calls).depth = c.depth ∧ CacheIs H (leavesAfter c.depth leaf calls) (setLeaves H c calls) := by
  induction calls generalizing c leaf with
  | nil => exact ⟨rfl, h⟩
  | cons call calls ih =>
    rw [setLeaves, foldl_cons, leavesAfter, foldl_cons]
    by_cases hi : call.1 < 2 ^ c.depth
    · obtain ⟨c', hset, hdepth', hc'⟩ := setLeaf_ok call.2 hdepth hi h
      rw [if_pos hi, hset, ← hdepth']
      obtain ⟨hd, hcache⟩ := ih (hdepth' ▸ hdepth) hc'
      exact ⟨hd, hcache⟩
    · have hfail : c.setLeaf H call.1 call.2 = .error (.indexOutOfRange call.1 c.depth) := by
        rw [setLeaf, validateIndex, validateDepth, require_bind hdepth, require, if_neg hi]
        rfl
      rw [if_neg hi, hfail]
      exact ih hdepth h

end

/-! ### Agreement -/

def writeLeaves (leaf : ℕ → StateHash) (entries : List (ℕ × StateHash)) : ℕ → StateHash :=
  entries.foldl (fun leaf e => update leaf e.1 e.2) leaf

section
variable {H : ChainHash} {leaf : ℕ → StateHash} {indices : List ℕ} {depth : ℕ}

lemma writeLeaves_of_not_mem {i : ℕ} (newLeaves : List StateHash) (h : i ∉ indices) :
    writeLeaves leaf (indices.zip newLeaves) i = leaf i := by
  induction indices generalizing newLeaves leaf with
  | nil => rfl
  | cons j indices ih =>
    cases newLeaves with
    | nil => rfl
    | cons v newLeaves =>
      rw [mem_cons, not_or] at h
      exact (ih newLeaves h.2).trans (update_of_ne h.1 _ _)

lemma map_writeLeaves (hnodup : indices.Nodup) {newLeaves : List StateHash} (hlen : newLeaves.length = indices.length) :
    indices.map (writeLeaves leaf (indices.zip newLeaves)) = newLeaves := by
  induction indices generalizing newLeaves leaf with
  | nil => exact (eq_nil_of_length_eq_zero hlen).symm
  | cons j indices ih =>
    cases newLeaves with
    | nil => cases hlen
    | cons v newLeaves =>
      obtain ⟨hj, hnodup⟩ := nodup_cons.mp hnodup
      have htail : indices.map (writeLeaves (update leaf j v) (indices.zip newLeaves)) = newLeaves :=
        ih hnodup (Nat.succ.inj hlen)
      have hhead : writeLeaves (update leaf j v) (indices.zip newLeaves) j = v := by
        rw [writeLeaves_of_not_mem newLeaves hj, update_self]
      exact congrArg₂ cons hhead htail

/-- The tree with other leaves has the nodes of the tree beside the proven leaves. -/
theorem partialNode_writeLeaves (newLeaves : List StateHash) (h : IndicesOk indices depth) :
    partialNode H.stateNodeHash indices (writeLeaves leaf (indices.zip newLeaves)) (merkleNode H.stateNodeHash leaf) depth 0 =
      merkleNode H.stateNodeHash (writeLeaves leaf (indices.zip newLeaves)) depth 0 := by
  refine partialNode_eq_merkleNode (fun i _ => rfl) ?_ depth 0 h.covers_root.parent
  intro l p hfrontier
  refine merkleNode_congr fun i hi => (writeLeaves_of_not_mem newLeaves fun hmem => ?_).symm
  exact hfrontier.2 ⟨i, hmem, hi⟩

lemma partialNode_merkleNode (h : IndicesOk indices depth) :
    partialNode H.stateNodeHash indices leaf (merkleNode H.stateNodeHash leaf) depth 0 = merkleNode H.stateNodeHash leaf depth 0 :=
  partialNode_eq_merkleNode (fun _ _ => rfl) (fun _ _ _ => rfl) depth 0 h.covers_root.parent

lemma buildMultiproof_ok {c : SparseMerkleCache} (h : IndicesOk indices c.depth) (hc : CacheIs H leaf c) :
    buildMultiproof c indices c.depth = .ok ⟨sideSiblings indices c.depth (merkleNode H.stateNodeHash leaf)⟩ := by
  rw [buildMultiproof, require_bind rfl, bind_of_ok (frontierSiblingPositions_eq h)]
  refine congrArg (Except.ok ∘ CanonicalMerkleMultiProof.mk) (map_congr_left fun x hx => ?_)
  exact hc x.level (mem_frontier.mp hx).1.le x.nodeIndex

/-- A path follows its index to a root. -/
structure PathOpens (H : ChainHash) (depth : ℕ) (root : StateHash) (path : ExpandedMerklePath) : Prop where
  siblings : path.siblings.length = depth
  directions : path.directions = directionsOf depth path.index
  root : foldDirectedPath H path.leaf path.siblings path.directions = root

/-- All readings of a proof agree on the root before and the root after a change of the leaves. -/
structure ProofAgrees (H : ChainHash) (indices : List ℕ) (depth : ℕ) (oldLeaves newLeaves siblings : List StateHash)
    (oldRoot newRoot : StateHash) : Prop where
  reconstructed : reconstructRoot H indices oldLeaves siblings depth = .ok oldRoot
  replaced : reconstructRoot H indices newLeaves siblings depth = .ok newRoot
  planned : ∃ plan old new, deriveStructuralFrontierPlan indices depth = .ok plan ∧
    evaluateStructuralFrontier H plan oldLeaves siblings = .ok old ∧ old.root = oldRoot ∧
    evaluateStructuralFrontier H plan newLeaves siblings = .ok new ∧ new.root = newRoot
  expanded : ∃ old new, expandMultiproofPaths H indices oldLeaves siblings depth = .ok old ∧
    expandMultiproofPaths H indices newLeaves siblings depth = .ok new ∧
    (old.map fun path => (path.index, path.leaf)) = indices.zip oldLeaves ∧
    (new.map fun path => (path.index, path.leaf)) = indices.zip newLeaves ∧
    (∀ path ∈ old, PathOpens H depth oldRoot path) ∧ ∀ path ∈ new, PathOpens H depth newRoot path
  sequential : ∃ updates, expandMultiproofSequentialUpdates H indices oldLeaves newLeaves siblings depth = .ok updates ∧
    updates.map (·.leaves) = indices.zip (oldLeaves.zip newLeaves) ∧ Chained oldRoot updates newRoot ∧
    ∀ update ∈ updates, Opens H depth update
  segmented : ∀ logSegmentSize, ∃ updates,
    expandMultiproofSegmentedUpdates H indices oldLeaves newLeaves siblings depth logSegmentSize = .ok updates ∧
      updates.localUpdates.map (·.leaves) = indices.zip (oldLeaves.zip newLeaves) ∧
      SegmentedOk H depth oldRoot newRoot updates

lemma expandedPaths_leaves (side : ℕ → ℕ → StateHash) :
    ((indices.map (expandedPath H leaf side indices depth)).map fun path => (path.index, path.leaf)) =
      indices.zip (indices.map leaf) := by
  rw [map_map, ← map_prod_left_eq_zip]
  rfl

lemma proofAgrees (h : IndicesOk indices depth) (old new : ℕ → StateHash) (side : ℕ → ℕ → StateHash) :
    ProofAgrees H indices depth (indices.map old) (indices.map new) (sideSiblings indices depth side)
      (partialNode H.stateNodeHash indices old side depth 0) (partialNode H.stateNodeHash indices new side depth 0) := by
  have hpaths : ∀ leaf, ∀ path ∈ indices.map (expandedPath H leaf side indices depth),
      PathOpens H depth (partialNode H.stateNodeHash indices leaf side depth 0) path := by
    intro leaf path hpath
    obtain ⟨i, hi, rfl⟩ := mem_map.mp hpath
    exact ⟨by simp [expandedPath], rfl, foldDirectedPath_root H leaf side h hi⟩
  have hleaves : (indices.map fun i => (i, old i, new i)) = indices.zip ((indices.map old).zip (indices.map new)) := by
    rw [zip_map', map_prod_left_eq_zip]
  refine ⟨reconstructRoot_eq H h, reconstructRoot_eq H h, ?_, ?_, ?_, ?_⟩
  · obtain ⟨plan, old, hplan, -, hold, hroot⟩ := evaluateStructuralFrontier_eq H h old side
    obtain ⟨plan', new, hplan', -, hnew, hroot'⟩ := evaluateStructuralFrontier_eq H h new side
    rw [hplan] at hplan'
    cases hplan'
    exact ⟨plan, old, new, hplan, hold, hroot, hnew, hroot'⟩
  · exact ⟨_, _, expandMultiproofPaths_eq H old side h, expandMultiproofPaths_eq H new side h, expandedPaths_leaves side,
      expandedPaths_leaves side, hpaths old, hpaths new⟩
  · exact ⟨_, expandMultiproofSequentialUpdates_eq h, leaves_updatesFrom.trans hleaves, sequentialUpdates_chained,
      updatesFrom_opens h (fun i hi => hi) (h.sorted.imp Nat.ne_of_lt)⟩
  · exact hleaves ▸ expandMultiproofSegmentedUpdates_ok h

/-- **Completeness and agreement**: a proof built from a cache gives, in every reading, the root before and after a
change of the proven leaves. -/
theorem multiproof_agreement (H : ChainHash) {depth : ℕ} (hdepth : depth ≤ 32) (calls : List (ℕ × StateHash))
    {indices : List ℕ} (hne : indices ≠ []) (hsorted : indices.Pairwise (· < ·)) (hrange : ∀ i ∈ indices, i < 2 ^ depth)
    {newLeaves : List StateHash} (hlen : newLeaves.length = indices.length) :
    ∃ empty, SparseMerkleCache.new H depth = .ok empty ∧ let cache := setLeaves H empty calls
      let leaf := leavesAfter depth (fun _ => H.slotLeafHash SlotValue.EMPTY) calls
      let newLeaf := writeLeaves leaf (indices.zip newLeaves)
      cache.root = merkleNode H.stateNodeHash leaf depth 0 ∧
        ∃ proof, buildMultiproof cache indices depth = .ok proof ∧
          ProofAgrees H indices depth (indices.map leaf) newLeaves proof.siblings
            (merkleNode H.stateNodeHash leaf depth 0) (merkleNode H.stateNodeHash newLeaf depth 0) := by
  have h : IndicesOk indices depth := ⟨hdepth, hne, hsorted, hrange⟩
  obtain ⟨empty, hempty, rfl, hzero⟩ := cacheIs_new H hdepth
  obtain ⟨hdepth', hcache⟩ := setLeaves_ok calls hdepth hzero
  refine ⟨empty, hempty, ?_⟩
  intro cache leaf newLeaf
  have hproof : buildMultiproof cache indices cache.depth = _ := buildMultiproof_ok (hdepth' ▸ h) hcache
  have hagrees : ProofAgrees H indices empty.depth (indices.map leaf) (indices.map newLeaf)
      (sideSiblings indices empty.depth (merkleNode H.stateNodeHash leaf)) _ _ := proofAgrees h leaf newLeaf _
  rw [hdepth'] at hproof
  rw [partialNode_merkleNode h, partialNode_writeLeaves newLeaves h,
    map_writeLeaves (hsorted.imp Nat.ne_of_lt) hlen] at hagrees
  refine ⟨?_, _, hproof, hagrees⟩
  rw [root, hcache _ le_rfl, hdepth']

/-- A hash without collisions, for closed runs. -/
def pairingHash : ChainHash where
  compress := Nat.pair
  computeSegRoot _ _ := 0
  slotLeafHash _ := 0
  stateNodeHash := Nat.pair

theorem multiproof_agreement_pairing :
    let leaf := leavesAfter 2 (fun _ => pairingHash.slotLeafHash SlotValue.EMPTY) [(1, 5), (3, 7), (9, 1)]
    ∃ empty, new pairingHash 2 = .ok empty ∧
      (setLeaves pairingHash empty [(1, 5), (3, 7), (9, 1)]).root = merkleNode pairingHash.stateNodeHash leaf 2 0 ∧
      ∃ proof, buildMultiproof (setLeaves pairingHash empty [(1, 5), (3, 7), (9, 1)]) [1, 2] 2 = .ok proof ∧
        ProofAgrees pairingHash [1, 2] 2 ([1, 2].map leaf) [8, 9] proof.siblings (merkleNode pairingHash.stateNodeHash leaf 2 0)
          (merkleNode pairingHash.stateNodeHash (writeLeaves leaf [(1, 8), (2, 9)]) 2 0) :=
  multiproof_agreement pairingHash (by decide) [(1, 5), (3, 7), (9, 1)] (by decide) (by decide) (by decide) rfl

/-- The empty list of indices is sorted, without duplicates and in range, and has no proof. -/
theorem emptyIndices_rejected : ∃ empty, SparseMerkleCache.new pairingHash 2 = .ok empty ∧
    ([] : List ℕ).Pairwise (· < ·) ∧ (∀ i ∈ ([] : List ℕ), i < 2 ^ 2) ∧
    buildMultiproof empty [] 2 = .error .emptyIndices ∧ reconstructRoot pairingHash [] [] [] 2 = .error .emptyIndices ∧
    deriveStructuralFrontierPlan [] 2 = .error .emptyIndices ∧
    expandMultiproofPaths pairingHash [] [] [] 2 = .error .emptyIndices ∧
    expandMultiproofSequentialUpdates pairingHash [] [] [] [] 2 = .error .emptyIndices ∧
    expandMultiproofSegmentedUpdates pairingHash [] [] [] [] 2 1 = .error .emptyIndices :=
  ⟨_, rfl, .nil, by decide, rfl, rfl, rfl, rfl, rfl, rfl⟩

/-! ### Soundness -/

lemma exists_map_eq {κ V : Type} [DecidableEq κ] [Inhabited V] {keys : List κ} (hnodup : keys.Nodup) {values : List V}
    (hlen : values.length = keys.length) : ∃ f : κ → V, keys.map f = values := by
  refine ⟨fun k => values.getD (keys.idxOf k) default, ext_getElem (by simp [hlen]) fun n h1 h2 => ?_⟩
  rw [length_map] at h1
  rw [getElem_map, hnodup.idxOf_getElem n h1, getD_eq_getElem values default h2]

lemma reconstructRoot_checked {leaves siblings : List StateHash} {root : StateHash}
    (h : reconstructRoot H indices leaves siblings depth = .ok root) :
    IndicesOk indices depth ∧ leaves.length = indices.length ∧ siblings.length = (frontier indices depth).length := by
  simp only [reconstructRoot, checkProof, ok_rules] at h
  obtain ⟨⟨hleaves, count, hcount, hsiblings⟩, -⟩ := h
  have hcount' := hcount
  simp only [expectedSiblingCount, bind_eq_ok] at hcount'
  obtain ⟨known, hvalid, -⟩ := hcount'
  have hok := indicesOk_of_validate hvalid
  rw [expectedSiblingCount_eq hok] at hcount
  cases hcount
  exact ⟨hok, hleaves.symm, hsiblings⟩

lemma bound_of_root (hfree : CollisionFree H.stateNodeHash) {tree : ℕ → StateHash} {side : ℕ → ℕ → StateHash}
    (h : IndicesOk indices depth)
    (hroot : partialNode H.stateNodeHash indices leaf side depth 0 = merkleNode H.stateNodeHash tree depth 0) :
    (∀ i ∈ indices, leaf i = tree i) ∧
      ∀ x ∈ frontier indices depth, side x.level x.nodeIndex = merkleNode H.stateNodeHash tree x.level x.nodeIndex := by
  have hnode : ∀ l p, l < depth → Covers indices (l + 1) (p / 2) →
      partialNode H.stateNodeHash indices leaf side l p = merkleNode H.stateNodeHash tree l p := fun l p hl =>
    eq_merkleNode_of_root hfree h.range hroot (Nat.add_sub_cancel' (Nat.succ_le_of_lt hl))
  refine ⟨fun i hi => ?_, fun x hx => ?_⟩
  · have hleaf : partialNode H.stateNodeHash indices leaf side 0 i = leaf i := partialNode_leaf hi
    rw [← hleaf]
    rcases Nat.eq_zero_or_pos depth with rfl | hpos
    · have hzero : i = 0 := Nat.lt_one_iff.mp (h.range i hi)
      rw [hzero]
      exact hroot
    · exact hnode 0 i hpos (Covers.parent (covers_zero.mpr hi))
  · obtain ⟨hl, hcovers, hnot⟩ := mem_frontier.mp hx
    exact (partialNode_of_not_covers hnot).symm.trans (hnode _ _ hl hcovers)

/-- **Soundness**: without collisions, leaves and siblings that give a root are those of its tree. -/
theorem multiproof_sound (H : ChainHash) (hfree : CollisionFree H.stateNodeHash) (depth : ℕ) (tree : ℕ → StateHash)
    (indices : List ℕ) (leaves siblings : List StateHash) :
    (reconstructRoot H indices leaves siblings depth = .ok (merkleNode H.stateNodeHash tree depth 0) →
      leaves = indices.map tree ∧ ∃ positions, frontierSiblingPositions indices depth = .ok positions ∧
        siblings = positions.map fun position => merkleNode H.stateNodeHash tree position.level position.nodeIndex) ∧
    ∀ positions, frontierSiblingPositions indices depth = .ok positions → siblings.length ≠ positions.length →
      ∃ e, reconstructRoot H indices leaves siblings depth = .error e := by
  constructor
  · intro hroot
    obtain ⟨h, hleaves, hsiblings⟩ := reconstructRoot_checked hroot
    obtain ⟨leaf, rfl⟩ := exists_map_eq (h.sorted.imp Nat.ne_of_lt) hleaves
    obtain ⟨side, rfl⟩ := exists_map_eq (nodup_frontier h.sorted) hsiblings
    have hside : (frontier indices depth).map side = sideSiblings indices depth fun l p => side ⟨l, p⟩ := rfl
    rw [hside, reconstructRoot_eq H h, Except.ok.injEq] at hroot
    obtain ⟨hleaf, hside⟩ := bound_of_root hfree h hroot
    exact ⟨map_congr_left hleaf, _, frontierSiblingPositions_eq h, map_congr_left hside⟩
  · intro positions hpositions hne
    cases hresult : reconstructRoot H indices leaves siblings depth with
    | error e => exact ⟨e, rfl⟩
    | ok root =>
      obtain ⟨h, -, hsiblings⟩ := reconstructRoot_checked hresult
      rw [frontierSiblingPositions_eq h] at hpositions
      cases hpositions
      exact absurd hsiblings hne

lemma pairingHash_collisionFree : CollisionFree pairingHash.stateNodeHash := fun _ _ _ _ h => Nat.pair_eq_pair.mp h

theorem multiproof_sound_pairing :
    reconstructRoot pairingHash [1, 2] [4, 5] [3, 6] 2 = .ok (merkleNode pairingHash.stateNodeHash (· + 3) 2 0) ∧
      [4, 5] = [1, 2].map (· + 3) ∧ ∃ positions, frontierSiblingPositions [1, 2] 2 = .ok positions ∧
        [3, 6] = positions.map fun position =>
          merkleNode pairingHash.stateNodeHash (· + 3) position.level position.nodeIndex := by
  have hroot : reconstructRoot pairingHash [1, 2] [4, 5] [3, 6] 2 =
      .ok (merkleNode pairingHash.stateNodeHash (· + 3) 2 0) := by decide +kernel
  exact ⟨hroot, (multiproof_sound pairingHash pairingHash_collisionFree 2 (· + 3) [1, 2] [4, 5] [3, 6]).1 hroot⟩

end

end Noid.Chain
