import Noid.Chain.MultiproofPaths

/-! # Sequential and segmented updates

The partial tree is filled with the old leaves, and one leaf after the other is replaced, so the roots are chained from
the old root to the new one.  Updates in one segment share the path above the segment boundary; cutting them there gives,
for every segment, a chain of local updates and one update of the segment. -/

namespace Noid.Chain

open Noid.Lib List Function

/-! ### The nodes of a partial tree -/

section
variable {indices : List ℕ} {depth l p : ℕ} {done : List ℕ} {nodes : MerkleNodes}

lemma insertNodes_of_not_mem {k : ℕ × ℕ} {entries : List ((ℕ × ℕ) × StateHash)} (h : k ∉ entries.map Prod.fst) :
    insertNodes nodes entries k = nodes k := by
  induction entries generalizing nodes with
  | nil => rfl
  | cons e rest ih =>
    rw [map_cons, mem_cons, not_or] at h
    exact (ih h.2).trans (update_of_ne h.1 _ _)

lemma insertNodes_of_mem {k : ℕ × ℕ} {v : StateHash} {entries : List ((ℕ × ℕ) × StateHash)}
    (hvalue : ∀ e ∈ entries, e.1 = k → e.2 = v) (hk : k ∈ entries.map Prod.fst) : insertNodes nodes entries k = some v := by
  induction entries generalizing nodes with
  | nil => cases hk
  | cons e rest ih =>
    by_cases hrest : k ∈ rest.map Prod.fst
    · exact ih (fun e' he' => hvalue e' (.tail _ he')) hrest
    · rw [map_cons, mem_cons] at hk
      have he := (hk.resolve_right hrest).symm
      refine (insertNodes_of_not_mem hrest).trans ?_
      change update nodes e.1 (some e.2) k = some v
      rw [he, update_self, hvalue e mem_cons_self he]

/-- The nodes of a partial tree: the children of computed nodes, and the root. -/
def InPart (indices : List ℕ) (depth l p : ℕ) : Prop :=
  l < depth ∧ Covers indices (l + 1) (p / 2) ∨ l = depth ∧ p = 0

/-- A node map holds given nodes of the partial tree. -/
def NodesAre (indices : List ℕ) (depth : ℕ) (node : ℕ → ℕ → StateHash) (nodes : MerkleNodes) : Prop :=
  ∀ l p, InPart indices depth l p → nodes (l, p) = some (node l p)

/-- A node map while parents are hashed: the side nodes, and the computed nodes so far. -/
structure MaterializedOk (H : ChainHash) (leaf : ℕ → StateHash) (side : ℕ → ℕ → StateHash) (indices : List ℕ)
    (depth l : ℕ) (done : List ℕ) (nodes : MerkleNodes) : Prop where
  computed : ∀ l' p, Covers indices l' p → l' ≤ l ∨ l' = l + 1 ∧ p ∈ done →
    nodes (l', p) = some (partialNode H.stateNodeHash indices leaf side l' p)
  given : ∀ l' p, l' < depth → IsFrontier indices l' p → nodes (l', p) = some (side l' p)

variable {H : ChainHash} {leaf : ℕ → StateHash} {side : ℕ → ℕ → StateHash}

lemma MaterializedOk.child (h : MaterializedOk H leaf side indices depth l done nodes) (hl : l < depth)
    (hcovers : Covers indices (l + 1) (p / 2)) :
    nodes (l, p) = some (partialNode H.stateNodeHash indices leaf side l p) := by
  by_cases hp : Covers indices l p
  · exact h.computed l p hp (.inl le_rfl)
  · rw [h.given l p hl ⟨hcovers, hp⟩, partialNode_of_not_covers hp]

/-- The leaves and the siblings, before any parent is hashed. -/
theorem materializedOk_start :
    MaterializedOk H leaf side indices depth 0 [] (insertNodes
      (insertNodes (fun _ => none) (indices.map fun i => ((0, i), leaf i)))
      ((frontier indices depth).map fun x => ((x.level, x.nodeIndex), side x.level x.nodeIndex))) := by
  refine ⟨?_, ?_⟩
  · rintro l' p hcovers (hl' | ⟨-, hmem⟩)
    · obtain rfl : l' = 0 := by omega
      have hp := covers_zero.mp hcovers
      have hside : (0, p) ∉ ((frontier indices depth).map fun x =>
          ((x.level, x.nodeIndex), side x.level x.nodeIndex)).map Prod.fst := by
        rw [map_map, mem_map]
        rintro ⟨x, hx, heq⟩
        have hnot := (mem_frontier.mp hx).2.2
        rw [comp_apply, Prod.mk.injEq] at heq
        rw [heq.1, heq.2] at hnot
        exact hnot hcovers
      rw [insertNodes_of_not_mem hside, partialNode_leaf hp]
      refine insertNodes_of_mem ?_ ?_
      · intro e he heq
        obtain ⟨i, -, rfl⟩ := mem_map.mp he
        cases heq
        rfl
      · rw [map_map]
        exact mem_map.mpr ⟨p, hp, rfl⟩
    · cases hmem
  · intro l' p hl' hfrontier
    refine insertNodes_of_mem ?_ ?_
    · intro e he heq
      obtain ⟨x, -, rfl⟩ := mem_map.mp he
      cases heq
      rfl
    · rw [map_map]
      exact mem_map.mpr ⟨⟨l', p⟩, mem_frontier.mpr ⟨hl', hfrontier⟩, rfl⟩

lemma materialize_ok (hl : l < depth) (hcovers : Covers indices (l + 1) p) (left right : Option StateHash)
    (h : MaterializedOk H leaf side indices depth l done nodes) :
    ∃ nodes' parent, materialize H l nodes (2 * p) left right = .ok (nodes', parent) ∧
      MaterializedOk H leaf side indices depth l (done ++ [p]) nodes' := by
  have hleft : nodes (l, 2 * p) = _ := h.child hl (by rwa [Nat.mul_div_cancel_left p (by decide)])
  have hright : nodes (l, 2 * p + 1) = _ := h.child hl (by rwa [show (2 * p + 1) / 2 = p by omega])
  have hparent : partialNode H.stateNodeHash indices leaf side (l + 1) p = _ := partialNode_of_covers hcovers
  refine ⟨_, _, by rw [materialize, hleft, hright]; rfl, ?_⟩
  rw [Nat.mul_div_cancel_left p (by decide), ← hparent]
  refine ⟨?_, ?_⟩
  · intro l' q hq hdone
    by_cases heq : (l', q) = (l + 1, p)
    · cases heq
      exact update_self ..
    · rw [update_of_ne heq]
      refine h.computed l' q hq (hdone.imp_right ?_)
      rintro ⟨rfl, hmem⟩
      rw [mem_append, mem_singleton] at hmem
      refine ⟨rfl, hmem.resolve_right ?_⟩
      rintro rfl
      exact heq rfl
  · intro l' q hl' hq
    rw [update_of_ne]
    · exact h.given l' q hl' hq
    · intro heq
      cases heq
      exact hq.2 hcovers

lemma MaterializedOk.next (h : MaterializedOk H leaf side indices depth l (touchedKeys indices (l + 1)) nodes) :
    MaterializedOk H leaf side indices depth (l + 1) [] nodes := by
  refine ⟨?_, h.given⟩
  rintro l' p hp (hl' | ⟨-, hmem⟩)
  · refine h.computed l' p hp ?_
    rcases Nat.lt_succ_iff_lt_or_eq.mp (Nat.lt_succ_of_le hl') with hlt | rfl
    · exact .inl (Nat.le_of_lt_succ hlt)
    · exact .inr ⟨rfl, mem_touchedKeys.mpr hp⟩
  · cases hmem

variable (H leaf side)

lemma materialized_ok (h : IndicesOk indices depth) :
    ∃ nodes known, passLevels (materialize H) depth (insertNodes
        (insertNodes (fun _ => none) (indices.map fun i => ((0, i), leaf i)))
        ((frontier indices depth).map fun x => ((x.level, x.nodeIndex), side x.level x.nodeIndex)))
        (SortedMap.ofList (indices.map fun i => (i, leaf i))) = .ok (nodes, known) ∧
      NodesAre indices depth (partialNode H.stateNodeHash indices leaf side) nodes := by
  obtain ⟨hkeys, -⟩ := lookup_leaves h (f := leaf)
  obtain ⟨nodes, known, hrun, hnodes, -, -⟩ := walk_ok (materialize H) (MaterializedOk H leaf side indices depth)
    (fun _ _ _ => True) h.sorted hkeys (fun _ _ _ => trivial) materializedOk_start
    (fun l nodes hnodes => hnodes.next) depth <| by
      intro l hl done p nodes left right hpre hnodes _ _ _ _
      have hp : p ∈ touchedKeys indices (l + 1) := hpre.subset (by simp)
      obtain ⟨nodes', parent, hok, hnodes'⟩ := materialize_ok hl (mem_touchedKeys.mp hp) left right hnodes
      exact ⟨nodes', parent, hok, hnodes', trivial⟩
  refine ⟨nodes, known, hrun, ?_⟩
  rintro l p (⟨hl, hcovers⟩ | ⟨rfl, rfl⟩)
  · by_cases hp : Covers indices l p
    · exact hnodes.computed l p hp (.inl hl.le)
    · rw [hnodes.given l p hl ⟨hcovers, hp⟩, partialNode_of_not_covers hp]
  · exact hnodes.computed l 0 h.covers_root (.inl le_rfl)

end

/-! ### Replacing a leaf -/

section
variable {H : ChainHash} {leaf leaf' : ℕ → StateHash} {side : ℕ → ℕ → StateHash} {indices : List ℕ} {depth i : ℕ}

/-- The nodes while a leaf is replaced: below a level those with the new leaf. -/
def mixedNode (H : ChainHash) (leaf leaf' : ℕ → StateHash) (side : ℕ → ℕ → StateHash) (indices : List ℕ) (l l' p : ℕ) :
    StateHash :=
  if l' < l then partialNode H.stateNodeHash indices leaf' side l' p else partialNode H.stateNodeHash indices leaf side l' p

lemma mixedNode_of_lt {l l' p : ℕ} (h : l' < l) :
    mixedNode H leaf leaf' side indices l l' p = partialNode H.stateNodeHash indices leaf' side l' p := if_pos h

lemma mixedNode_of_le {l l' p : ℕ} (h : l ≤ l') :
    mixedNode H leaf leaf' side indices l l' p = partialNode H.stateNodeHash indices leaf side l' p := if_neg (by omega)

lemma NodesAre.write {nodes : MerkleNodes} {l : ℕ} (hleaf : ∀ j, j ≠ i → leaf' j = leaf j)
    (h : NodesAre indices depth (mixedNode H leaf leaf' side indices l) nodes) :
    NodesAre indices depth (mixedNode H leaf leaf' side indices (l + 1)) (update nodes (l, i / 2 ^ l)
      (some (partialNode H.stateNodeHash indices leaf' side l (i / 2 ^ l)))) := by
  intro l' p hp
  by_cases heq : (l', p) = (l, i / 2 ^ l)
  · rw [Prod.mk.injEq] at heq
    rw [heq.1, heq.2, update_self, mixedNode_of_lt (Nat.lt_succ_self l)]
  · rw [update_of_ne heq, h l' p hp]
    rcases lt_trichotomy l' l with hlt | rfl | hgt
    · rw [mixedNode_of_lt hlt, mixedNode_of_lt (by omega)]
    · rw [mixedNode_of_le le_rfl, mixedNode_of_lt (Nat.lt_succ_self l')]
      refine congrArg some (partialNode_congr fun j _ hj => (hleaf j ?_).symm)
      rintro rfl
      exact heq (by rw [hj])
    · rw [mixedNode_of_le hgt.le, mixedNode_of_le hgt]

/-- What an update holds after a level. -/
structure UpdateOk (H : ChainHash) (leaf leaf' : ℕ → StateHash) (side : ℕ → ℕ → StateHash) (indices : List ℕ)
    (depth i l : ℕ) (st : UpdateState) : Prop where
  nodes : NodesAre indices depth (mixedNode H leaf leaf' side indices (l + 1)) st.nodes
  current : st.current = partialNode H.stateNodeHash indices leaf' side l (i / 2 ^ l)
  siblings : st.siblings = (range l).map fun l => partialNode H.stateNodeHash indices leaf' side l (i / 2 ^ l ^^^ 1)
  directions : st.directions = (range l).map fun l => decide (i / 2 ^ l % 2 = 1)

lemma updateLevel_ok {st : UpdateState} {l : ℕ} (hi : i ∈ indices) (hl : l < depth)
    (hleaf : ∀ j, j ≠ i → leaf' j = leaf j) (h : UpdateOk H leaf leaf' side indices depth i l st) :
    ∃ st', updateLevel H i st l = .ok st' ∧ UpdateOk H leaf leaf' side indices depth i (l + 1) st' := by
  have hcovers : Covers indices (l + 1) (i / 2 ^ (l + 1)) := ⟨i, hi, rfl⟩
  have hpos : (i / 2 ^ l ^^^ 1) / 2 = i / 2 ^ (l + 1) := by
    rw [xor_one_eq, div_two_pow_succ]
    split_ifs <;> omega
  have hsibling := h.nodes l (i / 2 ^ l ^^^ 1) (.inl ⟨hl, by rwa [hpos]⟩)
  rw [mixedNode_of_lt (Nat.lt_succ_self l)] at hsibling
  have hcurrent : (if decide (i / 2 ^ l % 2 = 1) = true then
      H.stateNodeHash (partialNode H.stateNodeHash indices leaf' side l (i / 2 ^ l ^^^ 1)) st.current
      else H.stateNodeHash st.current (partialNode H.stateNodeHash indices leaf' side l (i / 2 ^ l ^^^ 1))) =
        partialNode H.stateNodeHash indices leaf' side (l + 1) (i / 2 ^ (l + 1)) := by
    rw [h.current]
    exact foldPath_step (partialNode_of_covers hcovers)
  refine ⟨_, by rw [updateLevel, hsibling]; rfl, ?_⟩
  refine ⟨?_, hcurrent, ?_, ?_⟩
  · dsimp only
    rw [hcurrent, ← div_two_pow_succ]
    exact h.nodes.write hleaf
  · dsimp only
    rw [h.siblings, range_succ, map_append]
    rfl
  · dsimp only
    rw [h.directions, range_succ, map_append]
    rfl

lemma updateLevels_ok {st : UpdateState} (hi : i ∈ indices) (hleaf : ∀ j, j ≠ i → leaf' j = leaf j)
    (h : UpdateOk H leaf leaf' side indices depth i 0 st) :
    ∀ l ≤ depth, ∃ st', (range l).foldlM (updateLevel H i) st = .ok st' ∧
      UpdateOk H leaf leaf' side indices depth i l st'
  | 0, _ => ⟨st, rfl, h⟩
  | l + 1, hl => by
    obtain ⟨st1, hrun, hst1⟩ := updateLevels_ok hi hleaf h l (by omega)
    obtain ⟨st2, hstep, hst2⟩ := updateLevel_ok hi hl hleaf hst1
    refine ⟨st2, ?_, hst2⟩
    rw [range_succ, foldlM_append, bind_of_ok hrun]
    exact (bind_of_ok hstep).trans rfl

def updatePath (H : ChainHash) (leaf leaf' : ℕ → StateHash) (side : ℕ → ℕ → StateHash) (indices : List ℕ)
    (depth i : ℕ) (oldLeaf : StateHash) : SequentialMerkleUpdatePath where
  index := i
  oldLeaf := oldLeaf
  newLeaf := leaf' i
  siblings := (expandedPath H leaf' side indices depth i).siblings
  directions := (expandedPath H leaf' side indices depth i).directions
  rootBefore := partialNode H.stateNodeHash indices leaf side depth 0
  rootAfter := partialNode H.stateNodeHash indices leaf' side depth 0

/-- **Replacing one leaf** turns the partial tree into the one with the new leaf. -/
theorem updateLeaf_ok {st : RollingState} (h : IndicesOk indices depth) (hi : i ∈ indices)
    (hleaf : ∀ j, j ≠ i → leaf' j = leaf j) (oldLeaf : StateHash)
    (hnodes : NodesAre indices depth (partialNode H.stateNodeHash indices leaf side) st.nodes)
    (hroot : st.root = partialNode H.stateNodeHash indices leaf side depth 0) :
    ∃ st', updateLeaf H depth st ((i, oldLeaf), leaf' i) = .ok st' ∧
      NodesAre indices depth (partialNode H.stateNodeHash indices leaf' side) st'.nodes ∧
      st'.root = partialNode H.stateNodeHash indices leaf' side depth 0 ∧
      st'.out = st.out ++ [updatePath H leaf leaf' side indices depth i oldLeaf] := by
  have hstart : UpdateOk H leaf leaf' side indices depth i 0
      ⟨update st.nodes (0, i) (some (leaf' i)), leaf' i, [], []⟩ := by
    have hmixed : NodesAre indices depth (mixedNode H leaf leaf' side indices 0) st.nodes := fun l p hp => by
      rw [hnodes l p hp, mixedNode_of_le (Nat.zero_le l)]
    have hwrite := hmixed.write hleaf
    rw [pow_zero, Nat.div_one, partialNode_leaf hi] at hwrite
    exact ⟨hwrite, by rw [pow_zero, Nat.div_one, partialNode_leaf hi], rfl, rfl⟩
  obtain ⟨path, hrun, hpath⟩ := updateLevels_ok hi hleaf hstart depth le_rfl
  have hcurrent : path.current = partialNode H.stateNodeHash indices leaf' side depth 0 := by
    rw [hpath.current, Nat.div_eq_of_lt (h.range i hi)]
  refine ⟨_, by rw [updateLeaf]; exact (bind_of_ok hrun).trans rfl, ?_, hcurrent, ?_⟩
  · intro l p hp
    have hl : l < depth + 1 := by
      rcases hp with ⟨hl, -⟩ | ⟨rfl, -⟩ <;> omega
    exact (hpath.nodes l p hp).trans (congrArg some (mixedNode_of_lt hl))
  · dsimp only
    rw [hpath.siblings, hpath.directions, hcurrent, hroot]
    rfl

end

/-! ### The chain of updates -/

/-- The leaves after some replacements. -/
def replaceLeaves (old new : ℕ → StateHash) (done : List ℕ) (i : ℕ) : StateHash := if i ∈ done then new i else old i

section
variable (H : ChainHash) (old new : ℕ → StateHash) (side : ℕ → ℕ → StateHash) (indices : List ℕ) (depth : ℕ)

/-- The updates of some leaves, after others were replaced. -/
def updatesFrom (done : List ℕ) : List ℕ → List SequentialMerkleUpdatePath
  | [] => []
  | i :: rest =>
    updatePath H (replaceLeaves old new done) (replaceLeaves old new (done ++ [i])) side indices depth i (old i) ::
      updatesFrom (done ++ [i]) rest

variable {H old new side indices depth}

lemma replaceLeaves_append_of_ne {done : List ℕ} {i j : ℕ} (h : j ≠ i) :
    replaceLeaves old new (done ++ [i]) j = replaceLeaves old new done j := by
  simp [replaceLeaves, h]

lemma replaceLeaves_of_nodup {done rest : List ℕ} {i : ℕ} (h : (done ++ i :: rest).Nodup) :
    replaceLeaves old new done i = old i :=
  if_neg fun hmem => (nodup_append.mp h).2.2 i hmem i mem_cons_self rfl

lemma replaceLeaves_nil (old new : ℕ → StateHash) : replaceLeaves old new [] = old := funext fun _ => if_neg not_mem_nil

lemma replaceLeaves_append_self {done : List ℕ} {i : ℕ} : replaceLeaves old new (done ++ [i]) i = new i := by
  simp [replaceLeaves]

lemma updateLeaves_ok (h : IndicesOk indices depth) (rest : List ℕ) :
    ∀ (done : List ℕ) (st : RollingState), (∀ i ∈ rest, i ∈ indices) →
      NodesAre indices depth (partialNode H.stateNodeHash indices (replaceLeaves old new done) side) st.nodes →
      st.root = partialNode H.stateNodeHash indices (replaceLeaves old new done) side depth 0 →
      ∃ st', (rest.map fun i => ((i, old i), new i)).foldlM (updateLeaf H depth) st = .ok st' ∧
        st'.out = st.out ++ updatesFrom H old new side indices depth done rest := by
  induction rest with
  | nil =>
    intro done st _ _ _
    exact ⟨st, rfl, by rw [updatesFrom, append_nil]⟩
  | cons i rest ih =>
    intro done st hrest hnodes hroot
    obtain ⟨st1, hstep, hnodes1, hroot1, hout1⟩ := updateLeaf_ok h (hrest i mem_cons_self)
      (fun j hj => replaceLeaves_append_of_ne hj) (old i) hnodes hroot
    obtain ⟨st2, hrun, hout2⟩ := ih (done ++ [i]) st1 (fun j hj => hrest j (.tail _ hj)) hnodes1 hroot1
    rw [replaceLeaves_append_self] at hstep
    refine ⟨st2, ?_, ?_⟩
    · rw [map_cons, foldlM_cons, bind_of_ok hstep]
      exact hrun
    · rw [hout2, hout1, updatesFrom, append_assoc]
      rfl

/-- **The sequential updates** of a proof. -/
theorem expandMultiproofSequentialUpdates_eq (h : IndicesOk indices depth) :
    expandMultiproofSequentialUpdates H indices (indices.map old) (indices.map new) (sideSiblings indices depth side) depth =
      .ok (updatesFrom H old new side indices depth [] indices) := by
  obtain ⟨nodes, known, hrun, hnodes⟩ := materialized_ok H old side h
  have hroot := hnodes depth 0 (.inr ⟨rfl, rfl⟩)
  rw [← replaceLeaves_nil old new] at hnodes
  obtain ⟨st, hupdates, hout⟩ := updateLeaves_ok h indices [] ⟨nodes, _, []⟩ (fun i hi => hi) hnodes rfl
  rw [replaceLeaves_nil] at hupdates
  have hsteps : (indices.zip (indices.map old)).zip (indices.map new) = indices.map fun i => ((i, old i), new i) := by
    rw [← map_prod_left_eq_zip, zip_map']
  rw [expandMultiproofSequentialUpdates, require_bind (by simp), require_bind (by simp),
    bind_of_ok (frontierSiblingPositions_eq h), require_bind (by simp [sideSiblings])]
  have hthrow : orElseThrow SparseMerkleError.panicked (nodes (depth, 0)) =
      .ok (partialNode H.stateNodeHash indices old side depth 0) := by rw [hroot]; rfl
  rw [hsteps, sideSiblings, ← map_prod_left_eq_zip, ← map_prod_left_eq_zip, map_map, map_map]
  refine (bind_of_ok hrun).trans ((bind_of_ok hthrow).trans ((bind_of_ok hupdates).trans ?_))
  refine (bind_of_ok (reconstructRoot_eq H h)).trans ?_
  rw [hout]
  rfl

end

/-- Each update starts with the root that the one before it ends with. -/
def Chained : StateHash → List SequentialMerkleUpdatePath → StateHash → Prop
  | root, [], root' => root = root'
  | root, update :: rest, root' => update.rootBefore = root ∧ Chained update.rootAfter rest root'

/-- The sides on the way up from a leaf; `true` is the right one. -/
def directionsOf (depth i : ℕ) : List Bool := (range depth).map fun l => decide (i / 2 ^ l % 2 = 1)

lemma take_directionsOf {depth l : ℕ} (h : l ≤ depth) (i : ℕ) : (directionsOf depth i).take l = directionsOf l i := by
  rw [directionsOf, ← map_take, take_range, min_eq_left h, directionsOf]

lemma drop_directionsOf (depth l i : ℕ) : (directionsOf depth i).drop l = directionsOf (depth - l) (i / 2 ^ l) := by
  refine ext_getElem (by simp [directionsOf]) fun n _ _ => ?_
  simp [directionsOf, Nat.div_div_eq_div_mul, pow_add]

/-- An update follows its index through `depth` levels and leads from its leaves to its roots. -/
structure Opens (H : ChainHash) (depth : ℕ) (update : SequentialMerkleUpdatePath) : Prop where
  siblings : update.siblings.length = depth
  directions : update.directions = directionsOf depth update.index
  before : foldDirectedPath H update.oldLeaf update.siblings update.directions = update.rootBefore
  after : foldDirectedPath H update.newLeaf update.siblings update.directions = update.rootAfter

/-- What an update replaces. -/
def SequentialMerkleUpdatePath.leaves (update : SequentialMerkleUpdatePath) : ℕ × StateHash × StateHash :=
  (update.index, update.oldLeaf, update.newLeaf)

section
variable {H : ChainHash} {old new leaf leaf' : ℕ → StateHash} {side : ℕ → ℕ → StateHash} {indices done rest : List ℕ}
  {depth localDepth i : ℕ}

lemma updatesFrom_append (a b : List ℕ) : updatesFrom H old new side indices depth done (a ++ b) =
    updatesFrom H old new side indices depth done a ++ updatesFrom H old new side indices depth (done ++ a) b := by
  induction a generalizing done with
  | nil => rw [nil_append, append_nil, updatesFrom, nil_append]
  | cons i a ih => rw [cons_append, updatesFrom, updatesFrom, ih, append_assoc, cons_append]; rfl

@[simp] lemma length_updatesFrom : (updatesFrom H old new side indices depth done rest).length = rest.length := by
  induction rest generalizing done with
  | nil => rfl
  | cons i rest ih => rw [updatesFrom, length_cons, length_cons, ih]

lemma updatesFrom_chained (rest : List ℕ) :
    ∀ done, Chained (partialNode H.stateNodeHash indices (replaceLeaves old new done) side depth 0)
      (updatesFrom H old new side indices depth done rest)
      (partialNode H.stateNodeHash indices (replaceLeaves old new (done ++ rest)) side depth 0) := by
  induction rest with
  | nil =>
    intro done
    rw [append_nil]
    exact rfl
  | cons i rest ih =>
    intro done
    have hrest := ih (done ++ [i])
    rw [append_assoc] at hrest
    exact ⟨rfl, hrest⟩

lemma updatePath_take (oldLeaf : StateHash) (h : localDepth ≤ depth) :
    ((updatePath H leaf leaf' side indices depth i oldLeaf).siblings.take localDepth).zip
      ((updatePath H leaf leaf' side indices depth i oldLeaf).directions.take localDepth) =
        pathOf (partialNode H.stateNodeHash indices leaf' side) i (range' 0 localDepth) := by
  rw [updatePath, expandedPath, ← map_take, ← map_take, zip_map', take_range, min_eq_left h, range_eq_range']
  rfl

lemma updatePath_drop (oldLeaf : StateHash) :
    ((updatePath H leaf leaf' side indices depth i oldLeaf).siblings.drop localDepth).zip
      ((updatePath H leaf leaf' side indices depth i oldLeaf).directions.drop localDepth) =
        pathOf (partialNode H.stateNodeHash indices leaf' side) i (range' localDepth (depth - localDepth)) := by
  rw [updatePath, expandedPath, ← map_drop, ← map_drop, zip_map', range_eq_range', drop_range']
  simp only [Nat.zero_add, Nat.mul_one]
  rfl

lemma localUpdate_before (hi : i ∈ indices) (hleaf : ∀ j, j ≠ i → leaf' j = leaf j) (h : localDepth ≤ depth) :
    (localUpdate H localDepth (updatePath H leaf leaf' side indices depth i (leaf i))).rootBefore =
      partialNode H.stateNodeHash indices leaf side localDepth (i / 2 ^ localDepth) := by
  change foldPath H.stateNodeHash (leaf i) (zip _ _) = _
  rw [updatePath_take _ h, pathOf_congr]
  · exact foldPath_leaf hi localDepth
  · intro j hj l _
    rw [not_imp_comm.mp (hleaf j) hj]

lemma localUpdate_after (hi : i ∈ indices) (oldLeaf : StateHash) (h : localDepth ≤ depth) :
    (localUpdate H localDepth (updatePath H leaf leaf' side indices depth i oldLeaf)).rootAfter =
      partialNode H.stateNodeHash indices leaf' side localDepth (i / 2 ^ localDepth) := by
  change foldPath H.stateNodeHash (leaf' i) (zip _ _) = _
  rw [updatePath_take _ h]
  exact foldPath_leaf hi localDepth

/-- Cutting at the depth of the tree changes nothing. -/
theorem updatePath_opens (h : IndicesOk indices depth) (hi : i ∈ indices) (hleaf : ∀ j, j ≠ i → leaf' j = leaf j) :
    Opens H depth (updatePath H leaf leaf' side indices depth i (leaf i)) := by
  have hsiblings : (updatePath H leaf leaf' side indices depth i (leaf i)).siblings.take depth =
      (updatePath H leaf leaf' side indices depth i (leaf i)).siblings :=
    take_of_length_le (by simp [updatePath, expandedPath])
  have hdirections : (updatePath H leaf leaf' side indices depth i (leaf i)).directions.take depth =
      (updatePath H leaf leaf' side indices depth i (leaf i)).directions :=
    take_of_length_le (by simp [updatePath, expandedPath])
  have hbefore : (localUpdate H depth (updatePath H leaf leaf' side indices depth i (leaf i))).rootBefore = _ :=
    localUpdate_before hi hleaf le_rfl
  have hafter : (localUpdate H depth (updatePath H leaf leaf' side indices depth i (leaf i))).rootAfter = _ :=
    localUpdate_after hi (leaf i) le_rfl
  rw [localUpdate, hsiblings, hdirections, Nat.div_eq_of_lt (h.range i hi)] at hbefore hafter
  exact ⟨by simp [updatePath, expandedPath], rfl, hbefore, hafter⟩

/-- **The sequential updates open**: each path leads from the leaf to the root, before and after. -/
theorem updatesFrom_opens (h : IndicesOk indices depth) (hrest : ∀ i ∈ rest, i ∈ indices) (hnodup : (done ++ rest).Nodup) :
    ∀ update ∈ updatesFrom H old new side indices depth done rest, Opens H depth update := by
  induction rest generalizing done with
  | nil =>
    intro update hupdate
    cases hupdate
  | cons i rest ih =>
    have hold : replaceLeaves old new done i = old i := replaceLeaves_of_nodup hnodup
    intro update hupdate
    rw [updatesFrom, mem_cons] at hupdate
    rcases hupdate with rfl | hupdate
    · rw [← hold]
      exact updatePath_opens h (hrest i mem_cons_self) fun j hj => replaceLeaves_append_of_ne hj
    · refine ih (fun j hj => hrest j (.tail _ hj)) ?_ update hupdate
      rwa [append_assoc]

/-! ### Segments -/

lemma segmentRuns_spec (localDepth : ℕ) (steps : List SequentialMerkleUpdatePath) :
    (segmentRuns localDepth steps).flatten = steps ∧ ∀ run ∈ segmentRuns localDepth steps, run ≠ [] ∧
      ∀ u ∈ run, ∀ v ∈ run, segmentOf localDepth u.index = segmentOf localDepth v.index := by
  induction steps with
  | nil => exact ⟨rfl, fun run hrun => by cases hrun⟩
  | cons step rest ih =>
    obtain ⟨hflatten, hruns⟩ := ih
    have hsingle : ∀ u ∈ [step], ∀ v ∈ [step], segmentOf localDepth u.index = segmentOf localDepth v.index := by
      intro u hu v hv
      rw [mem_singleton.mp hu, mem_singleton.mp hv]
    rw [segmentRuns]
    split
    next next run runs heq =>
      rw [heq] at hflatten hruns
      have hnext := (hruns _ mem_cons_self).2
      split_ifs with hseg
      · have hall : ∀ u ∈ step :: next :: run, segmentOf localDepth u.index = segmentOf localDepth next.index :=
          forall_mem_cons.mpr ⟨hseg, fun u hu => hnext u hu next mem_cons_self⟩
        refine ⟨by rw [flatten_cons, cons_append, ← hflatten, flatten_cons], forall_mem_cons.mpr
          ⟨⟨cons_ne_nil _ _, fun u hu v hv => ?_⟩, (forall_mem_cons.mp hruns).2⟩⟩
        rw [hall u hu, hall v hv]
      · exact ⟨by rw [flatten_cons, hflatten]; rfl, forall_mem_cons.mpr ⟨⟨cons_ne_nil _ _, hsingle⟩, hruns⟩⟩
    next hnot =>
      have hnil : segmentRuns localDepth rest = [] := by
        match heq : segmentRuns localDepth rest with
        | [] => rfl
        | [] :: runs => exact absurd rfl (hruns [] (by rw [heq]; exact mem_cons_self)).1
        | (next :: run) :: runs => exact absurd heq (hnot next run runs)
      rw [hnil] at hflatten
      exact ⟨by rw [← hflatten]; rfl, forall_mem_singleton.mpr ⟨cons_ne_nil _ _, hsingle⟩⟩

lemma localUpdates_chained {s : ℕ} (hlocal : localDepth ≤ depth) (hrest : ∀ i ∈ rest, i ∈ indices)
    (hnodup : (done ++ rest).Nodup) (hseg : ∀ i ∈ rest, i / 2 ^ localDepth = s) :
    Chained (partialNode H.stateNodeHash indices (replaceLeaves old new done) side localDepth s)
      ((updatesFrom H old new side indices depth done rest).map (localUpdate H localDepth))
      (partialNode H.stateNodeHash indices (replaceLeaves old new (done ++ rest)) side localDepth s) := by
  induction rest generalizing done with
  | nil => rw [append_nil]; exact rfl
  | cons i rest ih =>
    have hi := hrest i mem_cons_self
    have hs := hseg i mem_cons_self
    have hold : replaceLeaves old new done i = old i := replaceLeaves_of_nodup hnodup
    rw [← singleton_append, ← append_assoc] at hnodup ⊢
    have hchain := ih (fun j hj => hrest j (.tail _ hj)) hnodup
      fun j hj => hseg j (.tail _ hj)
    rw [singleton_append, updatesFrom, map_cons, ← hold]
    refine ⟨?_, ?_⟩
    · rw [localUpdate_before hi (fun j hj => replaceLeaves_append_of_ne hj) hlocal, hs]
    · rw [localUpdate_after hi _ hlocal, hs]
      exact hchain

/-- The update of a segment, and the run of local updates that it stands for. -/
structure SegmentOk (H : ChainHash) (localDepth upperDepth : ℕ) (run : List SequentialMerkleUpdatePath)
    (segment : SequentialMerkleUpdatePath) : Prop where
  opens : Opens H upperDepth segment
  chained : Chained segment.oldLeaf run segment.newLeaf
  leaves : ∀ update ∈ run, Opens H localDepth update ∧ segmentOf localDepth update.index = segment.index

lemma leaves_updatesFrom :
    (updatesFrom H old new side indices depth done rest).map (·.leaves) = rest.map fun i => (i, old i, new i) := by
  induction rest generalizing done with
  | nil => rfl
  | cons i rest ih =>
    rw [updatesFrom, map_cons, map_cons, ih]
    refine congrArg (· :: _) ?_
    rw [SequentialMerkleUpdatePath.leaves, updatePath, replaceLeaves_append_self]

lemma index_updatesFrom : (updatesFrom H old new side indices depth done rest).map (·.index) = rest := by
  induction rest generalizing done with
  | nil => rfl
  | cons i rest ih => rw [updatesFrom, map_cons, ih]; rfl

lemma segmentOf_eq (h : IndicesOk indices depth) (hlocal : localDepth ≤ depth) (hi : i ∈ indices) :
    segmentOf localDepth i = i / 2 ^ localDepth := by
  rw [segmentOf]
  split_ifs with h32
  · have hdepth : depth = 32 := le_antisymm h.depth_le (h32 ▸ hlocal)
    rw [h32, Nat.div_eq_of_lt (hdepth ▸ h.range i hi)]
  · rfl

lemma div_eq_of_segment {i j l : ℕ} (h : i / 2 ^ localDepth = j / 2 ^ localDepth) (hl : localDepth ≤ l) :
    i / 2 ^ l = j / 2 ^ l := by
  obtain ⟨n, rfl⟩ := Nat.exists_eq_add_of_le hl
  rw [pow_add, ← Nat.div_div_eq_div_mul, ← Nat.div_div_eq_div_mul, h]

/-- The upper part of an update's path, with other leaves of its segment replaced. -/
theorem foldPath_upper (h : IndicesOk indices depth) (hlocal : localDepth ≤ depth) (hi : i ∈ indices) (oldLeaf : StateHash)
    {leaf1 : ℕ → StateHash} (hleaf : ∀ j, leaf' j ≠ leaf1 j → j / 2 ^ localDepth = i / 2 ^ localDepth) :
    foldDirectedPath H (partialNode H.stateNodeHash indices leaf1 side localDepth (i / 2 ^ localDepth))
      ((updatePath H leaf leaf' side indices depth i oldLeaf).siblings.drop localDepth)
      ((updatePath H leaf leaf' side indices depth i oldLeaf).directions.drop localDepth) =
        partialNode H.stateNodeHash indices leaf1 side depth 0 := by
  have hpath : pathOf (partialNode H.stateNodeHash indices leaf' side) i (range' localDepth (depth - localDepth)) =
      pathOf (partialNode H.stateNodeHash indices leaf1 side) i (range' localDepth (depth - localDepth)) :=
    pathOf_congr fun j hj l hl => div_eq_of_segment (hleaf j hj) (mem_range'_1.mp hl).1
  rw [foldDirectedPath, updatePath_drop, hpath, foldPath_partialNode hi, Nat.add_sub_cancel' hlocal,
    Nat.div_eq_of_lt (h.range i hi)]

lemma segmentUpdate_ok (h : IndicesOk indices depth) (hlocal : localDepth ≤ depth) {a : List ℕ} (hne : a ≠ [])
    (ha : ∀ i ∈ a, i ∈ indices) (hnodup : (done ++ a).Nodup) {s : ℕ} (hseg : ∀ i ∈ a, i / 2 ^ localDepth = s) :
    ∃ first last, (updatesFrom H old new side indices depth done a).head? = some first ∧
      (updatesFrom H old new side indices depth done a).getLast? = some last ∧
      (segmentUpdate H localDepth first last).rootBefore =
        partialNode H.stateNodeHash indices (replaceLeaves old new done) side depth 0 ∧
      (segmentUpdate H localDepth first last).rootAfter =
        partialNode H.stateNodeHash indices (replaceLeaves old new (done ++ a)) side depth 0 ∧
      SegmentOk H localDepth (depth - localDepth)
        ((updatesFrom H old new side indices depth done a).map (localUpdate H localDepth))
        (segmentUpdate H localDepth first last) := by
  obtain ⟨i, a', rfl⟩ := exists_cons_of_ne_nil hne
  obtain ⟨b, j, hb⟩ : ∃ b j, i :: a' = b ++ [j] := ⟨_, _, (dropLast_append_getLast hne).symm⟩
  have hi := ha i mem_cons_self
  have hs := hseg i mem_cons_self
  have hj : j ∈ i :: a' := by rw [hb]; simp
  have hold : replaceLeaves old new done i = old i := replaceLeaves_of_nodup hnodup
  have hbefore : (localUpdate H localDepth (updatePath H (replaceLeaves old new done) (replaceLeaves old new (done ++ [i]))
      side indices depth i (old i))).rootBefore =
        partialNode H.stateNodeHash indices (replaceLeaves old new done) side localDepth s := by
    rw [← hold, localUpdate_before hi (fun j hj => replaceLeaves_append_of_ne hj) hlocal, hs]
  have hafter : (localUpdate H localDepth (updatePath H (replaceLeaves old new (done ++ b))
      (replaceLeaves old new (done ++ (i :: a'))) side indices depth j (old j))).rootAfter =
        partialNode H.stateNodeHash indices (replaceLeaves old new (done ++ (i :: a'))) side localDepth s := by
    rw [localUpdate_after (ha j hj) _ hlocal, hseg j hj]
  refine ⟨_, updatePath H (replaceLeaves old new (done ++ b)) (replaceLeaves old new (done ++ (i :: a'))) side indices depth
    j (old j), rfl, ?_, rfl, rfl, ⟨?_, ?_, ?_, ?_⟩, ?_, ?_⟩
  · rw [hb, updatesFrom_append, updatesFrom, updatesFrom, getLast?_append, append_assoc]
    rfl
  · simp [segmentUpdate, updatePath, expandedPath]
  · change (directionsOf depth i).drop localDepth = directionsOf (depth - localDepth) (segmentOf localDepth i)
    rw [drop_directionsOf, segmentOf_eq h hlocal hi]
  · change foldDirectedPath H (localUpdate H localDepth _).rootBefore _ _ = _
    rw [hbefore, ← hs]
    refine foldPath_upper h hlocal hi _ fun k hk => ?_
    rw [not_imp_comm.mp (fun hne => replaceLeaves_append_of_ne hne) hk]
  · change foldDirectedPath H (localUpdate H localDepth _).rootAfter _ _ = _
    rw [hafter, ← hs]
    refine foldPath_upper h hlocal hi _ fun k hk => ?_
    have hmem : k ∈ i :: a' := by
      by_contra hnot
      rw [mem_cons, not_or] at hnot
      exact hk (by simp [replaceLeaves, hnot.1, hnot.2])
    rw [hseg k hmem, hs]
  · change Chained (localUpdate H localDepth _).rootBefore _ (localUpdate H localDepth _).rootAfter
    rw [hbefore, hafter]
    exact localUpdates_chained hlocal ha hnodup hseg
  · intro update hupdate
    obtain ⟨u, hu, rfl⟩ := mem_map.mp hupdate
    have hopens := updatesFrom_opens h ha hnodup u hu
    have hlength : (localUpdate H localDepth u).siblings.length = localDepth := by
      simp [localUpdate, hopens.siblings, hlocal]
    have hdirections : (localUpdate H localDepth u).directions = directionsOf localDepth u.index := by
      rw [localUpdate, hopens.directions, take_directionsOf hlocal]
    refine ⟨⟨hlength, hdirections, rfl, rfl⟩, ?_⟩
    have hindex : u.index ∈ i :: a' := by
      have := mem_map_of_mem (f := (·.index)) hu
      rwa [index_updatesFrom] at this
    change segmentOf localDepth u.index = segmentOf localDepth i
    rw [segmentOf_eq h hlocal (ha _ hindex), segmentOf_eq h hlocal hi, hseg _ hindex, hs]

/-- **The segmented updates** are chained: over the segments, and in every segment over its leaves. -/
theorem segments_chained (h : IndicesOk indices depth) (hlocal : localDepth ≤ depth)
    (runs : List (List SequentialMerkleUpdatePath)) :
    ∀ {done rest : List ℕ}, runs.flatten = updatesFrom H old new side indices depth done rest →
      (∀ run ∈ runs, run ≠ [] ∧ ∀ u ∈ run, ∀ v ∈ run, segmentOf localDepth u.index = segmentOf localDepth v.index) →
      (∀ i ∈ rest, i ∈ indices) → (done ++ rest).Nodup →
      ∃ segments, (runs.filterMap fun run => do
          let first ← run.head?
          let last ← run.getLast?
          return segmentUpdate H localDepth first last) = segments ∧
        Chained (partialNode H.stateNodeHash indices (replaceLeaves old new done) side depth 0) segments
          (partialNode H.stateNodeHash indices (replaceLeaves old new (done ++ rest)) side depth 0) ∧
        Forall₂ (SegmentOk H localDepth (depth - localDepth)) (runs.map (map (localUpdate H localDepth))) segments := by
  induction runs with
  | nil =>
    intro done rest hflatten _ _ _
    have hrest : rest = [] := by
      have hlen := congrArg length hflatten
      rw [length_updatesFrom] at hlen
      exact eq_nil_of_length_eq_zero hlen.symm
    subst hrest
    refine ⟨[], rfl, ?_, .nil⟩
    rw [append_nil]
    exact rfl
  | cons run runs ih =>
    intro done rest hflatten hruns hrest hnodup
    rw [flatten_cons] at hflatten
    have hsplit : updatesFrom H old new side indices depth done rest =
        updatesFrom H old new side indices depth done (rest.take run.length) ++
          updatesFrom H old new side indices depth (done ++ rest.take run.length) (rest.drop run.length) := by
      rw [← updatesFrom_append, take_append_drop]
    have hlen : run.length ≤ rest.length := by
      have hlen := congrArg length hflatten
      rw [length_updatesFrom, length_append] at hlen
      omega
    obtain ⟨hrun, htail⟩ := append_inj (hflatten.trans hsplit) (by
      rw [length_updatesFrom, length_take, min_eq_left hlen])
    rw [← take_append_drop run.length rest] at hrest hnodup ⊢
    generalize rest.take run.length = a at *
    generalize rest.drop run.length = b at *
    obtain ⟨hne, hsame⟩ := hruns run mem_cons_self
    have ha : ∀ i ∈ a, i ∈ indices := fun i hi => hrest i (mem_append_left _ hi)
    have hane : a ≠ [] := by
      rintro rfl
      exact hne hrun
    obtain ⟨i, hi⟩ := exists_mem_of_ne_nil a hane
    have hseg : ∀ j ∈ a, j / 2 ^ localDepth = i / 2 ^ localDepth := by
      have hindex : run.map (·.index) = a := by rw [hrun, index_updatesFrom]
      rw [← hindex] at hi
      obtain ⟨v, hv, rfl⟩ := mem_map.mp hi
      intro j hj
      have hj' := hj
      rw [← hindex] at hj'
      obtain ⟨u, hu, rfl⟩ := mem_map.mp hj'
      rw [← segmentOf_eq h hlocal (ha _ hj), ← segmentOf_eq h hlocal (ha _ (by rwa [← hindex])), hsame u hu v hv]
    rw [← append_assoc] at hnodup ⊢
    obtain ⟨first, last, hfirst, hlast, hbefore, hafter, hok⟩ :=
      segmentUpdate_ok h hlocal hane ha (nodup_append.mp hnodup).1 hseg
    obtain ⟨segments, hsegments, hchain, hall⟩ := ih htail (fun run hrun => hruns run (.tail _ hrun))
      (fun i hi => hrest i (mem_append_right _ hi)) hnodup
    refine ⟨segmentUpdate H localDepth first last :: segments, ?_, ⟨hbefore, hafter ▸ hchain⟩, ?_⟩
    · rw [filterMap_cons_some, hsegments]
      rw [hrun, hfirst, hlast]
      rfl
    · rw [map_cons, hrun]
      exact .cons hok hall

/-- What a segmented expansion is, between two roots. -/
structure SegmentedOk (H : ChainHash) (depth : ℕ) (root root' : StateHash) (updates : SegmentedSequentialMerkleUpdates) :
    Prop where
  depths : updates.localDepth + updates.upperDepth = depth
  chained : Chained root updates.segmentUpdates root'
  segments : ∃ runs, runs.flatten = updates.localUpdates ∧
    Forall₂ (SegmentOk H updates.localDepth updates.upperDepth) runs updates.segmentUpdates

lemma root_replaceLeaves : partialNode H.stateNodeHash indices (replaceLeaves old new ([] ++ indices)) side depth 0 =
    partialNode H.stateNodeHash indices new side depth 0 := partialNode_congr fun _ hi _ => if_pos hi

lemma sequentialUpdates_chained : Chained (partialNode H.stateNodeHash indices old side depth 0)
    (updatesFrom H old new side indices depth [] indices) (partialNode H.stateNodeHash indices new side depth 0) := by
  have hchain : Chained _ (updatesFrom H old new side indices depth [] indices) _ := updatesFrom_chained indices []
  rwa [replaceLeaves_nil, root_replaceLeaves] at hchain

lemma expandMultiproofSegmentedUpdates_ok (h : IndicesOk indices depth) (logSegmentSize : ℕ) :
    ∃ updates, expandMultiproofSegmentedUpdates H indices (indices.map old) (indices.map new)
        (sideSiblings indices depth side) depth logSegmentSize = .ok updates ∧
      updates.localUpdates.map (·.leaves) = (indices.map fun i => (i, old i, new i)) ∧
      SegmentedOk H depth (partialNode H.stateNodeHash indices old side depth 0)
        (partialNode H.stateNodeHash indices new side depth 0) updates := by
  obtain ⟨hflatten, hruns⟩ := segmentRuns_spec (min depth logSegmentSize)
    (updatesFrom H old new side indices depth [] indices)
  obtain ⟨segments, hsegments, hchain, hall⟩ := segments_chained h (min_le_left depth logSegmentSize) _ hflatten hruns
    (fun i hi => hi) (h.sorted.imp Nat.ne_of_lt)
  rw [replaceLeaves_nil, root_replaceLeaves] at hchain
  refine ⟨_, by rw [expandMultiproofSegmentedUpdates, bind_of_ok (expandMultiproofSequentialUpdates_eq h)]; rfl, ?_, ?_⟩
  · rw [map_map]
    exact leaves_updatesFrom
  refine ⟨Nat.add_sub_of_le (min_le_left _ _), hsegments ▸ hchain, _, ?_, hsegments ▸ hall⟩
  rw [← map_flatten, hflatten]

end

end Noid.Chain
