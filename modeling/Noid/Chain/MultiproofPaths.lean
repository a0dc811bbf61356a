import Noid.Chain.Multiproof

/-! # Plans and paths of a multiproof

The plan of a proof numbers its leaves, siblings and hash operations.  An operation belongs to the parent that the walk
joins at that point, so every reference denotes a node of the partial tree before the plan is run. -/

namespace Noid.Chain

open Noid.Lib List

/-! ### Plans -/

/-- The parent of a pair, as written into a plan. -/
def combinedNode (l p : ℕ) : List (ℕ × ℕ) := [(l + 1, p)]

/-- The nodes that a plan computes, in order. -/
def combineNodes (indices : List ℕ) (depth : ℕ) : List (ℕ × ℕ) := written combinedNode indices depth []

/-- The reference denotes a node; only the first `k` hash operations may be used. -/
def Denotes (indices : List ℕ) (depth k l p : ℕ) : StructuralNodeRef → Prop
  | .touchedLeaf ordinal => l = 0 ∧ indices[ordinal]? = some p
  | .frontierSibling ordinal => (frontier indices depth)[ordinal]? = some ⟨l, p⟩ ∧ ¬Covers indices l p
  | .combine ordinal => ordinal < k ∧ (combineNodes indices depth)[ordinal]? = some (l, p)

section
variable {indices : List ℕ} {depth l p k : ℕ} {done : List ℕ} {ref : StructuralNodeRef}

lemma Denotes.mono {k' : ℕ} (h : Denotes indices depth k l p ref) (hk : k ≤ k') : Denotes indices depth k' l p ref := by
  cases ref with
  | touchedLeaf ordinal => exact h
  | frontierSibling ordinal => exact h
  | combine ordinal => exact ⟨h.1.trans_le hk, h.2⟩

/-- The first `k` hashes are those of the nodes that a plan computes. -/
def HashesOk (H : ChainHash) (indices : List ℕ) (depth : ℕ) (leaf : ℕ → StateHash) (side : ℕ → ℕ → StateHash) (k : ℕ)
    (hashes : List StateHash) : Prop :=
  ∀ c < k, hashes[c]? = (combineNodes indices depth)[c]?.map fun node =>
    partialNode H.stateNodeHash indices leaf side node.1 node.2

/-- A reference evaluates to the node it denotes. -/
theorem Denotes.eval {leaf : ℕ → StateHash} {side : ℕ → ℕ → StateHash} {H : ChainHash}
    (h : Denotes indices depth k l p ref) {combines : List StateHash}
    (hcombines : HashesOk H indices depth leaf side k combines) :
    structuralNodeHash (indices.map leaf) (sideSiblings indices depth side) combines ref =
      .ok (partialNode H.stateNodeHash indices leaf side l p) := by
  cases ref with
  | touchedLeaf ordinal =>
    obtain ⟨rfl, hordinal⟩ := h
    rw [structuralNodeHash, getElem?_map, hordinal, partialNode_leaf (mem_of_getElem? hordinal)]
    rfl
  | frontierSibling ordinal =>
    rw [structuralNodeHash, sideSiblings_getElem?, h.1, partialNode_of_not_covers h.2]
    rfl
  | combine ordinal =>
    rw [structuralNodeHash, hcombines ordinal h.1, h.2]
    rfl

/-- A hash operation of a plan: it joins the children of the node with its number. -/
def CombineOk (indices : List ℕ) (depth k : ℕ) (combine : StructuralCombine) : Prop :=
  ∃ l p, (combineNodes indices depth)[k]? = some (l + 1, p) ∧ Covers indices (l + 1) p ∧
    Denotes indices depth k l (2 * p) combine.left ∧ Denotes indices depth k l (2 * p + 1) combine.right

/-- What a plan holds after some parents of a level. -/
structure PlanOk (indices : List ℕ) (depth l : ℕ) (done : List ℕ) (st : PlanState) : Prop where
  positions : st.positions = frontierUpTo indices l done
  length : st.combines.length = (written combinedNode indices l done).length
  combines : ∀ k combine, st.combines[k]? = some combine → CombineOk indices depth k combine

/-- The children of a pair are known or become siblings. -/
theorem planChildren_ok {st : PlanState} {left right : Option StructuralNodeRef} (hl : l < depth)
    (hpre : done ++ [p] <+: touchedKeys indices (l + 1)) (hpositions : st.positions = frontierUpTo indices l done)
    (hleft : left.isSome ↔ Covers indices l (2 * p)) (hright : right.isSome ↔ Covers indices l (2 * p + 1))
    (hL : ∀ v, left = some v → Denotes indices depth k l (2 * p) v)
    (hR : ∀ v, right = some v → Denotes indices depth k l (2 * p + 1) v) :
    ∃ st' a b, planChildren l st (2 * p) left right = .ok (st', a, b) ∧
      st' = ⟨frontierUpTo indices l (done ++ [p]), st.combines⟩ ∧
      Denotes indices depth k l (2 * p) a ∧ Denotes indices depth k l (2 * p + 1) b := by
  rw [frontierUpTo_append]
  rcases pair_cases hpre hleft hright with ⟨a, b, rfl, rfl, hmiss⟩ | ⟨a, rfl, rfl, hmiss, hnot⟩ |
      ⟨b, rfl, rfl, hmiss, hnot⟩
  · refine ⟨st, a, b, rfl, ?_, hL a rfl, hR b rfl⟩
    rw [hmiss, append_nil, ← hpositions]
  · refine ⟨_, a, _, rfl, ?_, hL a rfl, ?_, hnot⟩
    · rw [hmiss, hpositions]
    · rw [hpositions]
      exact frontier_getElem? hl hpre hmiss
  · refine ⟨_, _, b, rfl, ?_, ⟨?_, hnot⟩, hR b rfl⟩
    · rw [hmiss, hpositions]
    · rw [hpositions]
      exact frontier_getElem? hl hpre hmiss

lemma planCombine_ok {st : PlanState} {left right : Option StructuralNodeRef} (hl : l < depth)
    (hpre : done ++ [p] <+: touchedKeys indices (l + 1)) (hst : PlanOk indices depth l done st)
    (hleft : left.isSome ↔ Covers indices l (2 * p)) (hright : right.isSome ↔ Covers indices l (2 * p + 1))
    (hL : ∀ v, left = some v → Denotes indices depth (written combinedNode indices l []).length l (2 * p) v)
    (hR : ∀ v, right = some v → Denotes indices depth (written combinedNode indices l []).length l (2 * p + 1) v) :
    ∃ st' ref, planCombine l st (2 * p) left right = .ok (st', ref) ∧ PlanOk indices depth l (done ++ [p]) st' ∧
      Denotes indices depth (written combinedNode indices (l + 1) []).length (l + 1) p ref := by
  have hearlier : (written combinedNode indices l []).length ≤ st.combines.length := by
    rw [hst.length]
    simp [written]
  have hnode : (combineNodes indices depth)[st.combines.length]? = some (l + 1, p) := by
    rw [hst.length]
    exact written_getElem? hl hpre rfl
  obtain ⟨st1, a, b, hchildren, rfl, ha, hb⟩ := planChildren_ok hl hpre hst.positions hleft hright hL hR
  refine ⟨_, .combine st.combines.length, by rw [planCombine, bind_of_ok hchildren]; rfl, ⟨rfl, ?_, ?_⟩, ?_, hnode⟩
  · rw [written_append, length_append, length_append, hst.length]
    rfl
  · intro k combine hk
    rcases Nat.lt_or_ge k st.combines.length with hlt | hge
    · rw [getElem?_append_left hlt] at hk
      exact hst.combines k combine hk
    · rw [getElem?_append_right hge, getElem?_singleton] at hk
      split_ifs at hk with heq
      cases hk
      have hk : k = st.combines.length := by omega
      rw [hk]
      exact ⟨l, p, hnode, mem_touchedKeys.mp (hpre.subset (by simp)), ha.mono hearlier, hb.mono hearlier⟩
  · have hlen := (written_prefix_next (f := combinedNode) hpre).length_le
    rw [written_append, length_append, ← hst.length] at hlen
    exact hlen

/-- What a derived plan is. -/
structure PlanSpec (indices : List ℕ) (depth : ℕ) (plan : StructuralFrontierPlan) : Prop where
  touchedLeafCount : plan.touchedLeafCount = indices.length
  frontierPositions : plan.frontierPositions = frontier indices depth
  combines : ∀ k combine, plan.combines[k]? = some combine → CombineOk indices depth k combine
  root : Denotes indices depth plan.combines.length depth 0 plan.root

/-- The known leaves at the start of a walk, numbered. -/
theorem lookup_ordinals {V : Type} (h : IndicesOk indices depth) (f : ℕ × ℕ → V) :
    (SortedMap.ofList (indices.zipIdx.map fun e => (e.1, f e))).keys = indices ∧
      ∀ p v, (SortedMap.ofList (indices.zipIdx.map fun e => (e.1, f e))).lookup p = some v →
        ∃ ordinal, indices[ordinal]? = some p ∧ v = f (p, ordinal) := by
  have hentries := SortedMap.ofList_entries (l := indices.zipIdx.map fun e => (e.1, f e)) (by
      rw [pairwise_map, ← pairwise_map (f := Prod.fst), zipIdx_map_fst]
      exact h.sorted)
  refine ⟨?_, ?_⟩
  · rw [SortedMap.keys, hentries, map_map]
    exact zipIdx_map_fst 0 indices
  · intro p v hv
    rw [SortedMap.lookup_eq_some, hentries] at hv
    obtain ⟨⟨index, ordinal⟩, hmem, heq⟩ := mem_map.mp hv
    cases heq
    exact ⟨ordinal, mk_mem_zipIdx_iff_getElem?.mp hmem, rfl⟩

lemma deriveStructuralFrontierPlan_ok (h : IndicesOk indices depth) :
    ∃ plan, deriveStructuralFrontierPlan indices depth = .ok plan ∧ PlanSpec indices depth plan := by
  obtain ⟨valid, hvalid, -⟩ := h.validate
  obtain ⟨hkeys, hlookup⟩ := lookup_ordinals h fun e => StructuralNodeRef.touchedLeaf e.2
  obtain ⟨st, known, hrun, hst, hkeys', hR⟩ := walk_ok planCombine (s := ⟨[], []⟩) (PlanOk indices depth)
    (fun l p ref => Denotes indices depth (written combinedNode indices l []).length l p ref) h.sorted hkeys
    (fun p v hv => by obtain ⟨ordinal, hordinal, rfl⟩ := hlookup p v hv; exact ⟨rfl, hordinal⟩)
    ⟨rfl, rfl, fun k combine hk => by cases hk⟩
    (fun l st hst => ⟨hst.positions.trans frontierUpTo_next, by rw [hst.length, written_next], hst.combines⟩)
    depth fun l hl done p st left right hpre hst hleft hright hL hR =>
      planCombine_ok hl hpre hst hleft hright hL hR
  obtain ⟨root, hroot, hdenotes⟩ := rootOf_eq h hkeys' hR
  refine ⟨⟨indices.length, st.positions, st.combines, root⟩, ?_, rfl, hst.positions, hst.combines, ?_⟩
  · rw [deriveStructuralFrontierPlan, bind_of_ok hvalid, bind_of_ok hrun]
    exact (bind_of_ok hroot).trans rfl
  · change Denotes indices depth st.combines.length depth 0 root
    rwa [hst.length]

/-- The hash operations of a plan compute the nodes they belong to. -/
theorem evaluateCombines (H : ChainHash) (leaf : ℕ → StateHash) (side : ℕ → ℕ → StateHash)
    (combines : List StructuralCombine) :
    ∀ (n : ℕ) (hashes : List StateHash), hashes.length = n → HashesOk H indices depth leaf side n hashes →
      (∀ k combine, combines[k]? = some combine → CombineOk indices depth (n + k) combine) →
      ∃ hashes', combines.foldlM (fun hashes combine => do
          let left ← structuralNodeHash (indices.map leaf) (sideSiblings indices depth side) hashes combine.left
          let right ← structuralNodeHash (indices.map leaf) (sideSiblings indices depth side) hashes combine.right
          return hashes ++ [H.stateNodeHash left right]) hashes = .ok hashes' ∧
        HashesOk H indices depth leaf side (n + combines.length) hashes' := by
  induction combines with
  | nil =>
    intro n hashes hlen hhashes _
    exact ⟨hashes, rfl, hhashes⟩
  | cons combine rest ih =>
    intro n hashes hlen hhashes hok
    obtain ⟨l, p, hnode, hcovers, hleft, hright⟩ := hok 0 combine rfl
    rw [Nat.add_zero] at hnode hleft hright
    have hnext : HashesOk H indices depth leaf side (n + 1)
        (hashes ++ [H.stateNodeHash (partialNode H.stateNodeHash indices leaf side l (2 * p))
          (partialNode H.stateNodeHash indices leaf side l (2 * p + 1))]) := by
      intro c hc
      rcases Nat.lt_or_ge c n with hlt | hge
      · rw [getElem?_append_left (by omega)]
        exact hhashes c hlt
      · obtain rfl : c = n := by omega
        rw [getElem?_append_right hlen.le, hlen, Nat.sub_self, hnode]
        exact congrArg some (partialNode_of_covers hcovers).symm
    obtain ⟨hashes', hrun, hhashes'⟩ := ih (n + 1) _ (by rw [length_append, hlen]; rfl) hnext
      fun k combine' hk => by
        have := hok (k + 1) combine' hk
        rwa [show n + (k + 1) = n + 1 + k by omega] at this
    refine ⟨hashes', ?_, fun c hc => hhashes' c (by rw [length_cons] at hc; omega)⟩
    rw [foldlM_cons, bind_of_ok (hleft.eval hhashes), bind_of_ok (hright.eval hhashes)]
    exact hrun

/-- **A derived plan** evaluates to the root of the partial tree. -/
theorem evaluateStructuralFrontier_eq (H : ChainHash) (h : IndicesOk indices depth) (leaf : ℕ → StateHash)
    (side : ℕ → ℕ → StateHash) :
    ∃ plan evaluation, deriveStructuralFrontierPlan indices depth = .ok plan ∧
      plan.frontierPositions = frontier indices depth ∧
      evaluateStructuralFrontier H plan (indices.map leaf) (sideSiblings indices depth side) = .ok evaluation ∧
      evaluation.root = partialNode H.stateNodeHash indices leaf side depth 0 := by
  obtain ⟨plan, hplan, hspec⟩ := deriveStructuralFrontierPlan_ok h
  obtain ⟨hashes, hrun, hhashes⟩ := evaluateCombines H leaf side plan.combines 0 [] rfl
    (fun c hc => absurd hc (Nat.not_lt_zero c)) fun k combine hk => by
      rw [Nat.zero_add]
      exact hspec.combines k combine hk
  rw [Nat.zero_add] at hhashes
  have hroot := hspec.root.eval hhashes
  refine ⟨plan, ⟨_, hashes⟩, hplan, hspec.frontierPositions, ?_, rfl⟩
  have hleaves : (indices.map leaf).length = plan.touchedLeafCount := by
    rw [length_map, hspec.touchedLeafCount]
  have hsiblings : (sideSiblings indices depth side).length = plan.frontierPositions.length := by
    rw [sideSiblings, length_map, hspec.frontierPositions]
  rw [evaluateStructuralFrontier, require_bind hleaves, require_bind hsiblings, bind_of_ok hrun, bind_of_ok hroot]
  rfl

end

/-! ### Paths -/

section
variable {indices : List ℕ} {depth l p : ℕ} {done : List ℕ}

lemma setLevel_setLevel (level : ℕ) (hash : StateHash) (isRight : Bool) (path : ExpandedMerklePath) :
    (path.setLevel level hash isRight).setLevel level hash isRight = path.setLevel level hash isRight := by
  simp [ExpandedMerklePath.setLevel]

@[simp] lemma length_writeLevel (level : ℕ) (hash : StateHash) (isRight : Bool) (ordinals : List ℕ) :
    ∀ out : List ExpandedMerklePath, (writeLevel level hash isRight out ordinals).length = out.length := by
  induction ordinals with
  | nil => intro out; rfl
  | cons ordinal ordinals ih =>
    intro out
    exact (ih _).trans (length_modify ..)

lemma writeLevel_getElem? (level : ℕ) (hash : StateHash) (isRight : Bool) (k : ℕ) (ordinals : List ℕ) :
    ∀ out : List ExpandedMerklePath, (writeLevel level hash isRight out ordinals)[k]? =
      if k ∈ ordinals then out[k]?.map (ExpandedMerklePath.setLevel level hash isRight) else out[k]? := by
  induction ordinals with
  | nil => intro out; rfl
  | cons ordinal ordinals ih =>
    intro out
    refine (ih _).trans ?_
    rw [getElem?_modify]
    by_cases heq : ordinal = k
    · subst heq
      rw [if_pos mem_cons_self]
      cases out[ordinal]? with
      | none => split_ifs <;> rfl
      | some path =>
        simp only [if_true]
        split_ifs
        · exact congrArg some (setLevel_setLevel level hash isRight path)
        · rfl
    · have hmem : k ∈ ordinal :: ordinals ↔ k ∈ ordinals := by
        rw [mem_cons]
        exact or_iff_right (Ne.symm heq)
      simp only [hmem, heq]
      cases out[k]? <;> rfl

variable (H : ChainHash) (leaf : ℕ → StateHash) (side : ℕ → ℕ → StateHash)

/-- A known node of the path walk: its hash, and all proven leaves below it. -/
structure PathNodeOk (indices : List ℕ) (l p : ℕ) (node : PathNode) : Prop where
  hash : node.hash = partialNode H.stateNodeHash indices leaf side l p
  leaves : ∀ k, k ∈ node.leaves ↔ ∃ i, indices[k]? = some i ∧ i / 2 ^ l = p

/-- The levels of a path that are written. -/
def PathOk (indices : List ℕ) (depth l : ℕ) (done : List ℕ) (i : ℕ) (path : ExpandedMerklePath) : Prop :=
  path.index = i ∧ path.leaf = leaf i ∧ path.siblings.length = depth ∧ path.directions.length = depth ∧
    ∀ l' < depth, l' < l ∨ l' = l ∧ i / 2 ^ (l + 1) ∈ done →
      path.siblings[l']? = some (partialNode H.stateNodeHash indices leaf side l' (i / 2 ^ l' ^^^ 1)) ∧
      path.directions[l']? = some (decide (i / 2 ^ l' % 2 = 1))

/-- The paths after some parents of a level. -/
structure PathsOk (indices : List ℕ) (depth l : ℕ) (done : List ℕ) (out : List ExpandedMerklePath) : Prop where
  length : out.length = indices.length
  path : ∀ (k i : ℕ) path, indices[k]? = some i → out[k]? = some path → PathOk H leaf side indices depth l done i path

variable {H leaf side}
variable {path : ExpandedMerklePath} {out : List ExpandedMerklePath}

lemma PathOk.setLevel {i : ℕ} (hl : l < depth) (h : PathOk H leaf side indices depth l done i path) :
    PathOk H leaf side indices depth l (done ++ [i / 2 ^ (l + 1)]) i
      (path.setLevel l (partialNode H.stateNodeHash indices leaf side l (i / 2 ^ l ^^^ 1)) (decide (i / 2 ^ l % 2 = 1))) := by
  obtain ⟨hindex, hleaf, hsiblings, hdirections, hlevels⟩ := h
  refine ⟨hindex, hleaf, by simpa [ExpandedMerklePath.setLevel] using hsiblings,
    by simpa [ExpandedMerklePath.setLevel] using hdirections, ?_⟩
  intro l' hl' hdone
  by_cases heq : l' = l
  · subst heq
    simp [ExpandedMerklePath.setLevel, hsiblings, hdirections, hl']
  · have hlt : l' < l := by omega
    simp only [ExpandedMerklePath.setLevel, getElem?_set_ne (Ne.symm heq)]
    exact hlevels l' hl' (.inl hlt)

lemma PathsOk.next (h : PathsOk H leaf side indices depth l (touchedKeys indices (l + 1)) out) :
    PathsOk H leaf side indices depth (l + 1) [] out := by
  refine ⟨h.length, ?_⟩
  intro k i path hi hpath
  obtain ⟨hindex, hleaf, hsiblings, hdirections, hlevels⟩ := h.path k i path hi hpath
  refine ⟨hindex, hleaf, hsiblings, hdirections, fun l' hl' hdone => hlevels l' hl' ?_⟩
  rcases hdone with hlt | ⟨-, hmem⟩
  · rcases Nat.lt_succ_iff_lt_or_eq.mp hlt with hlt | heq
    · exact .inl hlt
    · exact .inr ⟨heq, mem_touchedKeys.mpr ⟨i, mem_of_getElem? hi, rfl⟩⟩
  · cases hmem

lemma PathOk.skip {i : ℕ} (hp : i / 2 ^ (l + 1) ≠ p)
    (h : PathOk H leaf side indices depth l done i path) : PathOk H leaf side indices depth l (done ++ [p]) i path := by
  obtain ⟨hindex, hleaf, hsiblings, hdirections, hlevels⟩ := h
  refine ⟨hindex, hleaf, hsiblings, hdirections, fun l' hl' hdone => hlevels l' hl' (hdone.imp_right ?_)⟩
  rintro ⟨rfl, hmem⟩
  rw [mem_append, mem_singleton] at hmem
  exact ⟨rfl, hmem.resolve_right hp⟩

lemma pathChild_ok {child : Option PathNode} {a : PathNode}
    (hknown : ∀ v, child = some v → PathNodeOk H leaf side indices l p v)
    (ha : child = some a ∨ ¬Covers indices l p ∧ a = ⟨side l p, []⟩) : PathNodeOk H leaf side indices l p a := by
  rcases ha with ha | ⟨hnot, rfl⟩
  · exact hknown a ha
  · refine ⟨(partialNode_of_not_covers hnot).symm, fun k => ⟨fun hk => ?_, ?_⟩⟩
    · cases hk
    · rintro ⟨i, hi, hp⟩
      exact absurd ⟨i, mem_of_getElem? hi, hp⟩ hnot

lemma joinedPaths_ok {a b : PathNode} (hl : l < depth)
    (hout : PathsOk H leaf side indices depth l done out) (ha : PathNodeOk H leaf side indices l (2 * p) a)
    (hb : PathNodeOk H leaf side indices l (2 * p + 1) b) :
    PathsOk H leaf side indices depth l (done ++ [p])
      (writeLevel l a.hash true (writeLevel l b.hash false out a.leaves) b.leaves) := by
  refine ⟨by simpa using hout.length, ?_⟩
  intro k i path hi hpath
  have hleaf : ∀ {q : ℕ} {node : PathNode}, PathNodeOk H leaf side indices l q node → (k ∈ node.leaves ↔ i / 2 ^ l = q) := by
    intro q node hnode
    rw [hnode.leaves]
    refine ⟨?_, fun hq => ⟨i, hi, hq⟩⟩
    rintro ⟨j, hj, hq⟩
    rw [hi] at hj
    cases hj
    exact hq
  simp only [writeLevel_getElem?, hleaf ha, hleaf hb, ha.hash, hb.hash] at hpath
  have hparent := div_two_pow_succ i l
  have hpos := xor_one_eq (i / 2 ^ l)
  -- the leaf lies below the left child, below the right child or elsewhere
  by_cases hleft : i / 2 ^ l = 2 * p
  · rw [if_neg (by omega), if_pos hleft] at hpath
    obtain ⟨before, hbefore, rfl⟩ := Option.map_eq_some_iff.mp hpath
    have hset := (hout.path k i before hi hbefore).setLevel hl
    rw [hpos, hparent, hleft, if_neg (by omega), decide_eq_false (by omega), show 2 * p / 2 = p by omega] at hset
    exact hset
  · rw [if_neg hleft] at hpath
    by_cases hright : i / 2 ^ l = 2 * p + 1
    · rw [if_pos hright] at hpath
      obtain ⟨before, hbefore, rfl⟩ := Option.map_eq_some_iff.mp hpath
      have hset := (hout.path k i before hi hbefore).setLevel hl
      rw [hpos, hparent, hright, if_pos (by omega), decide_eq_true (by omega), show (2 * p + 1) / 2 = p by omega] at hset
      exact hset
    · rw [if_neg hright] at hpath
      exact (hout.path k i path hi hpath).skip (by omega)

lemma joinedNode_ok {a b : PathNode} (hcovers : Covers indices (l + 1) p)
    (ha : PathNodeOk H leaf side indices l (2 * p) a) (hb : PathNodeOk H leaf side indices l (2 * p + 1) b) :
    PathNodeOk H leaf side indices (l + 1) p ⟨H.stateNodeHash a.hash b.hash, a.leaves ++ b.leaves⟩ := by
  refine ⟨by rw [partialNode_of_covers hcovers, ha.hash, hb.hash], fun k => ?_⟩
  rw [mem_append, ha.leaves, hb.leaves]
  constructor
  · rintro (⟨i, hi, hp⟩ | ⟨i, hi, hp⟩)
    · exact ⟨i, hi, by rw [div_two_pow_succ]; omega⟩
    · exact ⟨i, hi, by rw [div_two_pow_succ]; omega⟩
  · rintro ⟨i, hi, hp⟩
    rw [div_two_pow_succ] at hp
    rcases (by omega : i / 2 ^ l = 2 * p ∨ i / 2 ^ l = 2 * p + 1) with hleft | hright
    · exact .inl ⟨i, hi, hleft⟩
    · exact .inr ⟨i, hi, hright⟩

/-- The full path of a leaf in the partial tree. -/
def expandedPath (H : ChainHash) (leaf : ℕ → StateHash) (side : ℕ → ℕ → StateHash) (indices : List ℕ) (depth i : ℕ) :
    ExpandedMerklePath where
  index := i
  leaf := leaf i
  siblings := (range depth).map fun l => partialNode H.stateNodeHash indices leaf side l (i / 2 ^ l ^^^ 1)
  directions := (range depth).map fun l => decide (i / 2 ^ l % 2 = 1)

lemma PathOk.eq_expandedPath {i : ℕ}
    (h : PathOk H leaf side indices depth depth [] i path) : path = expandedPath H leaf side indices depth i := by
  obtain ⟨hindex, hleaf, hsiblings, hdirections, hlevels⟩ := h
  have hsib : path.siblings = (expandedPath H leaf side indices depth i).siblings := by
    refine ext_getElem? fun l => ?_
    rcases Nat.lt_or_ge l depth with hl | hl
    · rw [(hlevels l hl (.inl hl)).1, expandedPath, getElem?_map, getElem?_range hl]
      rfl
    · rw [getElem?_eq_none (by omega), getElem?_eq_none (by simpa [expandedPath] using hl)]
  have hdir : path.directions = (expandedPath H leaf side indices depth i).directions := by
    refine ext_getElem? fun l => ?_
    rcases Nat.lt_or_ge l depth with hl | hl
    · rw [(hlevels l hl (.inl hl)).2, expandedPath, getElem?_map, getElem?_range hl]
      rfl
    · rw [getElem?_eq_none (by omega), getElem?_eq_none (by simpa [expandedPath] using hl)]
  cases path
  exact ExpandedMerklePath.mk.injEq .. |>.mpr ⟨hindex, hleaf, hsib, hdir⟩

lemma PathsOk.eq_map (h : PathsOk H leaf side indices depth depth [] out) :
    out = indices.map (expandedPath H leaf side indices depth) := by
  have hlength := h.length
  refine ext_getElem? fun k => ?_
  rw [getElem?_map]
  rcases Nat.lt_or_ge k indices.length with hk | hk
  · have hi := getElem?_eq_getElem hk
    have hpath := getElem?_eq_getElem (hlength ▸ hk : k < out.length)
    rw [hi, hpath, Option.map_some, (h.path k _ _ hi hpath).eq_expandedPath]
  · rw [getElem?_eq_none (by omega), getElem?_eq_none hk]
    rfl

lemma pathsOk_start : PathsOk H leaf side indices depth 0 [] (indices.map fun i =>
    ⟨i, leaf i, replicate depth 0, replicate depth false⟩) := by
  refine ⟨by simp, ?_⟩
  intro k i path hi hpath
  rw [getElem?_map, hi] at hpath
  cases hpath
  refine ⟨rfl, rfl, by simp, by simp, ?_⟩
  rintro l' hl' (hlt | ⟨-, hmem⟩)
  · exact absurd hlt (Nat.not_lt_zero _)
  · cases hmem

/-- A proven leaf is the only one below itself. -/
theorem pathNodeOk_leaf (h : IndicesOk indices depth) {ordinal : ℕ} (hordinal : indices[ordinal]? = some p) :
    PathNodeOk H leaf side indices 0 p ⟨leaf p, [ordinal]⟩ := by
  refine ⟨(partialNode_leaf (mem_of_getElem? hordinal)).symm, fun k => ?_⟩
  rw [mem_singleton, pow_zero]
  constructor
  · rintro rfl
    exact ⟨p, hordinal, Nat.div_one p⟩
  · rintro ⟨i, hi, hp⟩
    rw [Nat.div_one] at hp
    subst hp
    exact (List.getElem?_inj (List.getElem?_eq_some_iff.mp hi).1 (h.sorted.imp Nat.ne_of_lt)).mp (hi.trans hordinal.symm)

variable (H leaf side)

/-- **The expanded paths** are the paths of the partial tree. -/
theorem expandMultiproofPaths_eq (h : IndicesOk indices depth) :
    expandMultiproofPaths H indices (indices.map leaf) (sideSiblings indices depth side) depth =
      .ok (indices.map (expandedPath H leaf side indices depth)) := by
  have hcheck : checkProof indices (indices.map leaf) (sideSiblings indices depth side) depth = .ok () :=
    checkProof_eq h (by simp) (by simp [sideSiblings])
  have hsibling : ∀ i : ℕ, ((sideSiblings indices depth side)[i]?.map fun hash => PathNode.mk hash []) =
      (frontier indices depth)[i]?.map fun position => PathNode.mk (side position.level position.nodeIndex) [] := by
    intro i
    rw [sideSiblings_getElem?, Option.map_map]
    rfl
  obtain ⟨hkeys, hlookup⟩ := lookup_ordinals h fun e => PathNode.mk (leaf e.1) [e.2]
  obtain ⟨⟨cursor, out⟩, known, hrun, ⟨-, hout⟩, -, -⟩ := walk_ok (joinPaths H (sideSiblings indices depth side))
    (s := (0, indices.map fun i => ⟨i, leaf i, replicate depth 0, replicate depth false⟩))
    (fun l done st => st.1 = (frontierUpTo indices l done).length ∧ PathsOk H leaf side indices depth l done st.2)
    (PathNodeOk H leaf side indices) h.sorted hkeys
    (fun p v hv => by obtain ⟨ordinal, hordinal, rfl⟩ := hlookup p v hv; exact pathNodeOk_leaf h hordinal)
    ⟨rfl, pathsOk_start⟩ (fun l st hst => ⟨by rw [hst.1, frontierUpTo_next], hst.2.next⟩) depth <| by
      rintro l hl done p ⟨cursor, out⟩ left right hpre ⟨rfl, hout⟩ hleft hright hL hR
      obtain ⟨a, b, hread, ha, hb⟩ := readChildren_ok hsibling hl hpre hleft hright
      have ha := pathChild_ok hL ha
      have hb := pathChild_ok hR hb
      exact ⟨_, _, by rw [joinPaths, bind_of_ok hread]; rfl, ⟨rfl, joinedPaths_ok hl hout ha hb⟩,
        joinedNode_ok (mem_touchedKeys.mp (hpre.subset (by simp))) ha hb⟩
  rw [expandMultiproofPaths, bind_of_ok hcheck, ← map_prod_left_eq_zip, zipIdx_map, map_map, map_map, ← hout.eq_map]
  exact (bind_of_ok hrun).trans rfl

lemma foldDirectedPath_root (h : IndicesOk indices depth) {i : ℕ} (hi : i ∈ indices) :
    foldDirectedPath H (leaf i) (expandedPath H leaf side indices depth i).siblings
      (expandedPath H leaf side indices depth i).directions = partialNode H.stateNodeHash indices leaf side depth 0 := by
  rw [foldDirectedPath, expandedPath, zip_map', range_eq_range']
  refine (foldPath_leaf hi depth).trans ?_
  rw [Nat.div_eq_of_lt (h.range i hi)]

end

end Noid.Chain
