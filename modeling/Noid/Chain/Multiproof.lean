import Noid.Chain.SparseMerkle

/-! # The walk of a multiproof

At level `l` the known positions of a walk are the nodes above the proven leaves, in increasing order.  `walk_ok` is the
rule for all walks: it asks what one pair of children does to the state of the walk and to the value of the parent. -/

namespace Noid.Chain

open Noid.Lib List

open SortedMap hiding keys

/-! ### Known positions -/

/-- The parents of positions in order, without those whose pair was processed. -/
def parentsFrom (processed : List ℕ) : List ℕ → List ℕ
  | [] => []
  | pos :: rest =>
    if 2 * (pos / 2) ∈ processed then parentsFrom processed rest
    else pos / 2 :: parentsFrom (2 * (pos / 2) :: processed) rest

def parents (keys : List ℕ) : List ℕ := parentsFrom [] keys

variable {keys indices : List ℕ} {depth : ℕ}

lemma mem_parentsFrom {p : ℕ} {processed : List ℕ} :
    p ∈ parentsFrom processed keys ↔ (∃ k ∈ keys, k / 2 = p) ∧ 2 * p ∉ processed := by
  induction keys generalizing processed with
  | nil => simp [parentsFrom]
  | cons pos rest ih =>
    rw [parentsFrom]
    split_ifs with hmem
    · rw [ih]
      constructor
      · rintro ⟨⟨k, hk, hp⟩, hnot⟩
        exact ⟨⟨k, mem_cons_of_mem _ hk, hp⟩, hnot⟩
      · rintro ⟨⟨k, hk, rfl⟩, hnot⟩
        rcases mem_cons.mp hk with rfl | hk
        · exact absurd hmem hnot
        · exact ⟨⟨k, hk, rfl⟩, hnot⟩
    · rw [mem_cons, ih]
      constructor
      · rintro (rfl | ⟨⟨k, hk, hp⟩, hnot⟩)
        · exact ⟨⟨pos, mem_cons_self, rfl⟩, hmem⟩
        · exact ⟨⟨k, mem_cons_of_mem _ hk, hp⟩, fun h => hnot (.tail _ h)⟩
      · rintro ⟨⟨k, hk, rfl⟩, hnot⟩
        by_cases hpos : k / 2 = pos / 2
        · exact .inl hpos
        · rcases mem_cons.mp hk with rfl | hk
          · exact absurd rfl hpos
          · refine .inr ⟨⟨k, hk, rfl⟩, ?_⟩
            rw [mem_cons, not_or]
            exact ⟨by omega, hnot⟩

lemma mem_parents {p : ℕ} : p ∈ parents keys ↔ ∃ k ∈ keys, k / 2 = p := by
  rw [parents, mem_parentsFrom]
  simp

lemma pairwise_parentsFrom {processed : List ℕ} (h : keys.Pairwise (· < ·)) :
    (parentsFrom processed keys).Pairwise (· < ·) := by
  induction keys generalizing processed with
  | nil => exact .nil
  | cons pos rest ih =>
    obtain ⟨hlt, hrest⟩ := pairwise_cons.mp h
    rw [parentsFrom]
    split_ifs
    · exact ih hrest
    · refine pairwise_cons.mpr ⟨?_, ih hrest⟩
      intro p hp
      obtain ⟨⟨k, hk, rfl⟩, hnot⟩ := mem_parentsFrom.mp hp
      have hpos := hlt k hk
      have hne : 2 * (k / 2) ≠ 2 * (pos / 2) := fun heq => hnot (by rw [heq]; exact mem_cons_self)
      omega

/-- The known positions of a level. -/
def touchedKeys (indices : List ℕ) : ℕ → List ℕ
  | 0 => indices
  | l + 1 => parents (touchedKeys indices l)

section
variable {indices : List ℕ}

/-- The known positions are the nodes above the proven leaves. -/
theorem mem_touchedKeys {l p : ℕ} : p ∈ touchedKeys indices l ↔ Covers indices l p := by
  induction l generalizing p with
  | zero => exact covers_zero.symm
  | succ l ih =>
    rw [touchedKeys, mem_parents]
    constructor
    · rintro ⟨k, hk, rfl⟩
      exact (ih.mp hk).parent
    · intro h
      rcases covers_succ.mp h with h | h
      · exact ⟨_, ih.mpr h, by omega⟩
      · exact ⟨_, ih.mpr h, by omega⟩

lemma pairwise_touchedKeys (h : indices.Pairwise (· < ·)) (l : ℕ) : (touchedKeys indices l).Pairwise (· < ·) := by
  induction l with
  | zero => exact h
  | succ l ih => exact pairwise_parentsFrom ih

/-- At the depth of the tree only the root is known. -/
theorem touchedKeys_depth {depth : ℕ} (h : indices.Pairwise (· < ·)) (hne : indices ≠ [])
    (hrange : ∀ i ∈ indices, i < 2 ^ depth) : touchedKeys indices depth = [0] := by
  refine (pairwise_touchedKeys h depth).eq_of_mem_iff (pairwise_singleton _ _) fun p => ?_
  rw [mem_touchedKeys, mem_singleton]
  constructor
  · rintro ⟨i, hi, rfl⟩
    exact Nat.div_eq_of_lt (hrange i hi)
  · rintro rfl
    obtain ⟨i, hi⟩ := exists_mem_of_ne_nil _ hne
    exact ⟨i, hi, Nat.div_eq_of_lt (hrange i hi)⟩

end

/-! ### The rule -/

section
variable {S V W : Type} {join : S → ℕ → Option V → Option V → Except SparseMerkleError (S × W)}
  {known : SortedMap ℕ V}

lemma passPosition_fold {I : List ℕ → S → Prop} {R : ℕ → W → Prop} (hsorted : (parents known.keys).Pairwise (· < ·))
    (hstep : ∀ done p s, done ++ [p] <+: parents known.keys → I done s →
      ∃ s' w, join s (2 * p) (known.lookup (2 * p)) (known.lookup (2 * p + 1)) = .ok (s', w) ∧ I (done ++ [p]) s' ∧
        R p w) :
    ∀ (rest : List ℕ) (s : S) (next : SortedMap ℕ W) (processed : List ℕ),
      parents known.keys = next.keys ++ parentsFrom processed rest → I next.keys s →
      (∀ p w, next.lookup p = some w → R p w) →
      ∃ st, rest.foldlM (passPosition join known) (s, next, processed) = .ok st ∧ I (parents known.keys) st.1 ∧
        st.2.1.keys = parents known.keys ∧ ∀ p w, st.2.1.lookup p = some w → R p w
  | [], s, next, processed, hkeys, hI, hR => by
    rw [parentsFrom, append_nil] at hkeys
    exact ⟨_, rfl, by rwa [hkeys], hkeys.symm, hR⟩
  | pos :: rest, s, next, processed, hkeys, hI, hR => by
    rw [foldlM_cons]
    rw [parentsFrom] at hkeys
    split_ifs at hkeys with hmem
    · have hpass : passPosition join known (s, next, processed) pos = .ok (s, next, processed) := if_pos hmem
      rw [bind_of_ok hpass]
      exact passPosition_fold hsorted hstep rest s next processed hkeys hI hR
    · have hpre : next.keys ++ [pos / 2] <+: parents known.keys := by
        rw [hkeys]
        exact ⟨_, by rw [append_assoc]; rfl⟩
      obtain ⟨s', w, hjoin, hI', hw⟩ := hstep _ _ s hpre hI
      have hlast : ∀ k ∈ next.keys, k < pos / 2 := by
        intro k hk
        have hpair := hsorted.sublist hpre.sublist
        exact (pairwise_append.mp hpair).2.2 k hk _ (by simp)
      have hnext : (next.insert (pos / 2) w).keys = next.keys ++ [pos / 2] := keys_insert_of_lt hlast
      have hpass : passPosition join known (s, next, processed) pos =
          .ok (s', next.insert (pos / 2) w, 2 * (pos / 2) :: processed) := by
        unfold passPosition
        rw [if_neg hmem, bind_of_ok hjoin]
        rw [Nat.mul_div_cancel_left _ (by decide : 0 < 2)]
        rfl
      rw [bind_of_ok hpass]
      refine passPosition_fold hsorted hstep rest s' _ _ ?_ ?_ ?_
      · rw [hkeys, hnext, append_assoc]
        rfl
      · rwa [hnext]
      · intro p w' hp
        rw [lookup_insert] at hp
        split_ifs at hp with heq
        · cases hp
          rwa [heq]
        · exact hR p w' hp

/-- One level of a walk: what every pair of children does. -/
theorem passLevel_ok {I : List ℕ → S → Prop} {R : ℕ → W → Prop} {s : S}
    (hsorted : (parents known.keys).Pairwise (· < ·)) (hinit : I [] s)
    (hstep : ∀ done p s, done ++ [p] <+: parents known.keys → I done s →
      ∃ s' w, join s (2 * p) (known.lookup (2 * p)) (known.lookup (2 * p + 1)) = .ok (s', w) ∧ I (done ++ [p]) s' ∧
        R p w) :
    ∃ s' next, passLevel join known s = .ok (s', next) ∧ I (parents known.keys) s' ∧ next.keys = parents known.keys ∧
      ∀ p w, next.lookup p = some w → R p w := by
  obtain ⟨st, hfold, hI, hkeys, hR⟩ :=
    passPosition_fold hsorted hstep known.keys s .empty [] rfl hinit fun p w h => by cases h
  refine ⟨st.1, st.2.1, ?_, hI, hkeys, hR⟩
  rw [passLevel, bind_of_ok hfold]
  rfl

end

/-- **The rule for walks**: `I` relates the state to the parents joined so far, `R` a known position to its value. -/
theorem walk_ok {S V : Type} (join : ℕ → S → ℕ → Option V → Option V → Except SparseMerkleError (S × V))
    {known : SortedMap ℕ V} {s : S} (I : ℕ → List ℕ → S → Prop) (R : ℕ → ℕ → V → Prop)
    (hsorted : indices.Pairwise (· < ·)) (hknown : known.keys = indices)
    (hR : ∀ p v, known.lookup p = some v → R 0 p v) (hI : I 0 [] s)
    (hnext : ∀ l s, I l (touchedKeys indices (l + 1)) s → I (l + 1) [] s) :
    ∀ depth, (∀ l < depth, ∀ done p s left right, done ++ [p] <+: touchedKeys indices (l + 1) → I l done s →
        (left.isSome ↔ Covers indices l (2 * p)) → (right.isSome ↔ Covers indices l (2 * p + 1)) →
        (∀ v, left = some v → R l (2 * p) v) → (∀ v, right = some v → R l (2 * p + 1) v) →
        ∃ s' w, join l s (2 * p) left right = .ok (s', w) ∧ I l (done ++ [p]) s' ∧ R (l + 1) p w) →
      ∃ s' known', passLevels join depth s known = .ok (s', known') ∧ I depth [] s' ∧
        known'.keys = touchedKeys indices depth ∧ ∀ p v, known'.lookup p = some v → R depth p v
  | 0, _ => ⟨s, known, rfl, hI, hknown, hR⟩
  | depth + 1, hstep => by
    obtain ⟨s1, known1, hrun, hI1, hkeys1, hR1⟩ := walk_ok join I R hsorted hknown hR hI hnext depth
      fun l hl => hstep l (Nat.lt_succ_of_lt hl)
    have hsome : ∀ p, (known1.lookup p).isSome ↔ Covers indices depth p := by
      intro p
      rw [← mem_touchedKeys, ← hkeys1, SortedMap.mem_keys, Option.isSome_iff_exists]
    have hparents : parents known1.keys = touchedKeys indices (depth + 1) := by rw [hkeys1, touchedKeys]
    have hlevel : ∃ s2 known2, passLevel (join depth) known1 s1 = .ok (s2, known2) ∧ I depth (parents known1.keys) s2 ∧
        known2.keys = parents known1.keys ∧ ∀ p v, known2.lookup p = some v → R (depth + 1) p v := by
      refine passLevel_ok (by rw [hparents]; exact pairwise_touchedKeys hsorted _) hI1 ?_
      intro done p s hpre hdone
      rw [hparents] at hpre
      exact hstep depth (Nat.lt_succ_self _) done p s _ _ hpre hdone (hsome _) (hsome _)
        (fun v hv => hR1 _ v hv) fun v hv => hR1 _ v hv
    obtain ⟨s2, known2, hpass, hI2, hkeys2, hR2⟩ := hlevel
    rw [hparents] at hI2 hkeys2
    refine ⟨s2, known2, ?_, hnext _ _ hI2, hkeys2, hR2⟩
    rw [passLevels, range_succ, foldlM_append]
    exact (bind_of_ok hrun).trans ((bind_of_ok hpass).trans rfl)

/-! ### Checked indices -/

/-- A sorted list of distinct indices of a tree. -/
structure IndicesOk (indices : List ℕ) (depth : ℕ) : Prop where
  depth_le : depth ≤ 32
  nonempty : indices ≠ []
  sorted : indices.Pairwise (· < ·)
  range : ∀ i ∈ indices, i < 2 ^ depth

lemma IndicesOk.covers_root (h : IndicesOk indices depth) : Covers indices depth 0 := by
  obtain ⟨i, hi⟩ := exists_mem_of_ne_nil indices h.nonempty
  exact ⟨i, hi, Nat.div_eq_of_lt (h.range i hi)⟩

lemma validateNext_fold (hdepth : depth ≤ 32) :
    ∀ (indices : List ℕ) (prev : Option ℕ) (out : SortedMap ℕ Unit),
      (∀ i ∈ indices, i < 2 ^ depth) → (∀ k ∈ prev, ∀ i ∈ indices, k < i) → indices.Pairwise (· < ·) →
      (∀ k ∈ out.keys, ∀ i ∈ indices, k < i) →
      ∃ st, indices.foldlM (validateNext depth) (prev, out) = .ok st ∧ st.2.keys = out.keys ++ indices
  | [], _, out, _, _, _, _ => ⟨_, rfl, (append_nil _).symm⟩
  | i :: indices, prev, out, hrange, hprev, hsorted, hout => by
    obtain ⟨hlt, hrest⟩ := pairwise_cons.mp hsorted
    have hnext : validateNext depth (prev, out) i = .ok (some i, out.insert i ()) := by
      have hindex : validateIndex i depth = .ok () := by
        rw [validateIndex, validateDepth, require_bind hdepth]
        exact require_of _ (hrange i mem_cons_self)
      rw [validateNext, bind_of_ok hindex, require_bind (fun k hk => (hprev k hk i mem_cons_self).le),
        require_bind (fun k hk => (hprev k hk i mem_cons_self).ne)]
      rfl
    have hkeys : (out.insert i ()).keys = out.keys ++ [i] := keys_insert_of_lt fun k hk => hout k hk i mem_cons_self
    rw [foldlM_cons, bind_of_ok hnext]
    obtain ⟨st, hfold, hst⟩ := validateNext_fold hdepth indices (some i) (out.insert i ())
      (fun j hj => hrange j (.tail _ hj))
      (fun k hk j hj => by cases hk; exact hlt j hj) hrest <| by
        rw [hkeys, forall_mem_append, forall_mem_singleton]
        exact ⟨fun k hk j hj => hout k hk j (.tail _ hj), hlt⟩
    refine ⟨st, hfold, ?_⟩
    rw [hst, hkeys, append_assoc]
    rfl

lemma IndicesOk.validate (h : IndicesOk indices depth) :
    ∃ known, validateIndices indices depth = .ok known ∧ known.keys = indices := by
  obtain ⟨st, hfold, hkeys⟩ := validateNext_fold h.depth_le indices none .empty h.range (by simp) h.sorted
    fun k hk => by cases hk
  refine ⟨st.2, ?_, by simpa [SortedMap.keys] using hkeys⟩
  rw [validateIndices, validateDepth, require_bind h.depth_le, require_bind h.nonempty, bind_of_ok hfold]
  rfl

lemma validateNext_fold_ok :
    ∀ {indices : List ℕ} {prev : Option ℕ} {out : SortedMap ℕ Unit} {st : Option ℕ × SortedMap ℕ Unit},
      indices.foldlM (validateNext depth) (prev, out) = .ok st →
      (∀ i ∈ indices, i < 2 ^ depth) ∧ (∀ k ∈ prev, ∀ i ∈ indices, k < i) ∧ indices.Pairwise (· < ·)
  | [], _, _, _, _ => ⟨by simp, by simp, .nil⟩
  | i :: indices, prev, out, st, h => by
    rw [foldlM_cons, bind_eq_ok] at h
    obtain ⟨st1, hnext, hrest⟩ := h
    simp only [validateNext, validateIndex, validateDepth, ok_rules] at hnext
    obtain ⟨⟨-, hi⟩, hle, hne, rfl⟩ := hnext
    obtain ⟨hrange, hprev, hsorted⟩ := validateNext_fold_ok hrest
    have hlt : ∀ k ∈ prev, k < i := fun k hk => lt_of_le_of_ne (hle k hk) (hne k hk)
    refine ⟨forall_mem_cons.mpr ⟨hi, hrange⟩, fun k hk => ?_, pairwise_cons.mpr ⟨hprev i rfl, hsorted⟩⟩
    exact forall_mem_cons.mpr ⟨hlt k hk, fun j hj => (hlt k hk).trans (hprev i rfl j hj)⟩

/-- Only such lists pass the check. -/
theorem indicesOk_of_validate {known : SortedMap ℕ Unit}
    (h : validateIndices indices depth = .ok known) : IndicesOk indices depth := by
  simp only [validateIndices, validateDepth, ok_rules, Prod.exists] at h
  obtain ⟨hdepth, hne, prev, out, hfold, -⟩ := h
  obtain ⟨hrange, -, hsorted⟩ := validateNext_fold_ok hfold
  exact ⟨hdepth, hne, hsorted, hrange⟩

/-! ### What a walk writes down -/

section
variable {α : Type} {f : ℕ → ℕ → List α} {indices : List ℕ} {l p depth : ℕ} {done : List ℕ}

/-- What is written for the parents up to a level, and for some parents of the level. -/
def written (f : ℕ → ℕ → List α) (indices : List ℕ) (l : ℕ) (done : List ℕ) : List α :=
  (range l).flatMap (fun l => (touchedKeys indices (l + 1)).flatMap (f l)) ++ done.flatMap (f l)

lemma written_next : written f indices l (touchedKeys indices (l + 1)) = written f indices (l + 1) [] := by
  simp [written, range_succ]

lemma written_append : written f indices l (done ++ [p]) = written f indices l done ++ f l p := by
  simp [written]

lemma written_prefix_next (h : done <+: touchedKeys indices (l + 1)) :
    written f indices l done <+: written f indices (l + 1) [] := by
  rw [← written_next]
  exact prefix_append_right_inj _ |>.mpr (h.flatMap _)

lemma written_prefix (hl : l < depth) (h : done <+: touchedKeys indices (l + 1)) :
    written f indices l done <+: written f indices depth [] := by
  refine (written_prefix_next h).trans ?_
  obtain ⟨n, rfl⟩ := Nat.exists_eq_add_of_lt hl
  clear h hl
  induction n with
  | zero => exact prefix_rfl
  | succ n ih => exact ih.trans (written_prefix_next nil_prefix)

lemma written_getElem? (hl : l < depth) (hpre : done ++ [p] <+: touchedKeys indices (l + 1)) {x : α}
    (hx : f l p = [x]) : (written f indices depth [])[(written f indices l done).length]? = some x := by
  obtain ⟨t, ht⟩ := written_prefix (f := f) hl hpre
  rw [← ht, written_append, hx, append_assoc, getElem?_append_right le_rfl, Nat.sub_self]
  rfl

end

/-! ### The frontier -/

def missingChild (indices : List ℕ) (l p : ℕ) : List FrontierSiblingPosition :=
  if ¬Covers indices l (2 * p) then [⟨l, 2 * p⟩]
  else if ¬Covers indices l (2 * p + 1) then [⟨l, 2 * p + 1⟩]
  else []

/-- The missing nodes that a walk has met. -/
def frontierUpTo (indices : List ℕ) (l : ℕ) (done : List ℕ) : List FrontierSiblingPosition :=
  written (missingChild indices) indices l done

/-- The missing nodes of a proof, level by level. -/
def frontier (indices : List ℕ) (depth : ℕ) : List FrontierSiblingPosition := frontierUpTo indices depth []

section
variable {indices : List ℕ} {l p depth : ℕ} {done : List ℕ}

lemma frontierUpTo_next : frontierUpTo indices l (touchedKeys indices (l + 1)) = frontierUpTo indices (l + 1) [] :=
  written_next

lemma frontierUpTo_append :
    frontierUpTo indices l (done ++ [p]) = frontierUpTo indices l done ++ missingChild indices l p :=
  written_append

variable {x : FrontierSiblingPosition}

lemma frontier_getElem? (hl : l < depth) (hpre : done ++ [p] <+: touchedKeys indices (l + 1))
    (hx : missingChild indices l p = [x]) :
    (frontier indices depth)[(frontierUpTo indices l done).length]? = some x :=
  written_getElem? hl hpre hx

lemma pair_cases {V : Type} {left right : Option V} (hpre : done ++ [p] <+: touchedKeys indices (l + 1))
    (hleft : left.isSome ↔ Covers indices l (2 * p)) (hright : right.isSome ↔ Covers indices l (2 * p + 1)) :
    (∃ a b, left = some a ∧ right = some b ∧ missingChild indices l p = []) ∨
      (∃ a, left = some a ∧ right = none ∧ missingChild indices l p = [⟨l, 2 * p + 1⟩] ∧ ¬Covers indices l (2 * p + 1)) ∨
      ∃ b, left = none ∧ right = some b ∧ missingChild indices l p = [⟨l, 2 * p⟩] ∧ ¬Covers indices l (2 * p) := by
  have hmem : p ∈ touchedKeys indices (l + 1) := hpre.subset (by simp)
  have hcovers := covers_succ.mp (mem_touchedKeys.mp hmem)
  cases left with
  | some a =>
    have h1 : Covers indices l (2 * p) := hleft.mp rfl
    cases right with
    | some b =>
      have h2 : Covers indices l (2 * p + 1) := hright.mp rfl
      exact .inl ⟨a, b, rfl, rfl, by rw [missingChild, if_neg (not_not.mpr h1), if_neg (not_not.mpr h2)]⟩
    | none =>
      have h2 : ¬Covers indices l (2 * p + 1) := fun h => by cases hright.mpr h
      exact .inr (.inl ⟨a, rfl, rfl, by rw [missingChild, if_neg (not_not.mpr h1), if_pos h2], h2⟩)
  | none =>
    have h1 : ¬Covers indices l (2 * p) := fun h => by cases hleft.mpr h
    cases right with
    | some b => exact .inr (.inr ⟨b, rfl, rfl, by rw [missingChild, if_pos h1], h1⟩)
    | none =>
      have h2 : ¬Covers indices l (2 * p + 1) := fun h => by cases hright.mpr h
      exact absurd hcovers (not_or.mpr ⟨h1, h2⟩)

lemma mem_missingChild (hcovers : Covers indices (l + 1) p) :
    x ∈ missingChild indices l p ↔ x.level = l ∧ x.nodeIndex / 2 = p ∧ ¬Covers indices l x.nodeIndex := by
  obtain ⟨level, q⟩ := x
  have hchild := covers_succ.mp hcovers
  constructor
  · intro hx
    rw [missingChild] at hx
    split_ifs at hx with hleft hright
    · cases hx
    · rw [mem_singleton, FrontierSiblingPosition.mk.injEq] at hx
      obtain ⟨rfl, rfl⟩ := hx
      exact ⟨rfl, by dsimp only; omega, hright⟩
    · rw [mem_singleton, FrontierSiblingPosition.mk.injEq] at hx
      obtain ⟨rfl, rfl⟩ := hx
      exact ⟨rfl, by dsimp only; omega, hleft⟩
  · rintro ⟨rfl, hq, hnot⟩
    dsimp only at hq hnot ⊢
    rcases (by omega : q = 2 * p ∨ q = 2 * p + 1) with rfl | rfl
    · rw [missingChild, if_pos hnot]
      exact mem_singleton.mpr rfl
    · rw [missingChild, if_neg (not_not.mpr (hchild.resolve_right hnot)), if_pos hnot]
      exact mem_singleton.mpr rfl

/-- The frontier consists of the side nodes that are used. -/
theorem mem_frontier :
    x ∈ frontier indices depth ↔ x.level < depth ∧ IsFrontier indices x.level x.nodeIndex := by
  simp only [frontier, frontierUpTo, written, flatMap_nil, append_nil, mem_flatMap, mem_range]
  constructor
  · rintro ⟨l, hl, p, hp, hx⟩
    have hcovers := mem_touchedKeys.mp hp
    obtain ⟨rfl, rfl, hnot⟩ := (mem_missingChild hcovers).mp hx
    exact ⟨hl, hcovers, hnot⟩
  · rintro ⟨hl, hcovers, hnot⟩
    exact ⟨x.level, hl, x.nodeIndex / 2, mem_touchedKeys.mpr hcovers, (mem_missingChild hcovers).mpr ⟨rfl, rfl, hnot⟩⟩

lemma nodup_missingChild : (missingChild indices l p).Nodup := by
  rw [missingChild]
  split_ifs <;> simp

lemma nodup_frontier (h : indices.Pairwise (· < ·)) : (frontier indices depth).Nodup := by
  rw [frontier, frontierUpTo, written, flatMap_nil, append_nil, nodup_flatMap]
  refine ⟨fun l _ => nodup_flatMap.mpr ⟨fun p _ => nodup_missingChild, ?_⟩, ?_⟩
  · refine (pairwise_touchedKeys h (l + 1)).imp_of_mem fun {p q} hp hq hlt x hx hx' => ?_
    have hxp := ((mem_missingChild (mem_touchedKeys.mp hp)).mp hx).2.1
    have hxq := ((mem_missingChild (mem_touchedKeys.mp hq)).mp hx').2.1
    omega
  · refine pairwise_lt_range.imp fun {l l'} hlt x hx hx' => ?_
    obtain ⟨p, hp, hx⟩ := mem_flatMap.mp hx
    obtain ⟨q, hq, hx'⟩ := mem_flatMap.mp hx'
    have hxl := ((mem_missingChild (mem_touchedKeys.mp hp)).mp hx).1
    have hxl' := ((mem_missingChild (mem_touchedKeys.mp hq)).mp hx').1
    omega

lemma expectedSiblingCount_eq (h : IndicesOk indices depth) :
    expectedSiblingCount indices depth = .ok (frontier indices depth).length := by
  obtain ⟨known, hvalid, hkeys⟩ := h.validate
  obtain ⟨count, known', hrun, hcount, -, -⟩ := walk_ok (fun _ => countSibling) (s := 0)
    (fun l done count => count = (frontierUpTo indices l done).length) (fun _ _ _ => True) h.sorted hkeys
    (fun _ _ _ => trivial) rfl (fun l count hcount => by rw [hcount, frontierUpTo_next]) depth <| by
      intro l hl done p count left right hpre hcount hleft hright _ _
      refine ⟨_, (), rfl, ?_, trivial⟩
      rw [hcount, frontierUpTo_append, length_append]
      rcases pair_cases hpre hleft hright with ⟨a, b, rfl, rfl, hmiss⟩ | ⟨a, rfl, rfl, hmiss, -⟩ |
          ⟨b, rfl, rfl, hmiss, -⟩ <;> rw [hmiss] <;> rfl
  rw [expectedSiblingCount, bind_of_ok hvalid, bind_of_ok hrun, hcount]
  rfl

lemma frontierSiblingPositions_eq (h : IndicesOk indices depth) :
    frontierSiblingPositions indices depth = .ok (frontier indices depth) := by
  obtain ⟨known, hvalid, hkeys⟩ := h.validate
  obtain ⟨positions, known', hrun, hpositions, -, -⟩ := walk_ok pushSibling (s := [])
    (fun l done positions => positions = frontierUpTo indices l done) (fun _ _ _ => True) h.sorted hkeys
    (fun _ _ _ => trivial) rfl (fun l positions hpositions => by rw [hpositions, frontierUpTo_next]) depth <| by
      intro l hl done p positions left right hpre hpositions hleft hright _ _
      rcases pair_cases hpre hleft hright with ⟨a, b, rfl, rfl, hmiss⟩ | ⟨a, rfl, rfl, hmiss, -⟩ |
          ⟨b, rfl, rfl, hmiss, -⟩
      · exact ⟨_, _, rfl, by rw [hpositions, frontierUpTo_append, hmiss, append_nil], trivial⟩
      · exact ⟨_, _, rfl, by rw [hpositions, frontierUpTo_append, hmiss], trivial⟩
      · exact ⟨_, _, rfl, by rw [hpositions, frontierUpTo_append, hmiss], trivial⟩
  rw [frontierSiblingPositions, bind_of_ok hvalid, bind_of_ok hrun, hpositions]
  rfl

end

/-! ### The root -/

def sideSiblings (indices : List ℕ) (depth : ℕ) (side : ℕ → ℕ → StateHash) : List StateHash :=
  (frontier indices depth).map fun position => side position.level position.nodeIndex

section
variable {indices : List ℕ} {l p depth : ℕ} {done : List ℕ} {side : ℕ → ℕ → StateHash}

lemma readChildren_ok {V : Type} {sibling : ℕ → Option V} {node : FrontierSiblingPosition → V} {left right : Option V}
    (hsibling : ∀ i, sibling i = (frontier indices depth)[i]?.map node) (hl : l < depth)
    (hpre : done ++ [p] <+: touchedKeys indices (l + 1)) (hleft : left.isSome ↔ Covers indices l (2 * p))
    (hright : right.isSome ↔ Covers indices l (2 * p + 1)) :
    ∃ a b, readChildren sibling (frontierUpTo indices l done).length left right =
        .ok ((frontierUpTo indices l (done ++ [p])).length, a, b) ∧
      (left = some a ∨ ¬Covers indices l (2 * p) ∧ a = node ⟨l, 2 * p⟩) ∧
      (right = some b ∨ ¬Covers indices l (2 * p + 1) ∧ b = node ⟨l, 2 * p + 1⟩) := by
  rw [frontierUpTo_append, length_append]
  rcases pair_cases hpre hleft hright with ⟨a, b, rfl, rfl, hmiss⟩ | ⟨a, rfl, rfl, hmiss, hnot⟩ |
      ⟨b, rfl, rfl, hmiss, hnot⟩
  · exact ⟨a, b, by rw [hmiss]; rfl, .inl rfl, .inl rfl⟩
  · refine ⟨a, _, ?_, .inl rfl, .inr ⟨hnot, rfl⟩⟩
    rw [hmiss, readChildren, hsibling, frontier_getElem? hl hpre hmiss]
    rfl
  · refine ⟨_, b, ?_, .inr ⟨hnot, rfl⟩, .inl rfl⟩
    rw [hmiss, readChildren, hsibling, frontier_getElem? hl hpre hmiss]
    rfl

lemma sideSiblings_getElem? (i : ℕ) : (sideSiblings indices depth side)[i]? =
      (frontier indices depth)[i]?.map fun position => side position.level position.nodeIndex := by
  rw [sideSiblings, getElem?_map]

lemma checkProof_eq (h : IndicesOk indices depth) {leaves siblings : List StateHash}
    (hleaves : indices.length = leaves.length) (hsiblings : siblings.length = (frontier indices depth).length) :
    checkProof indices leaves siblings depth = .ok () := by
  rw [checkProof, require_bind hleaves, bind_of_ok (expectedSiblingCount_eq h)]
  exact require_of _ hsiblings

lemma rootOf_eq {V : Type} (h : IndicesOk indices depth) {known : SortedMap ℕ V} {R : ℕ → V → Prop}
    (hkeys : known.keys = touchedKeys indices depth) (hR : ∀ p v, known.lookup p = some v → R p v) :
    ∃ v, rootOf depth known = .ok v ∧ R 0 v := by
  rw [touchedKeys_depth h.sorted h.nonempty h.range] at hkeys
  obtain ⟨v, hv⟩ := mem_keys.mp (by rw [hkeys]; exact mem_cons_self : 0 ∈ known.keys)
  refine ⟨v, ?_, hR 0 v hv⟩
  have hmem := lookup_eq_some.mp hv
  obtain ⟨e, hentries, -⟩ := map_eq_singleton_iff.mp hkeys
  rw [hentries, mem_singleton] at hmem
  simp only [rootOf, hentries, ← hmem]

variable (H : ChainHash) {leaf : ℕ → StateHash}

/-- The known nodes at the start of a walk. -/
theorem lookup_leaves (h : IndicesOk indices depth) {V : Type} {f : ℕ → V} :
    (SortedMap.ofList (indices.map fun i => (i, f i))).keys = indices ∧
      ∀ p v, (SortedMap.ofList (indices.map fun i => (i, f i))).lookup p = some v → p ∈ indices ∧ v = f p := by
  have hentries := ofList_entries (l := indices.map fun i => (i, f i)) (pairwise_map.mpr h.sorted)
  refine ⟨?_, ?_⟩
  · rw [SortedMap.keys, hentries, map_map]
    exact map_id _
  · intro p v hv
    rw [lookup_eq_some, hentries] at hv
    obtain ⟨i, hi, heq⟩ := mem_map.mp hv
    cases heq
    exact ⟨hi, rfl⟩

lemma child_eq {child : Option StateHash} {a : StateHash}
    (hknown : ∀ v, child = some v → v = partialNode H.stateNodeHash indices leaf side l p)
    (ha : child = some a ∨ ¬Covers indices l p ∧ a = side l p) : a = partialNode H.stateNodeHash indices leaf side l p := by
  rcases ha with ha | ⟨hnot, rfl⟩
  · exact hknown a ha
  · exact (partialNode_of_not_covers hnot).symm

/-- **The reconstructed root** is the root of the partial tree. -/
theorem reconstructRoot_eq (h : IndicesOk indices depth) :
    reconstructRoot H indices (indices.map leaf) (sideSiblings indices depth side) depth =
      .ok (partialNode H.stateNodeHash indices leaf side depth 0) := by
  obtain ⟨hkeys, hlookup⟩ := lookup_leaves h (f := leaf)
  obtain ⟨cursor, known, hrun, -, hkeys', hR⟩ := walk_ok
    (fun _ => hashChildren H (sideSiblings indices depth side)) (s := 0)
    (fun l done cursor => cursor = (frontierUpTo indices l done).length)
    (fun l p v => v = partialNode H.stateNodeHash indices leaf side l p) h.sorted hkeys
    (fun p v hv => by rw [(hlookup p v hv).2, partialNode_leaf (hlookup p v hv).1]) rfl
    (fun l cursor hcursor => by rw [hcursor, frontierUpTo_next]) depth <| by
      rintro l hl done p cursor left right hpre rfl hleft hright hRleft hRright
      obtain ⟨a, b, hread, ha, hb⟩ := readChildren_ok sideSiblings_getElem? hl hpre hleft hright
      refine ⟨_, H.stateNodeHash a b, by rw [hashChildren, bind_of_ok hread]; rfl, rfl, ?_⟩
      rw [partialNode_of_covers (mem_touchedKeys.mp (hpre.subset (by simp))), child_eq H hRleft ha,
        child_eq H hRright hb]
  obtain ⟨root, hroot, rfl⟩ := rootOf_eq h hkeys' hR
  have hcheck : checkProof indices (indices.map leaf) (sideSiblings indices depth side) depth = .ok () :=
    checkProof_eq h (by simp) (by simp [sideSiblings])
  rw [reconstructRoot, bind_of_ok hcheck, ← map_prod_left_eq_zip, bind_of_ok hrun]
  exact hroot

end

end Noid.Chain
