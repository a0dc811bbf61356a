import Mathlib.Data.Nat.Bitwise
import Mathlib.Tactic.Linarith

/-! # Binary hash trees

The full tree over leaves has at level `l` one node for every `2 ^ l` leaves.  A proof for some of the leaves shows a part
of it: the nodes above the proven leaves are computed, what stands beside them is given.  If the compression has no
collisions, a part with the root of a tree consists of nodes of the tree. -/

namespace Noid.Lib

variable {α : Type} (compress : α → α → α)

/-- The node at a level and a position of the full binary tree over leaves. -/
def merkleNode (leaf : ℕ → α) : ℕ → ℕ → α
  | 0, p => leaf p
  | l + 1, p => compress (merkleNode leaf l (2 * p)) (merkleNode leaf l (2 * p + 1))

/-- Different pairs have different compressions. -/
def CollisionFree : Prop := ∀ a b c d, compress a b = compress c d → a = c ∧ b = d

lemma div_two_pow_succ (i l : ℕ) : i / 2 ^ (l + 1) = i / 2 ^ l / 2 := by
  rw [Nat.pow_succ, Nat.div_div_eq_div_mul]

variable {compress}

/-- A node depends on the leaves below it. -/
theorem merkleNode_congr {leaf leaf' : ℕ → α} {l p : ℕ} (h : ∀ i, i / 2 ^ l = p → leaf i = leaf' i) :
    merkleNode compress leaf l p = merkleNode compress leaf' l p := by
  induction l generalizing p with
  | zero => exact h p (by simp)
  | succ l ih =>
    have hchild : ∀ q, q / 2 = p → merkleNode compress leaf l q = merkleNode compress leaf' l q := by
      intro q hq
      refine ih fun i hi => h i ?_
      rw [div_two_pow_succ, hi, hq]
    rw [merkleNode, merkleNode, hchild (2 * p) (by omega), hchild (2 * p + 1) (by omega)]

/-! ### The nodes above some leaves -/

/-- Some of the leaves lie below the node. -/
def Covers (indices : List ℕ) (l p : ℕ) : Prop := ∃ i ∈ indices, i / 2 ^ l = p

instance (indices : List ℕ) (l p : ℕ) : Decidable (Covers indices l p) :=
  inferInstanceAs (Decidable (∃ i ∈ indices, i / 2 ^ l = p))

section
variable {indices : List ℕ} {l p : ℕ}

lemma covers_zero : Covers indices 0 p ↔ p ∈ indices := by simp [Covers]

lemma Covers.parent (h : Covers indices l p) : Covers indices (l + 1) (p / 2) := by
  obtain ⟨i, hi, rfl⟩ := h
  exact ⟨i, hi, div_two_pow_succ i l⟩

lemma covers_succ : Covers indices (l + 1) p ↔ Covers indices l (2 * p) ∨ Covers indices l (2 * p + 1) := by
  constructor
  · rintro ⟨i, hi, rfl⟩
    rw [div_two_pow_succ]
    rcases Nat.even_or_odd' (i / 2 ^ l) with ⟨q, hq | hq⟩
    · exact .inl ⟨i, hi, by omega⟩
    · exact .inr ⟨i, hi, by omega⟩
  · rintro (h | h)
    · have := h.parent
      rwa [Nat.mul_div_cancel_left p (by decide)] at this
    · have := h.parent
      rwa [show (2 * p + 1) / 2 = p by omega] at this

end

/-! ### Partial trees -/

variable (compress)

/-- The nodes above the proven leaves are computed, the others are given. -/
def partialNode (indices : List ℕ) (leaf : ℕ → α) (side : ℕ → ℕ → α) : ℕ → ℕ → α
  | 0, p => if Covers indices 0 p then leaf p else side 0 p
  | l + 1, p =>
    if Covers indices (l + 1) p then
      compress (partialNode indices leaf side l (2 * p)) (partialNode indices leaf side l (2 * p + 1))
    else side (l + 1) p

variable {compress} {indices : List ℕ} {leaf : ℕ → α} {side : ℕ → ℕ → α} {l p : ℕ}

lemma partialNode_leaf (h : p ∈ indices) : partialNode compress indices leaf side 0 p = leaf p :=
  if_pos (covers_zero.mpr h)

lemma partialNode_of_covers (h : Covers indices (l + 1) p) :
    partialNode compress indices leaf side (l + 1) p =
      compress (partialNode compress indices leaf side l (2 * p)) (partialNode compress indices leaf side l (2 * p + 1)) :=
  if_pos h

lemma partialNode_of_not_covers (h : ¬Covers indices l p) : partialNode compress indices leaf side l p = side l p := by
  cases l with
  | zero => exact if_neg h
  | succ l => exact if_neg h

/-- A node of a part depends on the proven leaves below it. -/
theorem partialNode_congr {leaf' : ℕ → α} (h : ∀ i ∈ indices, i / 2 ^ l = p → leaf i = leaf' i) :
    partialNode compress indices leaf side l p = partialNode compress indices leaf' side l p := by
  induction l generalizing p with
  | zero =>
    by_cases hp : p ∈ indices
    · rw [partialNode_leaf hp, partialNode_leaf hp, h p hp (by simp)]
    · have hcovers : ¬Covers indices 0 p := fun hcovers => hp (covers_zero.mp hcovers)
      rw [partialNode_of_not_covers hcovers, partialNode_of_not_covers hcovers]
  | succ l ih =>
    by_cases hp : Covers indices (l + 1) p
    · have hchild : ∀ q, q / 2 = p → partialNode compress indices leaf side l q =
          partialNode compress indices leaf' side l q := by
        intro q hq
        refine ih fun i hi hpos => h i hi ?_
        rw [div_two_pow_succ, hpos, hq]
      rw [partialNode_of_covers hp, partialNode_of_covers hp, hchild (2 * p) (by omega), hchild (2 * p + 1) (by omega)]
    · rw [partialNode_of_not_covers hp, partialNode_of_not_covers hp]

/-- Whether a side node is used: its sibling is computed and it is not. -/
def IsFrontier (indices : List ℕ) (l p : ℕ) : Prop := Covers indices (l + 1) (p / 2) ∧ ¬Covers indices l p

/-- Side nodes of a tree make the part a part of the tree. -/
theorem partialNode_eq_merkleNode {tree : ℕ → α} (hleaf : ∀ i ∈ indices, leaf i = tree i)
    (hside : ∀ l p, IsFrontier indices l p → side l p = merkleNode compress tree l p) (l p : ℕ)
    (h : Covers indices (l + 1) (p / 2)) :
    partialNode compress indices leaf side l p = merkleNode compress tree l p := by
  induction l generalizing p with
  | zero =>
    by_cases hp : p ∈ indices
    · rw [partialNode_leaf hp]
      exact hleaf p hp
    · have hcovers : ¬Covers indices 0 p := fun hcovers => hp (covers_zero.mp hcovers)
      rw [partialNode_of_not_covers hcovers]
      exact hside 0 p ⟨h, hcovers⟩
  | succ l ih =>
    by_cases hp : Covers indices (l + 1) p
    · rw [partialNode_of_covers hp, merkleNode, ih (2 * p) (by rwa [Nat.mul_div_cancel_left p (by decide)]),
        ih (2 * p + 1) (by rwa [show (2 * p + 1) / 2 = p by omega])]
    · rw [partialNode_of_not_covers hp]
      exact hside (l + 1) p ⟨h, hp⟩

/-- **Binding.**  Without collisions a part with the root of a tree is a part of the tree. -/
theorem eq_merkleNode_of_root (hfree : CollisionFree compress) {tree : ℕ → α} {depth : ℕ}
    (hrange : ∀ i ∈ indices, i < 2 ^ depth)
    (hroot : partialNode compress indices leaf side depth 0 = merkleNode compress tree depth 0) {n : ℕ} :
    ∀ {l p : ℕ}, l + 1 + n = depth → Covers indices (l + 1) (p / 2) →
      partialNode compress indices leaf side l p = merkleNode compress tree l p := by
  -- downwards from the root; `n` counts the levels above the parent
  induction n with
  | zero =>
    intro l p hl hcovers
    have hparent : p / 2 = 0 := by
      obtain ⟨i, hi, hpos⟩ := hcovers
      rw [← hpos, show l + 1 = depth by omega]
      exact Nat.div_eq_of_lt (hrange i hi)
    rw [hparent] at hcovers
    rw [show depth = l + 1 by omega, partialNode_of_covers hcovers, merkleNode] at hroot
    obtain ⟨hleft, hright⟩ := hfree _ _ _ _ hroot
    rcases (by omega : p = 2 * 0 ∨ p = 2 * 0 + 1) with rfl | rfl
    · exact hleft
    · exact hright
  | succ n ih =>
    intro l p hl hcovers
    have hparent := ih (l := l + 1) (p := p / 2) (by omega) hcovers.parent
    rw [partialNode_of_covers hcovers, merkleNode] at hparent
    obtain ⟨hleft, hright⟩ := hfree _ _ _ _ hparent
    rcases (by omega : p = 2 * (p / 2) ∨ p = 2 * (p / 2) + 1) with heven | hodd
    · rwa [← heven] at hleft
    · rwa [← hodd] at hright

/-! ### Paths -/

variable (compress)

/-- Hash a leaf with the siblings of its path; the direction says that the node is a right child. -/
def foldPath (leaf : α) (path : List (α × Bool)) : α :=
  path.foldl (fun current step => if step.2 then compress step.1 current else compress current step.1) leaf

/-- The siblings on the way from a leaf up a number of levels. -/
def pathOf (node : ℕ → ℕ → α) (i : ℕ) (levels : List ℕ) : List (α × Bool) :=
  levels.map fun l => (node l (i / 2 ^ l ^^^ 1), decide (i / 2 ^ l % 2 = 1))

variable {compress}

lemma xor_one_eq (p : ℕ) : p ^^^ 1 = if p % 2 = 1 then 2 * (p / 2) else 2 * (p / 2) + 1 := by
  split_ifs with h
  · rw [Nat.xor_one_of_odd (Nat.odd_iff.mpr h)]
    omega
  · rw [Nat.xor_one_of_even (Nat.even_iff.mpr (by omega))]
    omega

lemma foldPath_step {node : ℕ → ℕ → α} {i l : ℕ} (h : node (l + 1) (i / 2 ^ (l + 1)) =
      compress (node l (2 * (i / 2 ^ (l + 1)))) (node l (2 * (i / 2 ^ (l + 1)) + 1))) :
    foldPath compress (node l (i / 2 ^ l)) (pathOf node i [l]) = node (l + 1) (i / 2 ^ (l + 1)) := by
  rw [h, div_two_pow_succ]
  change (if decide (i / 2 ^ l % 2 = 1) = true then compress (node l (i / 2 ^ l ^^^ 1)) (node l (i / 2 ^ l))
    else compress (node l (i / 2 ^ l)) (node l (i / 2 ^ l ^^^ 1))) = _
  rw [xor_one_eq]
  generalize hp : i / 2 ^ l = p
  by_cases hodd : p % 2 = 1
  · rw [if_pos (decide_eq_true hodd), if_pos hodd]
    exact congrArg _ (congrArg _ (by omega))
  · rw [if_neg (by simpa using hodd), if_neg hodd]
    exact congrArg (fun q => compress (node l q) _) (by omega)

/-- The path of a leaf leads to the nodes above it. -/
theorem foldPath_eq {node : ℕ → ℕ → α} {i first : ℕ} {n : ℕ}
    (h : ∀ l, first ≤ l → l < first + n → node (l + 1) (i / 2 ^ (l + 1)) =
      compress (node l (2 * (i / 2 ^ (l + 1)))) (node l (2 * (i / 2 ^ (l + 1)) + 1))) :
    foldPath compress (node first (i / 2 ^ first)) (pathOf node i (List.range' first n)) =
      node (first + n) (i / 2 ^ (first + n)) := by
  induction n with
  | zero => rfl
  | succ n ih =>
    have hinit := ih fun l hl hn => h l hl (by omega)
    have hlast := foldPath_step (h (first + n) (by omega) (by omega))
    rw [List.range'_1_concat, pathOf, List.map_append, foldPath, List.foldl_append]
    change foldPath compress (foldPath compress _ (pathOf node i (List.range' first n))) (pathOf node i [first + n]) = _
    rw [hinit]
    exact hlast

/-- In a part, the path of a proven leaf leads to the nodes above it. -/
theorem foldPath_partialNode {i : ℕ} (hi : i ∈ indices) (first n : ℕ) :
    foldPath compress (partialNode compress indices leaf side first (i / 2 ^ first))
      (pathOf (partialNode compress indices leaf side) i (List.range' first n)) =
        partialNode compress indices leaf side (first + n) (i / 2 ^ (first + n)) :=
  foldPath_eq fun _ _ _ => partialNode_of_covers ⟨i, hi, rfl⟩

lemma foldPath_leaf {i : ℕ} (hi : i ∈ indices) (n : ℕ) :
    foldPath compress (leaf i) (pathOf (partialNode compress indices leaf side) i (List.range' 0 n)) =
      partialNode compress indices leaf side n (i / 2 ^ n) := by
  have hfold : foldPath compress (partialNode compress indices leaf side 0 (i / 2 ^ 0))
      (pathOf (partialNode compress indices leaf side) i (List.range' 0 n)) = _ := foldPath_partialNode hi 0 n
  rw [pow_zero, Nat.div_one, partialNode_leaf hi, Nat.zero_add] at hfold
  exact hfold

/-- The siblings of a path do not change when only leaves below the path change. -/
theorem pathOf_congr {leaf' : ℕ → α} {i : ℕ} {levels : List ℕ}
    (h : ∀ j, leaf' j ≠ leaf j → ∀ l ∈ levels, j / 2 ^ l = i / 2 ^ l) :
    pathOf (partialNode compress indices leaf' side) i levels = pathOf (partialNode compress indices leaf side) i levels := by
  refine List.map_congr_left fun l hl => Prod.ext (partialNode_congr fun j _ hj => ?_) rfl
  by_contra hne
  have hpos := h j hne l hl
  rw [hj, xor_one_eq] at hpos
  split_ifs at hpos <;> omega

end Noid.Lib
