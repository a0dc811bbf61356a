import Mathlib.Data.Finset.Max
import Noid.Lib.Checked

/-! # Trees of parent pointers

A tree is given by its root and, for every other member, the parent one level below.  At every height from the root on a
member has exactly one ancestor, and the ways up from two members meet at the highest common one. -/

namespace Noid.Lib

/-- A root, and parents with heights that decrease by one. -/
structure ParentTree (P : Type) where
  root : P
  Mem : P → Prop
  parent : P → P
  height : P → ℕ
  root_mem : Mem root
  parent_mem : ∀ x, Mem x → x ≠ root → Mem (parent x)
  height_parent : ∀ x, Mem x → x ≠ root → height x = height (parent x) + 1

namespace ParentTree

variable {P : Type} (T : ParentTree P) {a b x y : P} {n : ℕ}

/-- The ancestor a number of levels up. -/
def up (n : ℕ) (x : P) : P := T.parent^[n] x

/-- `a` lies on the way from `x` to the root. -/
def Anc (a x : P) : Prop := ∃ n, n + T.height T.root ≤ T.height x ∧ T.up n x = a

@[simp] lemma up_zero : T.up 0 x = x := rfl

lemma up_succ : T.up (n + 1) x = T.up n (T.parent x) := Function.iterate_succ_apply _ _ _

lemma up_succ' : T.up (n + 1) x = T.parent (T.up n x) := Function.iterate_succ_apply' _ _ _

lemma up_add (m n : ℕ) : T.up (m + n) x = T.up m (T.up n x) := Function.iterate_add_apply _ _ _ _

variable {T}

lemma height_root_le (hx : T.Mem x) : T.height T.root ≤ T.height x := by
  induction h : T.height x using Nat.strong_induction_on generalizing x with
  | _ k ih =>
    by_cases hroot : x = T.root
    · rw [← h, hroot]
    · have hparent := T.height_parent x hx hroot
      have := ih (T.height (T.parent x)) (by omega) (T.parent_mem x hx hroot) rfl
      omega

lemma eq_root (hx : T.Mem x) (h : T.height x ≤ T.height T.root) : x = T.root := by
  by_contra hroot
  have hparent := T.height_parent x hx hroot
  have := height_root_le (T.parent_mem x hx hroot)
  omega

lemma ne_root (h : T.height T.root < T.height x) : x ≠ T.root := by
  rintro rfl
  exact lt_irrefl _ h

lemma up_mem (hx : T.Mem x) (hn : n + T.height T.root ≤ T.height x) :
    T.Mem (T.up n x) ∧ T.height (T.up n x) + n = T.height x := by
  induction n with
  | zero => exact ⟨hx, rfl⟩
  | succ n ih =>
    obtain ⟨hmem, hheight⟩ := ih (by omega)
    have hroot : T.up n x ≠ T.root := ne_root (by omega)
    have hparent := T.height_parent _ hmem hroot
    rw [up_succ']
    exact ⟨T.parent_mem _ hmem hroot, by omega⟩

lemma Anc.mem (h : T.Anc a x) (hx : T.Mem x) : T.Mem a := by
  obtain ⟨n, hn, rfl⟩ := h
  exact (up_mem hx hn).1

lemma Anc.height_le (h : T.Anc a x) (hx : T.Mem x) : T.height a ≤ T.height x := by
  obtain ⟨n, hn, rfl⟩ := h
  have := (up_mem hx hn).2
  omega

lemma Anc.refl (hx : T.Mem x) : T.Anc x x := ⟨0, by have := height_root_le hx; omega, rfl⟩

lemma Anc.trans (h1 : T.Anc a b) (h2 : T.Anc b x) (hx : T.Mem x) : T.Anc a x := by
  obtain ⟨m, hm, rfl⟩ := h1
  obtain ⟨n, hn, rfl⟩ := h2
  have := (up_mem hx hn).2
  exact ⟨m + n, by omega, T.up_add m n⟩

lemma anc_parent (hx : T.Mem x) (hroot : x ≠ T.root) : T.Anc (T.parent x) x := by
  have hparent := T.height_parent x hx hroot
  have := height_root_le (T.parent_mem x hx hroot)
  exact ⟨1, by omega, rfl⟩

lemma anc_root (hx : T.Mem x) : T.Anc T.root x := by
  have hle := height_root_le hx
  refine ⟨T.height x - T.height T.root, by omega, ?_⟩
  obtain ⟨hmem, hheight⟩ := up_mem hx (n := T.height x - T.height T.root) (by omega)
  exact eq_root hmem (by omega)

lemma Anc.eq_up (h : T.Anc a x) (hx : T.Mem x) : a = T.up (T.height x - T.height a) x := by
  obtain ⟨n, hn, rfl⟩ := h
  have := (up_mem hx hn).2
  rw [show T.height x - T.height (T.up n x) = n by omega]

lemma Anc.eq_of_height (ha : T.Anc a x) (hb : T.Anc b x) (hx : T.Mem x) (h : T.height a = T.height b) : a = b := by
  rw [ha.eq_up hx, hb.eq_up hx, h]

/-- Of two ancestors the lower one is an ancestor of the other. -/
theorem Anc.of_le (ha : T.Anc a x) (hb : T.Anc b x) (hx : T.Mem x) (h : T.height a ≤ T.height b) : T.Anc a b := by
  have hb' := hb.height_le hx
  have hroot := height_root_le (ha.mem hx)
  refine ⟨T.height b - T.height a, by omega, ?_⟩
  nth_rewrite 2 [hb.eq_up hx]
  rw [← up_add, show T.height b - T.height a + (T.height x - T.height b) = T.height x - T.height a by omega]
  exact (ha.eq_up hx).symm

lemma Anc.of_ne (h : T.Anc a x) (hx : T.Mem x) (hne : a ≠ x) : x ≠ T.root ∧ T.Anc a (T.parent x) := by
  have hroot : x ≠ T.root := by
    rintro rfl
    exact hne (eq_root (h.mem hx) (h.height_le hx))
  obtain ⟨n, hn, rfl⟩ := h
  refine ⟨hroot, ?_⟩
  cases n with
  | zero => exact absurd rfl hne
  | succ n =>
    have hparent := T.height_parent x hx hroot
    exact ⟨n, by omega, (T.up_succ).symm⟩

/-- Members of one height have a common ancestor some levels up, and none before. -/
theorem exists_meet (hx : T.Mem x) (hy : T.Mem y) (h : T.height x = T.height y) :
    ∃ n, n + T.height T.root ≤ T.height x ∧ T.up n x = T.up n y ∧ ∀ m < n, T.up m x ≠ T.up m y := by
  classical
  have hroot : T.up (T.height x - T.height T.root) x = T.up (T.height x - T.height T.root) y := by
    have hxr := (anc_root hx).eq_up hx
    have hyr := (anc_root hy).eq_up hy
    rw [← hxr, h, ← hyr]
  have hex : ∃ n, T.up n x = T.up n y := ⟨_, hroot⟩
  have hle := height_root_le hx
  have hfind := Nat.find_min' hex hroot
  exact ⟨Nat.find hex, by omega, Nat.find_spec hex, fun m hm => Nat.find_min hex hm⟩

lemma exists_common (hx : T.Mem x) (hy : T.Mem y) {left right : P} (hleft : left = T.up (T.height x - T.height y) x)
    (hright : right = T.up (T.height y - T.height left) y) :
    T.Mem left ∧ T.Mem right ∧ T.height left = T.height right ∧
      ∃ n, n + T.height T.root ≤ T.height left ∧ T.up n left = T.up n right ∧ (∀ m < n, T.up m left ≠ T.up m right) ∧
        T.Anc (T.up n left) x ∧ T.Anc (T.up n left) y ∧ ∀ b, T.Anc b x → T.Anc b y → T.Anc b (T.up n left) := by
  have hrx := height_root_le hx
  have hry := height_root_le hy
  have hla : T.Anc left x := ⟨_, by omega, hleft.symm⟩
  have hlm := hla.mem hx
  have hlh : T.height left + (T.height x - T.height y) = T.height x := by
    rw [hleft]
    exact (up_mem hx (by omega)).2
  have hra : T.Anc right y := ⟨_, by have := height_root_le hlm; omega, hright.symm⟩
  have hrm := hra.mem hy
  have hrh : T.height right + (T.height y - T.height left) = T.height y := by
    rw [hright]
    exact (up_mem hy (by have := height_root_le hlm; omega)).2
  have hheight : T.height left = T.height right := by omega
  obtain ⟨n, hn, hmeet, hbefore⟩ := exists_meet hlm hrm hheight
  have hal : T.Anc (T.up n left) left := ⟨n, hn, rfl⟩
  have har : T.Anc (T.up n left) right := ⟨n, hheight ▸ hn, hmeet.symm⟩
  refine ⟨hlm, hrm, hheight, n, hn, hmeet, hbefore, hal.trans hla hx, har.trans hra hy, fun b hbx hby => ?_⟩
  -- a common ancestor lies on both ways, and above the meeting point the ways are apart
  have hbxh := hbx.height_le hx
  have hbyh := hby.height_le hy
  have hbl : T.Anc b left := hbx.of_le hla hx (by omega)
  have hbr : T.Anc b right := hby.of_le hra hy (by omega)
  refine hbl.of_le hal hlm (not_lt.mp fun hlt => ?_)
  have hup := (up_mem hlm hn).2
  refine hbefore (T.height left - T.height b) (by omega) ?_
  rw [← hbl.eq_up hlm, hheight, ← hbr.eq_up hrm]

/-- A highest member of a part that is closed under children has no children. -/
theorem exists_leaf (S : Finset P) (Q : P → Prop) (hS : ∀ x ∈ S, T.Mem x) (hQ : ∃ x ∈ S, Q x)
    (hclosed : ∀ y ∈ S, y ≠ T.root → Q (T.parent y) → Q y) :
    ∃ x ∈ S, Q x ∧ ∀ y ∈ S, y ≠ T.root → T.parent y ≠ x := by
  classical
  obtain ⟨x0, hx0, hQx0⟩ := hQ
  obtain ⟨x, hx, hmax⟩ := Finset.exists_max_image (S.filter Q) T.height ⟨x0, Finset.mem_filter.mpr ⟨hx0, hQx0⟩⟩
  obtain ⟨hxS, hQx⟩ := Finset.mem_filter.mp hx
  refine ⟨x, hxS, hQx, fun y hy hroot hparent => ?_⟩
  have hheight := T.height_parent y (hS y hy) hroot
  have hle := hmax y (Finset.mem_filter.mpr ⟨hy, hclosed y hy hroot (hparent ▸ hQx)⟩)
  rw [hparent] at hheight
  omega

end ParentTree

/-! ### Loops -/

section
variable {P ε : Type}

/-- `while more(x) { x = parent(x)? }`, for at most `fuel` rounds. -/
def climb (parent : P → Except ε P) (more : P → Bool) (stuck : ε) : ℕ → P → Except ε P
  | 0, x => if more x then .error stuck else .ok x
  | fuel + 1, x => if more x then parent x >>= climb parent more stuck fuel else .ok x

variable {T : ParentTree P} {parent : P → Except ε P} {more : P → Bool} {stuck : ε} {x : P}

/-- A loop that goes on for `n` rounds. -/
theorem climb_ok (hparent : ∀ x, T.Mem x → x ≠ T.root → parent x = .ok (T.parent x)) {n fuel : ℕ} (hfuel : n ≤ fuel)
    (hx : T.Mem x) (hn : n + T.height T.root ≤ T.height x) (hmore : ∀ m < n, more (T.up m x) = true)
    (hstop : more (T.up n x) = false) : climb parent more stuck fuel x = .ok (T.up n x) := by
  induction n generalizing x fuel with
  | zero =>
    rw [T.up_zero] at hstop
    cases fuel <;> rw [climb, hstop] <;> rfl
  | succ n ih =>
    obtain ⟨fuel, rfl⟩ := Nat.exists_eq_add_of_lt hfuel
    have hroot : x ≠ T.root := ParentTree.ne_root (by omega)
    have hheight := T.height_parent x hx hroot
    have hfirst : more x = true := hmore 0 (Nat.succ_pos n)
    rw [show n + fuel + 1 = (n + fuel) + 1 by omega, climb, hfirst, if_pos rfl, bind_of_ok (hparent x hx hroot), T.up_succ]
    refine ih (by omega) (T.parent_mem x hx hroot) (by omega) (fun m hm => ?_) ?_
    · rw [← T.up_succ]
      exact hmore (m + 1) (by omega)
    · rw [← T.up_succ]
      exact hstop

lemma climb_height (hparent : ∀ x, T.Mem x → x ≠ T.root → parent x = .ok (T.parent x)) {h fuel : ℕ} (hx : T.Mem x)
    (hroot : T.height T.root ≤ h) (hfuel : T.height x ≤ fuel) :
    climb parent (fun y => decide (h < T.height y)) stuck fuel x = .ok (T.up (T.height x - h) x) := by
  refine climb_ok hparent (by omega) hx ?_ ?_ ?_
  · have := ParentTree.height_root_le hx
    omega
  · intro m hm
    have := (ParentTree.up_mem hx (n := m) (by omega)).2
    exact decide_eq_true (by omega)
  · have := (ParentTree.up_mem hx (n := T.height x - h) (by have := ParentTree.height_root_le hx; omega)).2
    exact decide_eq_false (by omega)

/-- Whatever a loop returns, it is an ancestor. -/
theorem anc_of_climb (hparent : ∀ x y, T.Mem x → parent x = .ok y → x ≠ T.root ∧ y = T.parent x) {fuel : ℕ} {y : P}
    (hx : T.Mem x) (h : climb parent more stuck fuel x = .ok y) : T.Anc y x := by
  induction fuel generalizing x with
  | zero =>
    rw [climb] at h
    split_ifs at h
    cases h
    exact ParentTree.Anc.refl hx
  | succ fuel ih =>
    rw [climb] at h
    split_ifs at h
    · obtain ⟨z, hz, hrest⟩ := bind_eq_ok.mp h
      obtain ⟨hroot, rfl⟩ := hparent x z hx hz
      exact (ih (T.parent_mem x hx hroot) hrest).trans (ParentTree.anc_parent hx hroot) hx
    · cases h
      exact ParentTree.Anc.refl hx

end

end Noid.Lib
