import Mathlib.Algebra.Order.BigOperators.Group.Finset
import Mathlib.Algebra.BigOperators.Intervals
import Mathlib.Tactic.Linarith

/-! # Deferred shares

Every block withholds a share, and some blocks pay out `count h` withheld shares at the share of their own block.  What
may still be paid is a number of most recent shares; a payout is covered when no unpaid share is smaller. -/

namespace Noid.Lib

/-- Shares, payouts and what remains to be paid, block by block. -/
structure Accrual (share count unpaid : ℕ → ℕ) : Prop where
  start : unpaid 0 = 0
  step : ∀ h, unpaid (h + 1) + count (h + 1) ≤ unpaid h + 1
  covered : ∀ h, 0 < count (h + 1) → ∀ i ≤ unpaid h, share (h + 1) ≤ share (h + 1 - i)

namespace Accrual

variable {share count unpaid : ℕ → ℕ}

/-- The last shares of a chain. -/
def recent (share : ℕ → ℕ) (h n : ℕ) : ℕ := ∑ i ∈ Finset.range n, share (h - i)

lemma recent_succ (h n : ℕ) : recent share (h + 1) (n + 1) = share (h + 1) + recent share h n := by
  unfold recent
  rw [Finset.sum_range_succ', Nat.sub_zero, Nat.add_comm]
  refine congrArg _ (Finset.sum_congr rfl fun i _ => ?_)
  rw [Nat.add_sub_add_right]

/-- Of some recent shares the older ones pay for a number of shares that is not larger. -/
theorem recent_add_le {h m n value : ℕ} (hvalue : ∀ i < m + n, value ≤ share (h - i)) :
    recent share h m + n * value ≤ recent share h (m + n) := by
  unfold recent
  rw [Finset.sum_range_add, Nat.add_le_add_iff_left]
  calc n * value = ∑ _i ∈ Finset.range n, value := by simp
    _ ≤ ∑ i ∈ Finset.range n, share (h - (m + i)) := by
        refine Finset.sum_le_sum fun i hi => hvalue _ ?_
        have hi := Finset.mem_range.mp hi
        omega

lemma recent_mono {h m n : ℕ} (hle : m ≤ n) : recent share h m ≤ recent share h n :=
  Finset.sum_le_sum_of_subset (Finset.range_mono hle)

lemma paid_add_recent_le (a : Accrual share count unpaid) (h : ℕ) :
    ∑ i ∈ Finset.Icc 1 h, count i * share i + recent share h (unpaid h) ≤ ∑ i ∈ Finset.Icc 1 h, share i := by
  induction h with
  | zero => simp [a.start, recent]
  | succ h ih =>
    rw [Finset.sum_Icc_succ_top (Nat.le_add_left 1 h), Finset.sum_Icc_succ_top (Nat.le_add_left 1 h)]
    have hstep := a.step h
    have hpaid : recent share (h + 1) (unpaid (h + 1)) + count (h + 1) * share (h + 1) ≤
        share (h + 1) + recent share h (unpaid h) := by
      rw [← recent_succ]
      rcases Nat.eq_zero_or_pos (count (h + 1)) with hzero | hpos
      · rw [hzero, Nat.zero_mul, Nat.add_zero]
        exact recent_mono (by omega)
      · exact (recent_add_le fun i hi => a.covered h hpos i (by omega)).trans (recent_mono hstep)
    omega

/-- **No more is paid than was withheld.** -/
theorem paid_le (a : Accrual share count unpaid) (h : ℕ) :
    ∑ i ∈ Finset.Icc 1 h, count i * share i ≤ ∑ i ∈ Finset.Icc 1 h, share i :=
  (Nat.le_add_right _ _).trans (a.paid_add_recent_le h)

end Accrual

end Noid.Lib
