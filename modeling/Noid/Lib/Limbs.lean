import Mathlib.Data.Nat.Digits.Lemmas

/-! # Numbers in limbs

A number is a list of limbs of `w` bits, the least significant first, with the value `Nat.ofDigits (2 ^ w)`.  The loops
compute the product with a factor, the shift to the left by less than a limb and the shift to the right. -/

namespace Noid.Lib

structure IsLimbs (w n : ℕ) (l : List ℕ) : Prop where
  length : l.length = n
  lt : ∀ x ∈ l, x < 2 ^ w

/-- The product with a factor: each limb passes a carry up. -/
def mulLimbs (w factor : ℕ) : ℕ → List ℕ → List ℕ
  | carry, [] => [carry % 2 ^ w]
  | carry, x :: l => (x * factor + carry) % 2 ^ w :: mulLimbs w factor ((x * factor + carry) / 2 ^ w) l

/-- The shift to the left: each limb passes its top bits up. -/
def shlLimbs (w s : ℕ) : ℕ → List ℕ → List ℕ
  | _, [] => []
  | c, x :: l => (x <<< s % 2 ^ w ||| c) :: shlLimbs w s (x >>> (w - s)) l

/-- The shift to the right: each limb passes its low bits down. -/
def shrLimbs (w s : ℕ) : List ℕ → List ℕ × ℕ
  | [] => ([], 0)
  | x :: l => ((x >>> s ||| (shrLimbs w s l).2) :: (shrLimbs w s l).1, x <<< (w - s) % 2 ^ w)

section
variable {w s factor n x : ℕ} {l : List ℕ}

lemma isLimbs_cons : IsLimbs w (n + 1) (x :: l) ↔ x < 2 ^ w ∧ IsLimbs w n l := by
  constructor
  · rintro ⟨hlen, hlt⟩
    exact ⟨hlt x List.mem_cons_self, Nat.succ.inj hlen, fun y hy => hlt y (.tail _ hy)⟩
  · rintro ⟨hx, hlen, hlt⟩
    exact ⟨congrArg Nat.succ hlen, List.forall_mem_cons.mpr ⟨hx, hlt⟩⟩

/-- **The product loop** computes the product. -/
theorem mulLimbs_ok (hf : factor < 2 ^ w) {carry : ℕ} (hc : carry < 2 ^ w) (h : IsLimbs w n l) :
    IsLimbs w (n + 1) (mulLimbs w factor carry l) ∧
      Nat.ofDigits (2 ^ w) (mulLimbs w factor carry l) = Nat.ofDigits (2 ^ w) l * factor + carry := by
  induction l generalizing n carry with
  | nil =>
    obtain rfl : 0 = n := h.length
    refine ⟨⟨rfl, fun x hx => ?_⟩, by simp [mulLimbs, Nat.mod_eq_of_lt hc]⟩
    rw [List.mem_singleton.mp hx]
    exact Nat.mod_lt _ (Nat.two_pow_pos w)
  | cons x l ih =>
    obtain ⟨n, rfl⟩ : ∃ k, n = k + 1 := ⟨l.length, h.length.symm⟩
    obtain ⟨hx, hl⟩ := isLimbs_cons.mp h
    have hcarry : (x * factor + carry) / 2 ^ w < 2 ^ w := Nat.div_lt_of_lt_mul (by nlinarith)
    obtain ⟨hlimbs, hvalue⟩ := ih hcarry hl
    refine ⟨isLimbs_cons.mpr ⟨Nat.mod_lt _ (Nat.two_pow_pos w), hlimbs⟩, ?_⟩
    have hdiv := Nat.mod_add_div (x * factor + carry) (2 ^ w)
    rw [mulLimbs, Nat.ofDigits_cons, Nat.ofDigits_cons, hvalue]
    linarith

/-- **The loop to the left** computes the shift if it fits. -/
theorem shlLimbs_ok (hs : s ≤ w) {c : ℕ} (hc : c < 2 ^ s) (h : IsLimbs w n l)
    (hfit : Nat.ofDigits (2 ^ w) l * 2 ^ s + c < (2 ^ w) ^ n) :
    IsLimbs w n (shlLimbs w s c l) ∧
      Nat.ofDigits (2 ^ w) (shlLimbs w s c l) = Nat.ofDigits (2 ^ w) l * 2 ^ s + c := by
  induction l generalizing n c with
  | nil =>
    obtain rfl : 0 = n := h.length
    obtain rfl : c = 0 := by simpa using hfit
    exact ⟨h, by simp [shlLimbs]⟩
  | cons x l ih =>
    obtain ⟨n, rfl⟩ : ∃ k, n = k + 1 := ⟨l.length, h.length.symm⟩
    obtain ⟨hx, hl⟩ := isLimbs_cons.mp h
    have hpow : 2 ^ w = 2 ^ s * 2 ^ (w - s) := by rw [← Nat.pow_add, Nat.add_sub_cancel' hs]
    have hup : x >>> (w - s) < 2 ^ s := by
      rw [Nat.shiftRight_eq_div_pow]
      exact Nat.div_lt_of_lt_mul (by rwa [Nat.mul_comm, ← hpow])
    have hlimb : x <<< s % 2 ^ w ||| c = 2 ^ s * (x % 2 ^ (w - s)) + c := by
      rw [Nat.shiftLeft_eq, Nat.mul_comm, hpow, Nat.mul_mod_mul_left, Nat.two_pow_add_eq_or_of_lt hc]
    have hsplit := Nat.mod_add_div x (2 ^ (w - s))
    rw [← Nat.shiftRight_eq_div_pow] at hsplit
    have hsum : (x + 2 ^ w * Nat.ofDigits (2 ^ w) l) * 2 ^ s + c = 2 ^ s * (x % 2 ^ (w - s)) + c +
        2 ^ w * (Nat.ofDigits (2 ^ w) l * 2 ^ s + x >>> (w - s)) := by
      nth_rewrite 1 [← hsplit]
      rw [hpow]
      ring
    rw [Nat.ofDigits_cons] at hfit ⊢
    rw [hsum] at hfit
    obtain ⟨hlimbs, hvalue⟩ := ih hup hl (Nat.lt_of_mul_lt_mul_left (a := 2 ^ w) (by rw [Nat.pow_succ'] at hfit; omega))
    have hmod := Nat.mod_lt x (Nat.two_pow_pos (w - s))
    refine ⟨isLimbs_cons.mpr ⟨?_, hlimbs⟩, ?_⟩
    · rw [hlimb, hpow]
      nlinarith
    · rw [shlLimbs, Nat.ofDigits_cons, hvalue, hlimb, hsum]

/-- **The loop to the right** computes the quotient. -/
theorem shrLimbs_ok (hs : s ≤ w) (h : IsLimbs w n l) : IsLimbs w n (shrLimbs w s l).1 ∧
    Nat.ofDigits (2 ^ w) (shrLimbs w s l).1 = Nat.ofDigits (2 ^ w) l / 2 ^ s ∧
      (shrLimbs w s l).2 = 2 ^ (w - s) * (Nat.ofDigits (2 ^ w) l % 2 ^ s) := by
  induction l generalizing n with
  | nil => exact ⟨h, by simp [shrLimbs], by simp [shrLimbs]⟩
  | cons x l ih =>
    obtain ⟨n, rfl⟩ : ∃ k, n = k + 1 := ⟨l.length, h.length.symm⟩
    obtain ⟨hx, hl⟩ := isLimbs_cons.mp h
    obtain ⟨hlimbs, hvalue, hdown⟩ := ih hl
    have hpow : 2 ^ w = 2 ^ s * 2 ^ (w - s) := by rw [← Nat.pow_add, Nat.add_sub_cancel' hs]
    have htop : x / 2 ^ s < 2 ^ (w - s) := Nat.div_lt_of_lt_mul (by rwa [← hpow])
    have hlimb : x >>> s ||| (shrLimbs w s l).2 = 2 ^ (w - s) * (Nat.ofDigits (2 ^ w) l % 2 ^ s) + x / 2 ^ s := by
      rw [hdown, Nat.shiftRight_eq_div_pow, Nat.or_comm, Nat.two_pow_add_eq_or_of_lt htop]
    simp only [shrLimbs, Nat.ofDigits_cons, hlimb, hvalue]
    generalize Nat.ofDigits (2 ^ w) l = value
    have hmod := Nat.mul_le_mul_left (2 ^ (w - s)) (Nat.succ_le_of_lt (Nat.mod_lt value (Nat.two_pow_pos s)))
    refine ⟨isLimbs_cons.mpr ⟨?_, hlimbs⟩, ?_, ?_⟩
    · rw [hpow]
      linarith
    · rw [hpow, Nat.mul_assoc, Nat.mul_assoc, Nat.add_mul_div_left _ _ (Nat.two_pow_pos s)]
      nth_rewrite 3 [← Nat.mod_add_div value (2 ^ s)]
      ring
    · rw [Nat.shiftLeft_eq, Nat.mul_comm x, hpow, Nat.mul_comm (2 ^ s), Nat.mul_mod_mul_left, Nat.mul_comm _ (2 ^ s),
        Nat.mul_assoc, Nat.add_mul_mod_self_left]

end

end Noid.Lib
