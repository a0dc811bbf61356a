import Mathlib.Data.Nat.Bitwise
import Mathlib.Data.Nat.Digits.Defs

/-! # Little-endian byte numbers

Numbers of a fixed width are lists of bytes, the least significant first, with the value `Nat.ofDigits 256`.  Every
operation works byte by byte with a carry, and its lemma says what it does to the values. -/

namespace Noid.Lib

open List

/-- A number of `n` bytes. -/
structure IsBytes (n : ℕ) (l : List ℕ) : Prop where
  length : l.length = n
  lt : ∀ b ∈ l, b < 256

def value (l : List ℕ) : ℕ := Nat.ofDigits 256 l

section
variable {a b : List ℕ} {x y n : ℕ}

@[simp] lemma value_nil : value [] = 0 := rfl

@[simp] lemma value_cons (x : ℕ) (l : List ℕ) : value (x :: l) = x + 256 * value l := Nat.ofDigits_cons

lemma value_append (a b : List ℕ) : value (a ++ b) = value a + 256 ^ a.length * value b := Nat.ofDigits_append

lemma isBytes_nil : IsBytes 0 [] := ⟨rfl, fun _ h => by cases h⟩

lemma isBytes_cons : IsBytes (n + 1) (x :: a) ↔ x < 256 ∧ IsBytes n a := by
  constructor
  · rintro ⟨hlen, hlt⟩
    obtain ⟨hx, hlt⟩ := forall_mem_cons.mp hlt
    exact ⟨hx, Nat.succ.inj hlen, hlt⟩
  · rintro ⟨hx, hlen, hlt⟩
    exact ⟨congrArg Nat.succ hlen, forall_mem_cons.mpr ⟨hx, hlt⟩⟩

/-- Induction over a number byte by byte. -/
theorem IsBytes.bytewise {motive : ∀ a n, IsBytes n a → Prop} (nil : motive [] 0 isBytes_nil)
    (cons : ∀ {n x a} (hx : x < 256) (ha : IsBytes n a), motive a n ha → motive (x :: a) (n + 1) (isBytes_cons.mpr ⟨hx, ha⟩))
    (ha : IsBytes n a) : motive a n ha := by
  obtain ⟨rfl, hlt⟩ := ha
  induction a with
  | nil => exact nil
  | cons x a ih =>
    obtain ⟨hx, ha⟩ := forall_mem_cons.mp hlt
    exact cons hx ⟨rfl, ha⟩ (ih ha)

/-- Induction over two numbers of the same width. -/
theorem IsBytes.bytewise₂ {motive : ∀ a b n, IsBytes n a → IsBytes n b → Prop} (nil : motive [] [] 0 isBytes_nil isBytes_nil)
    (cons : ∀ {n x y a b} (hx : x < 256) (hy : y < 256) (ha : IsBytes n a) (hb : IsBytes n b), motive a b n ha hb →
      motive (x :: a) (y :: b) (n + 1) (isBytes_cons.mpr ⟨hx, ha⟩) (isBytes_cons.mpr ⟨hy, hb⟩))
    (ha : IsBytes n a) (hb : IsBytes n b) : motive a b n ha hb := by
  induction ha using IsBytes.bytewise generalizing b with
  | nil =>
    obtain rfl := eq_nil_of_length_eq_zero hb.length
    exact nil
  | cons hx ha ih =>
    obtain ⟨y, b, rfl⟩ := exists_cons_of_length_eq_add_one hb.length
    obtain ⟨hy, hb⟩ := isBytes_cons.mp hb
    exact cons hx hy ha hb (ih hb)

lemma IsBytes.value_lt (h : IsBytes n a) : value a < 256 ^ n := by
  rw [← h.length]
  exact Nat.ofDigits_lt_base_pow_length (by decide) h.lt

lemma IsBytes.ext (ha : IsBytes n a) (hb : IsBytes n b) (h : value a = value b) : a = b := by
  induction ha, hb using IsBytes.bytewise₂ with
  | nil => rfl
  | cons hx hy _ _ ih =>
    rw [value_cons, value_cons] at h
    rw [cons.injEq]
    exact ⟨by omega, ih (by omega)⟩

/-! ### Comparison -/

/-- Compare from the most significant byte, which comes first. -/
def ltFromTop : List ℕ → List ℕ → Bool
  | x :: a, y :: b => if x < y then true else if y < x then false else ltFromTop a b
  | _, _ => false

lemma ltFromTop_iff (ha : IsBytes n a) (hb : IsBytes n b) :
    ltFromTop a b = true ↔ value a.reverse < value b.reverse := by
  induction ha, hb using IsBytes.bytewise₂ with
  | nil => simp [ltFromTop]
  | @cons n x y a b hx hy ha hb ih =>
    have hra : value a.reverse < 256 ^ n :=
      IsBytes.value_lt ⟨by rw [length_reverse, ha.length], fun b hb => ha.lt b (mem_reverse.mp hb)⟩
    have hrb : value b.reverse < 256 ^ n :=
      IsBytes.value_lt ⟨by rw [length_reverse, hb.length], fun c hc => hb.lt c (mem_reverse.mp hc)⟩
    rw [reverse_cons, reverse_cons, value_append, value_append, length_reverse, length_reverse,
      ha.length, hb.length, ltFromTop]
    simp only [value_cons, value_nil, Nat.mul_zero, Nat.add_zero]
    rcases lt_trichotomy x y with hlt | heq | hgt
    · have hstep : 256 ^ n * (x + 1) ≤ 256 ^ n * y := Nat.mul_le_mul_left _ hlt
      rw [if_pos hlt]
      refine iff_of_true rfl ?_
      linarith
    · rw [heq, if_neg (lt_irrefl y), if_neg (lt_irrefl y), ih]
      omega
    · have hstep : 256 ^ n * (y + 1) ≤ 256 ^ n * x := Nat.mul_le_mul_left _ hgt
      rw [if_neg (by omega), if_pos hgt]
      refine iff_of_false Bool.false_ne_true ?_
      linarith

/-! ### Sums and differences -/

/-- Add with a carry. -/
def addBytes : ℕ → List ℕ → List ℕ → List ℕ × ℕ
  | c, x :: a, y :: b =>
    let rest := addBytes ((x + y + c) / 256) a b
    (((x + y + c) % 256) :: rest.1, rest.2)
  | c, _, _ => ([], c)

lemma isBytes_addBytes (c : ℕ) (ha : IsBytes n a) (hb : IsBytes n b) : IsBytes n (addBytes c a b).1 := by
  induction ha, hb using IsBytes.bytewise₂ generalizing c with
  | nil => exact isBytes_nil
  | cons _ _ _ _ ih => exact isBytes_cons.mpr ⟨Nat.mod_lt _ (by decide), ih _⟩

lemma value_addBytes (c : ℕ) (ha : IsBytes n a) (hb : IsBytes n b) :
    value (addBytes c a b).1 + 256 ^ n * (addBytes c a b).2 = value a + value b + c := by
  induction ha, hb using IsBytes.bytewise₂ generalizing c with
  | nil => simp [addBytes]
  | @cons n x y a b _ _ _ _ ih =>
    have hrest := ih ((x + y + c) / 256)
    have hbyte := Nat.mod_add_div (x + y + c) 256
    rw [addBytes]
    simp only [value_cons, Nat.pow_succ]
    generalize (addBytes ((x + y + c) / 256) a b).1 = bytes at *
    generalize (addBytes ((x + y + c) / 256) a b).2 = carry at *
    linarith

/-- Subtract with a borrow. -/
def subBytes : ℕ → List ℕ → List ℕ → List ℕ × ℕ
  | c, x :: a, y :: b =>
    if x < y + c then
      let rest := subBytes 1 a b
      ((x + 256 - (y + c)) :: rest.1, rest.2)
    else
      let rest := subBytes 0 a b
      ((x - (y + c)) :: rest.1, rest.2)
  | c, _, _ => ([], c)

lemma isBytes_subBytes {c : ℕ} (hc : c ≤ 1) (ha : IsBytes n a) (hb : IsBytes n b) : IsBytes n (subBytes c a b).1 := by
  induction ha, hb using IsBytes.bytewise₂ generalizing c with
  | nil => exact isBytes_nil
  | cons hx hy _ _ ih =>
    rw [subBytes]
    split_ifs with hlt
    · exact isBytes_cons.mpr ⟨by omega, ih le_rfl⟩
    · exact isBytes_cons.mpr ⟨by omega, ih (Nat.zero_le 1)⟩

lemma value_subBytes {c : ℕ} (hc : c ≤ 1) (ha : IsBytes n a) (hb : IsBytes n b) :
    value (subBytes c a b).1 + value b + c = value a + 256 ^ n * (subBytes c a b).2 := by
  induction ha, hb using IsBytes.bytewise₂ generalizing c with
  | nil => simp [subBytes]
  | @cons n x y a b hx hy _ _ ih =>
    rw [subBytes]
    split_ifs with hlt
    · have hrest := ih le_rfl
      have hbyte : x + 256 - (y + c) + (y + c) = x + 256 := Nat.sub_add_cancel (by omega)
      simp only [value_cons, Nat.pow_succ]
      linarith
    · have hrest := ih (Nat.zero_le 1)
      have hbyte : x - (y + c) + (y + c) = x := Nat.sub_add_cancel (by omega)
      simp only [value_cons, Nat.pow_succ]
      linarith

/-- The difference of a number and one that is not greater. -/
theorem value_subBytes_of_le (ha : IsBytes n a) (hb : IsBytes n b) (h : value b ≤ value a) :
    value (subBytes 0 a b).1 = value a - value b := by
  have hsub := value_subBytes (Nat.zero_le 1) ha hb
  have hlt := (isBytes_subBytes (Nat.zero_le 1) ha hb).value_lt
  have hborrow : (subBytes 0 a b).2 = 0 := by
    by_contra hne
    have : 256 ^ n * 1 ≤ 256 ^ n * (subBytes 0 a b).2 := Nat.mul_le_mul_left _ (Nat.one_le_iff_ne_zero.mpr hne)
    omega
  rw [hborrow] at hsub
  omega

/-! ### Shifts, increments and bits -/

/-- Double, with the bit shifted in. -/
def doubleBytes : ℕ → List ℕ → List ℕ × ℕ
  | c, [] => ([], c)
  | c, x :: a =>
    let rest := doubleBytes (x / 128) a
    (((2 * x + c) % 256) :: rest.1, rest.2)

lemma isBytes_doubleBytes (c : ℕ) (ha : IsBytes n a) : IsBytes n (doubleBytes c a).1 := by
  induction ha using IsBytes.bytewise generalizing c with
  | nil => exact isBytes_nil
  | cons _ _ ih => exact isBytes_cons.mpr ⟨Nat.mod_lt _ (by decide), ih _⟩

lemma value_doubleBytes {c : ℕ} (hc : c ≤ 1) (ha : IsBytes n a) :
    value (doubleBytes c a).1 + 256 ^ n * (doubleBytes c a).2 = 2 * value a + c := by
  induction ha using IsBytes.bytewise generalizing c with
  | nil => simp [doubleBytes]
  | @cons n x a hx _ ih =>
    have hrest := ih (c := x / 128) (by omega)
    have hbyte : (2 * x + c) % 256 + 256 * (x / 128) = 2 * x + c := by omega
    rw [doubleBytes]
    simp only [value_cons, Nat.pow_succ]
    linarith

/-- The double of a number that has a bit to spare. -/
theorem value_doubleBytes_of_lt {c : ℕ} (hc : c ≤ 1) (ha : IsBytes n a) (h : 2 * value a + c < 256 ^ n) :
    value (doubleBytes c a).1 = 2 * value a + c := by
  have hdouble := value_doubleBytes hc ha
  have hcarry : (doubleBytes c a).2 = 0 := by
    by_contra hne
    have : 256 ^ n * 1 ≤ 256 ^ n * (doubleBytes c a).2 := Nat.mul_le_mul_left _ (Nat.one_le_iff_ne_zero.mpr hne)
    omega
  rw [hcarry] at hdouble
  omega

/-- Add one; nothing when all bytes are full. -/
def incrementBytes : List ℕ → Option (List ℕ)
  | [] => none
  | x :: a => if x + 1 < 256 then some ((x + 1) :: a) else (incrementBytes a).map (0 :: ·)

lemma value_incrementBytes (ha : IsBytes n a) :
    (∃ b, incrementBytes a = some b ∧ IsBytes n b ∧ value b = value a + 1) ∨
      incrementBytes a = none ∧ value a + 1 = 256 ^ n := by
  induction ha using IsBytes.bytewise with
  | nil => exact .inr ⟨rfl, rfl⟩
  | @cons n x a hx hta ih =>
    rw [incrementBytes]
    split_ifs with hlt
    · exact .inl ⟨_, rfl, isBytes_cons.mpr ⟨hlt, hta⟩, by rw [value_cons, value_cons]; omega⟩
    · obtain rfl : x = 255 := by omega
      rcases ih with ⟨b, hb, hbytes, hvalue⟩ | ⟨hnone, hvalue⟩
      · refine .inl ⟨0 :: b, by rw [hb]; rfl, isBytes_cons.mpr ⟨by decide, hbytes⟩, ?_⟩
        rw [value_cons, value_cons, hvalue]
        omega
      · refine .inr ⟨by rw [hnone]; rfl, ?_⟩
        rw [value_cons, Nat.pow_succ, ← hvalue]
        omega

lemma testBit_value (ha : IsBytes n a) (i : ℕ) : (value a).testBit i = (a.getD (i / 8) 0).testBit (i % 8) := by
  induction ha using IsBytes.bytewise generalizing i with
  | nil => simp
  | @cons n x a hx _ ih =>
    have hbit := Nat.testBit_two_pow_mul_add (i := 8) (value a) hx i
    rw [value_cons, show x + 256 * value a = 2 ^ 8 * value a + x by omega, hbit]
    split_ifs with hi
    · rw [Nat.div_eq_of_lt hi, Nat.mod_eq_of_lt hi]
      rfl
    · rw [ih, show i / 8 = (i - 8) / 8 + 1 by omega, show (i - 8) % 8 = i % 8 by omega]
      rfl

lemma value_set (i : ℕ) (hi : i < a.length) : value (a.set i y) + 256 ^ i * a.getD i 0 = value a + 256 ^ i * y := by
  induction a generalizing i with
  | nil => cases hi
  | cons x a ih =>
    cases i with
    | zero => simp only [set_cons_zero, value_cons, getD_cons_zero, pow_zero]; omega
    | succ i =>
      have hrest := ih i (Nat.lt_of_succ_lt_succ hi)
      simp only [set_cons_succ, value_cons, getD_cons_succ, Nat.pow_succ]
      linarith

end

/-! ### Long division -/

/-- Quotient and remainder of a number without its lowest `k` bits. -/
structure Divides (num den k q r : ℕ) : Prop where
  quotient : q = 2 ^ k * (num / 2 ^ k / den)
  remainder : r = num / 2 ^ k % den

lemma divides_start {num den n : ℕ} (h : num < 2 ^ n) : Divides num den n 0 0 := by
  rw [← Nat.div_eq_zero_iff_lt (Nat.two_pow_pos n)] at h
  exact ⟨by rw [h]; simp, by rw [h]; simp⟩

/-- The number without `k` bits, from the number without `k + 1` bits and the next bit. -/
theorem div_two_pow_bit (num k : ℕ) : num / 2 ^ k = 2 * (num / 2 ^ (k + 1)) + (num.testBit k).toNat := by
  rw [Nat.toNat_testBit, Nat.pow_succ, ← Nat.div_div_eq_div_mul]
  omega

lemma Divides.step {num den k q r : ℕ} (hden : 0 < den) (h : Divides num den (k + 1) q r) :
    let r' := 2 * r + (num.testBit k).toNat
    if den ≤ r' then Divides num den k (q + 2 ^ k) (r' - den) else Divides num den k q r' := by
  intro r'
  obtain ⟨hq, hr⟩ := h
  have hsplit := Nat.div_add_mod (num / 2 ^ (k + 1)) den
  have hlt := Nat.mod_lt (num / 2 ^ (k + 1)) hden
  have hbit := div_two_pow_bit num k
  have hone : (num.testBit k).toNat ≤ 1 := Bool.toNat_le _
  generalize num / 2 ^ (k + 1) / den = Q at *
  generalize num / 2 ^ (k + 1) % den = R at *
  have hnum : num / 2 ^ k = den * (2 * Q) + r' := by
    rw [hbit, ← hsplit]
    simp only [r', hr]
    ring
  have hpow : 2 ^ (k + 1) * Q = 2 ^ k * (2 * Q) := by rw [Nat.pow_succ]; ring
  split_ifs with hge
  · have hdiv : num / 2 ^ k = r' - den + den * (2 * Q + 1) := by
      rw [hnum, Nat.mul_add, Nat.mul_one]
      omega
    have hrem : r' - den < den := by omega
    refine ⟨?_, ?_⟩
    · rw [hdiv, Nat.add_mul_div_left _ _ hden, Nat.div_eq_of_lt hrem, hq, hpow]
      ring
    · rw [hdiv, Nat.add_mul_mod_self_left, Nat.mod_eq_of_lt hrem]
  · refine ⟨?_, ?_⟩
    · rw [hnum, Nat.mul_add_div hden, Nat.div_eq_of_lt (by omega), hq, hpow, Nat.add_zero]
    · rw [hnum, Nat.mul_add_mod, Nat.mod_eq_of_lt (by omega)]

end Noid.Lib
