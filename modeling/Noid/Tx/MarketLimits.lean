import Noid.Tx.Market

/-! # Exact ratios

`floorRatio a b d` is `⌊a * b / d⌋` for `a ≤ d`, found by bisection over three-limb products, so that the 192-bit product
is never formed. -/

namespace Noid.Tx

open Noid.Lib

/-- A product of a `u128` and a `u64` as three limbs, the most significant first. -/
structure WideProduct where
  high : ℕ
  middle : ℕ
  low : ℕ
deriving DecidableEq, Repr

namespace WideProduct

/-- The lexicographic order of the limbs. -/
def Le (x y : WideProduct) : Prop :=
  x.high < y.high ∨ x.high = y.high ∧ (x.middle < y.middle ∨ x.middle = y.middle ∧ x.low ≤ y.low)

instance (x y : WideProduct) : Decidable (x.Le y) := by unfold Le; infer_instance

end WideProduct

def wideProduct (a b : ℕ) : WideProduct :=
  let lo := a % U64 * b
  let hi := a / U64 * b + lo / U64
  { high := hi / U64, middle := hi % U64, low := lo % U64 }

/-- The bisection of `floor_ratio`. -/
def floorRatioLoop (target : WideProduct) (d : ℕ) : ℕ → ℕ → ℕ → ℕ
  | 0, low, _ => low
  | fuel + 1, low, high =>
    if low < high then
      let middle := low + (high - low + 1) / 2
      if (wideProduct d middle).Le target then floorRatioLoop target d fuel middle high
      else floorRatioLoop target d fuel low (middle - 1)
    else low

def floorRatio (a b d : ℕ) : Except MarketError ℕ := do
  require (d ≠ 0 ∧ a ≤ d) .arithmetic
  return floorRatioLoop (wideProduct a b) d 64 0 b

/-! ### The limbs hold the product -/

lemma wideProduct_value (a b : ℕ) :
    ((wideProduct a b).high * U64 + (wideProduct a b).middle) * U64 + (wideProduct a b).low = a * b := by
  have hhi := Nat.div_add_mod (a / U64 * b + a % U64 * b / U64) U64
  have hlo := Nat.div_add_mod (a % U64 * b) U64
  have ha := Nat.div_add_mod a U64
  simp only [wideProduct]
  rw [Nat.mul_comm ((_ + _) / U64) U64, hhi, Nat.add_mul, Nat.mul_comm (a % U64 * b / U64) U64, Nat.add_assoc, hlo]
  calc a / U64 * b * U64 + a % U64 * b = (U64 * (a / U64) + a % U64) * b := by
        rw [Nat.add_mul, Nat.mul_right_comm, Nat.mul_comm (a / U64) U64]
    _ = a * b := by rw [ha]

lemma wideProduct_le_iff (a b c e : ℕ) : (wideProduct a b).Le (wideProduct c e) ↔ a * b ≤ c * e := by
  have hx := wideProduct_value a b
  have hy := wideProduct_value c e
  have hm1 : (wideProduct a b).middle < U64 := Nat.mod_lt _ (by decide)
  have hm2 : (wideProduct c e).middle < U64 := Nat.mod_lt _ (by decide)
  have hl1 : (wideProduct a b).low < U64 := Nat.mod_lt _ (by decide)
  have hl2 : (wideProduct c e).low < U64 := Nat.mod_lt _ (by decide)
  simp only [WideProduct.Le, U64] at *
  omega

/-! ### The bisection -/

lemma floorRatioLoop_spec {a b d : ℕ} (hd : 0 < d) :
    ∀ (fuel low high : ℕ), low ≤ a * b / d → a * b / d ≤ high → high < low + 2 ^ fuel →
      floorRatioLoop (wideProduct a b) d fuel low high = a * b / d
  | 0, low, high, h1, h2, h3 => by
    show low = a * b / d
    omega
  | fuel + 1, low, high, h1, h2, h3 => by
    unfold floorRatioLoop
    simp only [wideProduct_le_iff]
    split_ifs with hlt hle
    · refine floorRatioLoop_spec hd fuel _ high ?_ h2 (by omega)
      rw [Nat.le_div_iff_mul_le hd, Nat.mul_comm]
      exact hle
    · refine floorRatioLoop_spec hd fuel low _ h1 ?_ (by omega)
      have : a * b / d < low + (high - low + 1) / 2 := by
        rw [Nat.div_lt_iff_lt_mul hd, Nat.mul_comm _ d]
        exact not_le.mp hle
      omega
    · exact le_antisymm h1 (by omega)

/-- The bisection computes the rounded-down ratio. -/
theorem floorRatio_eq {a b d : ℕ} (hd : 0 < d) (ha : a ≤ d) (hb : b < U64) :
    floorRatio a b d = .ok (a * b / d) := by
  have hq : a * b / d ≤ b := by
    calc a * b / d ≤ d * b / d := Nat.div_le_div_right (Nat.mul_le_mul_right b ha)
      _ = b := Nat.mul_div_cancel_left b hd
  have hloop := floorRatioLoop_spec (a := a) (b := b) hd 64 0 b (Nat.zero_le _) hq
    (by simpa [U64] using hb)
  rw [floorRatio, require_bind ⟨Nat.ne_of_gt hd, ha⟩, hloop]
  rfl

/-! ### Machine integers -/

/-- An exact result, when it fits so many bits. -/
def fits (bits n : ℕ) : Except MarketError ℕ := do
  require (n < 2 ^ bits) .arithmetic
  return n

lemma fits_bind {α : Type} {bits n : ℕ} {f : ℕ → Except MarketError α} (h : n < 2 ^ bits) :
    (fits bits n >>= f) = f n := by
  rw [fits, require_bind h]
  rfl

/-- `wide_product` with every operation in its width. -/
def checkedWideProduct (a b : ℕ) : Except MarketError WideProduct := do
  let lo ← fits 128 (a % U64 * b)
  let scaled ← fits 128 (a / U64 * b)
  let hi ← fits 128 (scaled + lo / U64)
  return { high := hi / U64 % U64, middle := hi % U64, low := lo % U64 }

/-- The loop of `floor_ratio` with every operation in its width. -/
def checkedFloorRatioLoop (target : WideProduct) (d : ℕ) : ℕ → ℕ → ℕ → Except MarketError ℕ
  | 0, low, high => do
    require (high ≤ low) .arithmetic
    return low
  | fuel + 1, low, high =>
    if low < high then do
      let middle ← fits 64 (low + (high - low + 1) / 2)
      let product ← checkedWideProduct d middle
      if product.Le target then checkedFloorRatioLoop target d fuel middle high
      else checkedFloorRatioLoop target d fuel low (← checkedSub .arithmetic middle 1)
    else .ok low

def checkedFloorRatio (a b d : ℕ) : Except MarketError ℕ := do
  require (d ≠ 0 ∧ a ≤ d) .arithmetic
  checkedFloorRatioLoop (← checkedWideProduct a b) d 64 0 b

lemma checkedWideProduct_eq {a b : ℕ} (ha : a < 2 ^ 128) (hb : b < U64) :
    checkedWideProduct a b = .ok (wideProduct a b) := by
  have hhalf : a / U64 < U64 := Nat.div_lt_of_lt_mul ha
  have hlow : a % U64 * b ≤ (U64 - 1) * (U64 - 1) :=
    Nat.mul_le_mul (Nat.le_pred_of_lt (Nat.mod_lt _ (by decide))) (Nat.le_pred_of_lt hb)
  have hhigh : a / U64 * b ≤ (U64 - 1) * (U64 - 1) :=
    Nat.mul_le_mul (Nat.le_pred_of_lt hhalf) (Nat.le_pred_of_lt hb)
  have hhi : a / U64 * b + a % U64 * b / U64 < U64 * U64 :=
    lt_of_le_of_lt (Nat.add_le_add hhigh (Nat.div_le_div_right hlow)) (by decide)
  rw [checkedWideProduct, fits_bind (lt_of_le_of_lt hlow (by decide)), fits_bind (lt_of_le_of_lt hhigh (by decide)),
    fits_bind hhi, Nat.mod_eq_of_lt (Nat.div_lt_of_lt_mul hhi)]
  rfl

/-- The search stays between its bounds. -/
theorem checkedFloorRatioLoop_eq (target : WideProduct) {d : ℕ} (hd : d < 2 ^ 128) :
    ∀ fuel low high, high < U64 → high < low + 2 ^ fuel →
      checkedFloorRatioLoop target d fuel low high = .ok (floorRatioLoop target d fuel low high)
  | 0, low, high, _, hfuel => require_bind (by omega)
  | fuel + 1, low, high, hhigh, hfuel => by
    unfold checkedFloorRatioLoop floorRatioLoop
    by_cases hlt : low < high
    · have hmiddle : low + (high - low + 1) / 2 < U64 := by omega
      rw [if_pos hlt, if_pos hlt, fits_bind hmiddle, bind_of_ok (checkedWideProduct_eq hd hmiddle)]
      simp only
      split_ifs
      · refine checkedFloorRatioLoop_eq target hd fuel _ high hhigh ?_
        omega
      · rw [checkedSub, if_pos (by omega), bind_of_ok rfl]
        refine checkedFloorRatioLoop_eq target hd fuel low _ ?_ ?_ <;> omega
    · rw [if_neg hlt, if_neg hlt]

/-- **`floor_ratio` is exact**, and none of its operations overflows. -/
theorem floorRatio_exact {a b d : ℕ} (hd : 0 < d) (ha : a ≤ d) (hwide : d < 2 ^ 128) (hb : b < U64) :
    floorRatio a b d = .ok (a * b / d) ∧ checkedFloorRatio a b d = .ok (a * b / d) := by
  have hratio := floorRatio_eq hd ha hb
  have hloop := checkedFloorRatioLoop_eq (wideProduct a b) hwide 64 0 b hb (by simpa [U64] using hb)
  refine ⟨hratio, ?_⟩
  rw [← hratio, checkedFloorRatio, floorRatio, require_bind ⟨hd.ne', ha⟩, require_bind ⟨hd.ne', ha⟩,
    bind_of_ok (checkedWideProduct_eq (lt_of_le_of_lt ha hwide) hb), hloop]
  rfl

theorem floorRatio_exact_wide : checkedFloorRatio (2 ^ 127) (2 ^ 64 - 1) (2 ^ 128 - 1) = .ok (2 ^ 63 - 1) :=
  (floorRatio_exact (by decide) (by decide) (by decide) (by decide)).2

end Noid.Tx
