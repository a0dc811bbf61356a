import Mathlib.Algebra.Order.Field.Power
import Mathlib.Algebra.Order.Floor.Semifield
import Mathlib.Data.Rat.Floor
import Noid.Lib.Bits
import Noid.Lib.Limbs
import Noid.Chain.Emission
import Noid.Chain.Work

/-! # Targets

The target of a block is the target of an anchor, doubled for every half-life that the chain is behind its schedule.  The
fraction of the exponent selects a factor between one and two, its integer part a shift; the product has five limbs.
This is exact arithmetic, clamped, except that a shift by 46 bits or more always gives `GENESIS_TARGET`. -/

namespace Noid.Chain

open Noid.Lib List

def GENESIS_TARGET : Bytes32 := ⟨replicate 29 0 ++ [0x40, 0, 0], by decide, by decide⟩

def MIN_TARGET : Bytes32 := ⟨1 :: replicate 31 0, by decide, by decide⟩

def MAX_TARGET : Bytes32 := Bytes32.max

def EPOCH_LENGTH : ℕ := 6

def HALFLIFE : ℕ := EPOCH_LENGTH * BLOCK_TIME

@[simp] lemma value_genesisTarget : GENESIS_TARGET.value = 2 ^ 238 := by decide

@[simp] lemma value_minTarget : MIN_TARGET.value = 1 := by decide

/-! ### Factors -/

def legacyFractionalFactor (f : ℕ) : ℕ :=
  65536 + (195766423245049 * f + 971821376 * f * f / 65536 + 5127 * (f / 65536) * (f / 65536) * f + 1 <<< 47) >>> 48

def bchFractionalFactor (f : ℕ) : ℕ :=
  65536 + (195766423245049 * f + 971821376 * f * f + 5127 * f * f * f + 1 <<< 47) >>> 48

def v11ActiveWith (height : ℕ) (activation : Option ℕ) : Bool := activation.any (· ≤ height)

def fractionalFactorAtHeight (frac height : ℕ) (activation : Option ℕ) : ℕ :=
  if v11ActiveWith height activation then bchFractionalFactor frac else legacyFractionalFactor frac

/-- The integer part of an exponent. -/
def shiftsOf (exponent : ℤ) : ℤ := exponent >>> (16 : ℕ)

def fracOf (exponent : ℤ) : ℕ := (exponent - shiftsOf exponent * 65536).toNat

lemma exponent_eq (e : ℤ) : e = shiftsOf e * 65536 + fracOf e ∧ fracOf e < 65536 := by
  unfold fracOf shiftsOf
  rw [Int.shiftRight_eq_div_pow]
  omega

lemma bchFractionalFactor_mono {f g : ℕ} (h : f ≤ g) : bchFractionalFactor f ≤ bchFractionalFactor g := by
  unfold bchFractionalFactor
  rw [Nat.shiftRight_eq_div_pow, Nat.shiftRight_eq_div_pow]
  gcongr

lemma factor_bounds {f : ℕ} (hf : f < 65536) (height : ℕ) (activation : Option ℕ) :
    65536 ≤ fractionalFactorAtHeight f height activation ∧ fractionalFactorAtHeight f height activation ≤ 2 * 65536 := by
  unfold fractionalFactorAtHeight
  split_ifs
  · exact ⟨Nat.le_add_right _ _, (bchFractionalFactor_mono (Nat.le_of_lt_succ hf)).trans (by decide)⟩
  · refine ⟨Nat.le_add_right _ _, ?_⟩
    rw [legacyFractionalFactor, Nat.shiftRight_eq_div_pow, Nat.div_eq_of_lt hf]
    have hsquare : 971821376 * f * f / 65536 ≤ 971821376 * f := Nat.div_le_of_le_mul (by nlinarith)
    omega

/-! ### Limbs -/

def bytesToLimbs (b : Bytes32) : List ℕ := (range 4).map fun i => value ((b.bytes.drop (8 * i)).take 8)

def limbBytes (x : ℕ) : List ℕ := (range 8).map fun i => x / 256 ^ i % 256

lemma limbsToBytes_isBytes (l : List ℕ) : IsBytes 32 ((range 4).flatMap fun i => limbBytes (l.getD i 0)) := by
  refine ⟨by simp [limbBytes], fun b hb => ?_⟩
  simp only [limbBytes, mem_flatMap, mem_map] at hb
  obtain ⟨i, -, j, -, rfl⟩ := hb
  exact Nat.mod_lt _ (by decide)

/-- The bytes of the first four limbs. -/
def limbsToBytes (l : List ℕ) : Bytes32 := ⟨_, limbsToBytes_isBytes l⟩

def shl320 (l : List ℕ) (n : ℕ) : List ℕ :=
  if n = 0 then l
  else
    let wordShift := min (n / 64) 5
    let out := replicate wordShift 0 ++ l.take (5 - wordShift)
    if 0 < n % 64 then shlLimbs 64 (n % 64) 0 out else out

def shr320 (l : List ℕ) (n : ℕ) : List ℕ :=
  if n = 0 then l
  else
    let wordShift := min (n / 64) 5
    let out := l.drop wordShift ++ replicate wordShift 0
    if 0 < n % 64 then (shrLimbs 64 (n % 64) out).1 else out

def shiftWide (l : List ℕ) (net : ℤ) : List ℕ :=
  if 0 ≤ net then shl320 l (min net.toNat 319) else shr320 l (min (-net).toNat 319)

def clamp (result : Bytes32) (overflowWord : ℕ) : Bytes32 :=
  if overflowWord ≠ 0 ∨ le256Lt MAX_TARGET.bytes result.bytes then MAX_TARGET
  else if result = Bytes32.zero ∨ le256Lt result.bytes MIN_TARGET.bytes then MIN_TARGET
  else result

def targetFromExponent (anchorTarget : Bytes32) (height : ℕ) (activation : Option ℕ) (exponent : ℤ) : Bytes32 :=
  let factor := fractionalFactorAtHeight (fracOf exponent) height activation
  let wide := mulLimbs 64 factor 0 (bytesToLimbs anchorTarget)
  let net := shiftsOf exponent - 16
  if 46 ≤ net then GENESIS_TARGET
  else if net ≤ -320 then MIN_TARGET
  else
    let wide := shiftWide wide net
    if 0 < net ∧ wide = replicate 5 0 then GENESIS_TARGET
    else
      let clamped := clamp (limbsToBytes wide) (wide.getD 4 0)
      if le256Lt GENESIS_TARGET.bytes clamped.bytes then GENESIS_TARGET else clamped

/-- A number scaled by a power of two, rounded down. -/
def scaled (n : ℕ) (net : ℤ) : ℕ := ⌊(n : ℚ) * 2 ^ net⌋₊

section
variable {n : ℕ} {net : ℤ} {l : List ℕ}

lemma scaled_of_nonneg (h : 0 ≤ net) : scaled n net = n * 2 ^ net.toNat := by
  obtain ⟨k, rfl⟩ := Int.eq_ofNat_of_zero_le h
  have hcast : (n : ℚ) * 2 ^ (k : ℤ) = ((n * 2 ^ k : ℕ) : ℚ) := by push_cast; rw [zpow_natCast]
  rw [scaled, hcast, Nat.floor_natCast, Int.toNat_natCast]

lemma scaled_of_neg (h : net < 0) : scaled n net = n / 2 ^ (-net).toNat := by
  obtain ⟨k, hk⟩ := Int.eq_ofNat_of_zero_le (show 0 ≤ -net by omega)
  have hcast : (n : ℚ) * 2 ^ net = (n : ℚ) / (2 ^ k : ℕ) := by
    rw [show net = -(k : ℤ) by omega, zpow_neg, zpow_natCast, Nat.cast_pow]
    rfl
  rw [scaled, hcast, Nat.floor_div_eq_div, hk, Int.toNat_natCast]

lemma bytesToLimbs_ok (b : Bytes32) :
    IsLimbs 64 4 (bytesToLimbs b) ∧ Nat.ofDigits (2 ^ 64) (bytesToLimbs b) = b.value := by
  have hlimb : ∀ i, value ((b.bytes.drop (8 * i)).take 8) = b.value / (2 ^ 64) ^ i % 2 ^ 64 := by
    intro i
    have hdrop := Nat.ofDigits_div_pow_eq_ofDigits_drop (8 * i) (by decide) b.bytes b.isBytes.lt
    have htake := Nat.ofDigits_mod_pow_eq_ofDigits_take 8 (by decide) (b.bytes.drop (8 * i))
      fun x hx => b.isBytes.lt x (mem_of_mem_drop hx)
    rw [value, ← htake, ← hdrop, Nat.pow_mul]
    rfl
  simp only [bytesToLimbs, hlimb]
  refine ⟨⟨by simp, fun x hx => ?_⟩, ?_⟩
  · obtain ⟨i, -, rfl⟩ := mem_map.mp hx
    exact Nat.mod_lt _ (by decide)
  · rw [ofDigits_cut, Nat.mod_eq_of_lt]
    exact b.value_lt

lemma value_limbsToBytes (h : IsLimbs 64 5 l) :
    (limbsToBytes l).value + 2 ^ 256 * l.getD 4 0 = Nat.ofDigits (2 ^ 64) l := by
  obtain ⟨hlen, hlt⟩ := h
  match l, hlen with
  | [a, b, c, d, e], _ =>
    have hblock : ∀ x ∈ [a, b, c, d, e], value (limbBytes x) = x := fun x hx =>
      (ofDigits_cut 256 8 x).trans (Nat.mod_eq_of_lt (hlt x hx))
    have hlength : ∀ x, (limbBytes x).length = 8 := fun x => by simp [limbBytes]
    have hrange : range 4 = [0, 1, 2, 3] := rfl
    simp only [Bytes32.value, limbsToBytes, hrange, flatMap_cons, flatMap_nil, getD_cons_zero,
      getD_cons_succ, value_append, value_nil, hlength, Nat.ofDigits_cons, Nat.ofDigits_nil]
    rw [hblock a (by simp), hblock b (by simp), hblock c (by simp), hblock d (by simp)]
    omega

lemma shl320_ok {n : ℕ} (hn : n < 64) (h : IsLimbs 64 5 l) (hfit : Nat.ofDigits (2 ^ 64) l * 2 ^ n < (2 ^ 64) ^ 5) :
    IsLimbs 64 5 (shl320 l n) ∧ Nat.ofDigits (2 ^ 64) (shl320 l n) = Nat.ofDigits (2 ^ 64) l * 2 ^ n := by
  by_cases hzero : n = 0
  · rw [hzero, Nat.pow_zero, Nat.mul_one]
    exact ⟨h, rfl⟩
  · simp only [shl320, if_neg hzero, Nat.div_eq_of_lt hn, Nat.mod_eq_of_lt hn, Nat.zero_min, replicate_zero,
      nil_append, Nat.sub_zero, if_pos (Nat.pos_of_ne_zero hzero), take_of_length_le h.length.le]
    exact shlLimbs_ok hn.le (Nat.two_pow_pos n) h hfit

lemma shr320_ok {n : ℕ} (hn : n < 320) (h : IsLimbs 64 5 l) :
    IsLimbs 64 5 (shr320 l n) ∧ Nat.ofDigits (2 ^ 64) (shr320 l n) = Nat.ofDigits (2 ^ 64) l / 2 ^ n := by
  have hword : n / 64 < 5 := by omega
  have hout : IsLimbs 64 5 (l.drop (n / 64) ++ replicate (n / 64) 0) := by
    refine ⟨by simp [h.length]; omega, fun x hx => ?_⟩
    rcases mem_append.mp hx with hx | hx
    · exact h.lt x (mem_of_mem_drop hx)
    · rw [(mem_replicate.mp hx).2]
      decide
  have hvalue : Nat.ofDigits (2 ^ 64) (l.drop (n / 64) ++ replicate (n / 64) 0) =
      Nat.ofDigits (2 ^ 64) l / 2 ^ (64 * (n / 64)) := by
    rw [Nat.ofDigits_append_replicate_zero, Nat.pow_mul, Nat.ofDigits_div_pow_eq_ofDigits_drop _ (by decide) l h.lt]
  have hsplit : 2 ^ n = 2 ^ (64 * (n / 64)) * 2 ^ (n % 64) := by rw [← Nat.pow_add, Nat.div_add_mod]
  unfold shr320
  rw [min_eq_left hword.le]
  dsimp only
  split_ifs with hzero hbits
  · rw [hzero, Nat.pow_zero, Nat.div_one]
    exact ⟨h, rfl⟩
  · obtain ⟨hlimbs, hshift, -⟩ := shrLimbs_ok (Nat.mod_lt n (by decide : 0 < 64)).le hout
    exact ⟨hlimbs, by rw [hshift, hvalue, Nat.div_div_eq_div_mul, ← hsplit]⟩
  · refine ⟨hout, ?_⟩
    rw [hvalue, hsplit, show n % 64 = 0 by omega, Nat.pow_zero, Nat.mul_one]

/-- The shift loses nothing but what it rounds down. -/
theorem shiftWide_ok (hlow : -320 < net) (hhigh : net < 46) (h : IsLimbs 64 5 l)
    (hl : Nat.ofDigits (2 ^ 64) l ≤ 2 ^ 256 * 2 ^ 17) :
    IsLimbs 64 5 (shiftWide l net) ∧ Nat.ofDigits (2 ^ 64) (shiftWide l net) = scaled (Nat.ofDigits (2 ^ 64) l) net := by
  unfold shiftWide
  split_ifs with hnet
  · rw [scaled_of_nonneg hnet, min_eq_left (by omega)]
    refine shl320_ok (by omega) h ?_
    have hpow : 2 ^ net.toNat ≤ 2 ^ 45 := Nat.pow_le_pow_right (by decide) (by omega)
    calc Nat.ofDigits (2 ^ 64) l * 2 ^ net.toNat ≤ 2 ^ 256 * 2 ^ 17 * 2 ^ 45 := Nat.mul_le_mul hl hpow
      _ < (2 ^ 64) ^ 5 := by decide
  · rw [scaled_of_neg (by omega), min_eq_left (by omega)]
    exact shr320_ok (by omega) h

lemma value_clamp (result : Bytes32) (overflow : ℕ) :
    (if le256Lt GENESIS_TARGET.bytes (clamp result overflow).bytes then GENESIS_TARGET else clamp result overflow).value =
      min GENESIS_TARGET.value (max MIN_TARGET.value (result.value + 2 ^ 256 * overflow)) := by
  have hlt : ∀ a b : Bytes32, le256Lt a.bytes b.bytes = true ↔ a.value < b.value := fun a b => le256Lt_iff a.isBytes b.isBytes
  have hmax := result.value_lt
  have hzero : result = Bytes32.zero ↔ result.value = 0 :=
    ⟨fun h => h ▸ Bytes32.value_zero, fun h => Bytes32.ext_value (h.trans Bytes32.value_zero.symm)⟩
  have hgenesis := value_genesisTarget
  have hmin := value_minTarget
  have htop := Bytes32.value_max
  unfold clamp
  simp only [hlt, hzero, MAX_TARGET]
  split_ifs <;> omega

end

section
variable (anchor : Bytes32) (height : ℕ) (activation : Option ℕ) (e : ℤ)

def exactTarget : ℕ :=
  scaled (anchor.value * fractionalFactorAtHeight (fracOf e) height activation) (shiftsOf e - 16)

/-- What the limbs compute. -/
theorem value_targetFromExponent : (targetFromExponent anchor height activation e).value =
    if 62 ≤ shiftsOf e ∨ 16 < shiftsOf e ∧ anchor.value = 0 then GENESIS_TARGET.value
    else min GENESIS_TARGET.value (max MIN_TARGET.value (exactTarget anchor height activation e)) := by
  obtain ⟨-, hfrac⟩ := exponent_eq e
  obtain ⟨hone, htwo⟩ := factor_bounds hfrac height activation
  obtain ⟨hanchor, hvalue⟩ := bytesToLimbs_ok anchor
  unfold targetFromExponent exactTarget
  generalize fractionalFactorAtHeight (fracOf e) height activation = factor at hone htwo ⊢
  obtain ⟨hwide, hproduct⟩ := mulLimbs_ok (show factor < 2 ^ 64 by omega) (Nat.two_pow_pos 64) hanchor
  rw [hvalue, Nat.add_zero] at hproduct
  have hle : anchor.value * factor ≤ 2 ^ 256 * 2 ^ 17 := Nat.mul_le_mul anchor.value_lt.le htwo
  dsimp only
  by_cases hhigh : 46 ≤ shiftsOf e - 16
  · rw [if_pos hhigh, if_pos (.inl (by omega))]
  rw [if_neg hhigh]
  by_cases hlow : shiftsOf e - 16 ≤ -320
  · have hzero : anchor.value * factor / 2 ^ (-(shiftsOf e - 16)).toNat = 0 := by
      refine Nat.div_eq_of_lt (hle.trans_lt ?_)
      calc 2 ^ 256 * 2 ^ 17 < 2 ^ 256 * 2 ^ 64 := by decide
        _ ≤ 2 ^ ((-(shiftsOf e - 16)).toNat - 64) * 2 ^ 64 :=
          Nat.mul_le_mul_right _ (Nat.pow_le_pow_right (by decide) (by omega))
        _ = 2 ^ (-(shiftsOf e - 16)).toNat := by rw [← Nat.pow_add, Nat.sub_add_cancel (by omega)]
    rw [if_pos hlow, if_neg (by omega), scaled_of_neg (by omega), hzero]
    simp
  rw [if_neg hlow]
  obtain ⟨hlimbs, hshift⟩ := shiftWide_ok (not_le.mp hlow) (not_le.mp hhigh) hwide (hproduct ▸ hle)
  rw [hproduct] at hshift
  have hempty : 0 < shiftsOf e - 16 → (shiftWide (mulLimbs 64 factor 0 (bytesToLimbs anchor)) (shiftsOf e - 16) =
      replicate 5 0 ↔ anchor.value = 0) := by
    intro hnet
    have hiff : scaled (anchor.value * factor) (shiftsOf e - 16) = 0 ↔ anchor.value = 0 := by
      rw [scaled_of_nonneg hnet.le, Nat.mul_eq_zero, Nat.mul_eq_zero]
      have := (Nat.two_pow_pos (shiftsOf e - 16).toNat).ne'
      omega
    rw [← hiff, ← hshift]
    constructor
    · intro h
      rw [h]
      decide
    · intro h
      exact eq_replicate_iff.mpr ⟨hlimbs.length, Nat.digits_zero_of_eq_zero (by decide) h⟩
  by_cases hgenesis : 16 < shiftsOf e ∧ anchor.value = 0
  · rw [if_pos ⟨by omega, (hempty (by omega)).mpr hgenesis.2⟩, if_pos (.inr hgenesis)]
  · rw [if_neg fun h => hgenesis ⟨by omega, (hempty h.1).mp h.2⟩, value_clamp, value_limbsToBytes hlimbs, hshift,
      if_neg (by omega)]

/-- **Scheduled targets are exact** unless the shift is cut short below the target of the genesis. -/
theorem scheduled_target_exact (hpos : 0 < anchor.value) : (targetFromExponent anchor height activation e).value =
        min GENESIS_TARGET.value (max MIN_TARGET.value (exactTarget anchor height activation e)) ↔
      shiftsOf e < 62 ∨ GENESIS_TARGET.value ≤ exactTarget anchor height activation e := by
  rw [value_targetFromExponent]
  simp only [value_genesisTarget, value_minTarget]
  split_ifs with h <;> omega

end

/-- The target of the genesis, more than one half-life early: neither limit is reached. -/
theorem scheduled_target_exact_early : 0 < GENESIS_TARGET.value ∧
    (targetFromExponent GENESIS_TARGET 0 none (-100000)).value = exactTarget GENESIS_TARGET 0 none (-100000) := by
  refine ⟨by decide, ?_⟩
  rw [(scheduled_target_exact GENESIS_TARGET 0 none (-100000) (by decide)).mpr (.inl (by decide))]
  decide +kernel

/-- The smallest target, 62 half-lives late, jumps to the target of the genesis. -/
theorem small_target_jumps : (targetFromExponent MIN_TARGET 0 none (62 * 65536)).value = 2 ^ 238 ∧
    min GENESIS_TARGET.value (max MIN_TARGET.value (exactTarget MIN_TARGET 0 none (62 * 65536))) = 2 ^ 62 := by
  have hexact : exactTarget MIN_TARGET 0 none (62 * 65536) = 2 ^ 62 := by
    rw [exactTarget, scaled_of_nonneg (by decide)]
    decide
  refine ⟨?_, by rw [hexact]; decide⟩
  rw [value_targetFromExponent, if_pos (.inl (by decide)), value_genesisTarget]

/-! ### The schedule -/

def clampI64 (x : ℤ) : ℤ := max (-2 ^ 63) (min x (2 ^ 63 - 1))

def clampI128 (x : ℤ) : ℤ := max (-2 ^ 127) (min x (2 ^ 127 - 1))

def ForkSchedule.idealElapsed (s : ForkSchedule) (anchor child : ℕ) : ℕ :=
  let count := child - anchor
  match s.v2At child with
  | some a =>
    let lastOld := a.height - 1
    let start := if lastOld < anchor then anchor else lastOld
    let newCount := child - start
    (count - newCount) * BLOCK_TIME + newCount * a.blockTime
  | none => count * BLOCK_TIME

def nextTargetWithActivation (anchorHeight anchorTimestamp : ℕ) (anchorTarget : Bytes32) (height timestamp : ℕ)
    (activation : Option ℕ) : Bytes32 :=
  let ideal := (BitVec.ofNat 64 (min ((height - anchorHeight) * BLOCK_TIME) (2 ^ 64 - 1))).toInt
  let actual : ℤ := (min (timestamp - anchorTimestamp) (2 ^ 63 - 1) : ℕ)
  targetFromExponent anchorTarget height activation (clampI64 (((actual - ideal) * 65536).tdiv HALFLIFE))

def nextTargetWithSchedule (anchorHeight anchorTimestamp : ℕ) (anchorTarget : Bytes32)
    (height parentTimestamp timestamp : ℕ) (s : ForkSchedule) : Bytes32 :=
  match s.v2At height with
  | none => nextTargetWithActivation anchorHeight anchorTimestamp anchorTarget height timestamp s.v11
  | some a =>
    let actual : ℤ := (min (parentTimestamp - anchorTimestamp) (2 ^ 63 - 1) : ℕ)
    let ideal : ℤ := (min (s.idealElapsed anchorHeight (height - 1)) (2 ^ 127 - 1) : ℕ)
    let halflife : ℤ := EPOCH_LENGTH * a.blockTime
    let exponent := (clampI128 (clampI128 (actual - ideal) * 65536)).tdiv halflife
    targetFromExponent anchorTarget height s.v11 (clampI64 exponent)

section
variable {anchorTarget : Bytes32} {s : ForkSchedule} {height height' : ℕ}

/-- **Targets grow with the exponent**, also where the fraction starts anew. -/
theorem targetFromExponent_mono {activation : Option ℕ} (h : v11ActiveWith height activation)
    (h' : v11ActiveWith height' activation) {e e' : ℤ} (hle : e ≤ e') :
    (targetFromExponent anchorTarget height activation e).value ≤
      (targetFromExponent anchorTarget height' activation e').value := by
  obtain ⟨he, hf⟩ := exponent_eq e
  obtain ⟨he', hf'⟩ := exponent_eq e'
  have hone := (factor_bounds hf' height' activation).1
  have htwo := (factor_bounds hf height activation).2
  have hshifts : shiftsOf e ≤ shiftsOf e' := by omega
  have hexact : exactTarget anchorTarget height activation e ≤ exactTarget anchorTarget height' activation e' := by
    refine Nat.floor_mono ?_
    push_cast
    rw [mul_assoc, mul_assoc]
    refine mul_le_mul_of_nonneg_left ?_ (Nat.cast_nonneg _)
    rcases hshifts.lt_or_eq with hlt | heq
    · calc (fractionalFactorAtHeight (fracOf e) height activation : ℚ) * 2 ^ (shiftsOf e - 16)
          ≤ 65536 * 2 * 2 ^ (shiftsOf e - 16) := by gcongr; exact_mod_cast htwo
        _ = 65536 * 2 ^ (shiftsOf e - 16 + 1) := by rw [zpow_add_one₀ two_ne_zero]; ring
        _ ≤ (fractionalFactorAtHeight (fracOf e') height' activation : ℚ) * 2 ^ (shiftsOf e' - 16) := by
          gcongr
          · exact_mod_cast hone
          · norm_num
          · omega
    · rw [heq, fractionalFactorAtHeight, if_pos h, fractionalFactorAtHeight, if_pos h']
      gcongr
      exact bchFractionalFactor_mono (by omega)
  rw [value_targetFromExponent, value_targetFromExponent]
  simp only [value_genesisTarget, value_minTarget]
  split_ifs <;> omega

/-- Scheduled time grows with the child. -/
theorem idealElapsed_mono {anchor child child' : ℕ} (h : child ≤ child') :
    s.idealElapsed anchor child ≤ s.idealElapsed anchor child' := by
  have heq : ∀ child, s.idealElapsed anchor child = match s.v2 with
      | some a => (min child (a.height - 1) - anchor) * BLOCK_TIME + (child - max anchor (a.height - 1)) * a.blockTime
      | none => (child - anchor) * BLOCK_TIME := by
    intro child
    unfold ForkSchedule.idealElapsed ForkSchedule.v2At
    cases hv : s.v2 with
    | none => rfl
    | some a =>
      have hpos := a.height_pos
      by_cases hc : a.height ≤ child
      · simp only [Option.filter_some, hc, decide_true, if_true]
        congr 2
        · split_ifs <;> omega
        · split_ifs <;> omega
      · simp only [Option.filter_some, hc, decide_false, Bool.false_eq_true, if_false]
        rw [min_eq_left (by omega), show child - max anchor (a.height - 1) = 0 by omega, Nat.zero_mul, Nat.add_zero]
  rw [heq, heq]
  split <;> gcongr

/-- **Targets are monotone** in the parent's time and the height, and between the two bounds. -/
theorem scheduled_target_mono (s : ForkSchedule) (a : V2Activation) (anchorHeight anchorTimestamp : ℕ)
    (anchorTarget : Bytes32) (height height' parent parent' t t' : ℕ) (hv : s.v2 = some a) (hactive : a.height ≤ height)
    (hheight : height ≤ height') (hparent : parent ≤ parent') :
    (nextTargetWithSchedule anchorHeight anchorTimestamp anchorTarget height' parent t s).value ≤
        (nextTargetWithSchedule anchorHeight anchorTimestamp anchorTarget height parent' t' s).value ∧
      MIN_TARGET.value ≤ (nextTargetWithSchedule anchorHeight anchorTimestamp anchorTarget height parent t s).value ∧
      (nextTargetWithSchedule anchorHeight anchorTimestamp anchorTarget height parent t s).value ≤ GENESIS_TARGET.value := by
  have hat : ∀ k, height ≤ k → s.v2At k = some a := fun k hk => v2At_eq_some.mpr ⟨hv, hactive.trans hk⟩
  have hfirst : ∀ k, height ≤ k → v11ActiveWith k s.v11 := by
    intro k hk
    obtain ⟨first, hfirst, hle⟩ := s.ordered a hv
    rw [v11ActiveWith, hfirst]
    exact decide_eq_true (hle.trans (hactive.trans hk))
  have hlife : (0 : ℤ) < EPOCH_LENGTH * a.blockTime := by
    exact_mod_cast Nat.mul_pos (by decide) a.blockTime_pos
  have hideal : s.idealElapsed anchorHeight (height - 1) ≤ s.idealElapsed anchorHeight (height' - 1) :=
    idealElapsed_mono (Nat.sub_le_sub_right hheight 1)
  simp only [nextTargetWithSchedule, hat _ le_rfl, hat _ hheight]
  refine ⟨targetFromExponent_mono (hfirst _ hheight) (hfirst _ le_rfl) ?_, ?_, ?_⟩
  · have htdiv := fun x y (h : x ≤ y) => Int.tdiv_le_tdiv hlife h
    unfold clampI64
    gcongr
    refine htdiv _ _ ?_
    unfold clampI128
    gcongr
  all_goals
    rw [value_targetFromExponent]
    simp only [value_genesisTarget, value_minTarget]
    split_ifs <;> omega

end

theorem scheduled_target_mono_mainnet : ∃ s, ForkSchedule.new (some 95125) (some mainnetV2) = some s ∧
    (nextTargetWithSchedule 210000 1000 MIN_TARGET 210545 1030 0 s).value ≤
        (nextTargetWithSchedule 210000 1000 MIN_TARGET 210537 9000 0 s).value ∧
      MIN_TARGET.value ≤ (nextTargetWithSchedule 210000 1000 MIN_TARGET 210537 1030 0 s).value ∧
      (nextTargetWithSchedule 210000 1000 MIN_TARGET 210537 1030 0 s).value ≤ GENESIS_TARGET.value :=
  ⟨_, rfl, scheduled_target_mono _ mainnetV2 _ _ _ _ _ _ _ _ _ rfl (by decide) (by decide) (by decide)⟩

end Noid.Chain
