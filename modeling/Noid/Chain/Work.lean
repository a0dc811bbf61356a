import Mathlib.Algebra.Order.Floor.Div
import Noid.Lib.ByteNumber

/-! # Chain work

Work is a number of 32 little-endian bytes, computed byte by byte: a saturating sum, and the rounded up expected number of
trials for a target.  Fork choice compares work first and breaks ties by the smaller tip hash, which orders tips totally. -/

namespace Noid.Chain

open Noid.Lib List

/-- A `[u8; 32]` read as a number. -/
structure Bytes32 where
  bytes : List ℕ
  isBytes : IsBytes 32 bytes
deriving DecidableEq

namespace Bytes32

def value (a : Bytes32) : ℕ := Lib.value a.bytes

def zero : Bytes32 := ⟨replicate 32 0, by decide, by decide⟩

def max : Bytes32 := ⟨replicate 32 255, by decide, by decide⟩

lemma ext_value {a b : Bytes32} (h : a.value = b.value) : a = b := by
  obtain ⟨a, ha⟩ := a
  obtain ⟨b, hb⟩ := b
  rw [mk.injEq]
  exact ha.ext hb h

lemma value_lt (a : Bytes32) : a.value < 2 ^ 256 := a.isBytes.value_lt

@[simp] lemma value_zero : zero.value = 0 := by decide

@[simp] lemma value_max : max.value = 2 ^ 256 - 1 := by decide

end Bytes32

/-! ### Comparison and sum -/

/-- Compare from the most significant byte down. -/
def le256Lt (a b : List ℕ) : Bool := ltFromTop a.reverse b.reverse

lemma le256Lt_iff {a b : List ℕ} (ha : IsBytes 32 a) (hb : IsBytes 32 b) : le256Lt a b = true ↔ value a < value b := by
  have hrev : ∀ {l}, IsBytes 32 l → IsBytes 32 l.reverse := fun h =>
    ⟨by rw [length_reverse, h.length], fun x hx => h.lt x (mem_reverse.mp hx)⟩
  rw [le256Lt, ltFromTop_iff (hrev ha) (hrev hb), reverse_reverse, reverse_reverse]

def addWork (a b : Bytes32) : Bytes32 :=
  if (addBytes 0 a.bytes b.bytes).2 ≠ 0 then Bytes32.max
  else ⟨(addBytes 0 a.bytes b.bytes).1, isBytes_addBytes 0 a.isBytes b.isBytes⟩

lemma value_addWork (a b : Bytes32) : (addWork a b).value = min (a.value + b.value) (2 ^ 256 - 1) := by
  have hsum := value_addBytes 0 a.isBytes b.isBytes
  have hlt := (isBytes_addBytes 0 a.isBytes b.isBytes).value_lt
  change _ = a.value + b.value + 0 at hsum
  rw [addWork]
  split_ifs with hcarry
  · have : 2 ^ 256 * 1 ≤ 2 ^ 256 * (addBytes 0 a.bytes b.bytes).2 :=
      Nat.mul_le_mul_left _ (Nat.one_le_iff_ne_zero.mpr hcarry)
    rw [Bytes32.value_max, min_eq_right (by omega)]
  · rw [not_not.mp hcarry] at hsum
    change value (addBytes 0 a.bytes b.bytes).1 = _
    omega

/-! ### The work of a block -/

def isZero256 (a : List ℕ) : Bool := a.all (· = 0)

def ge256 (a b : List ℕ) : Bool := !le256Lt a b

def shl1256 (a : List ℕ) : List ℕ := (doubleBytes 0 a).1

def subAssign256 (a b : List ℕ) : List ℕ := (subBytes 0 a b).1

def bit256 (a : List ℕ) (bit : ℕ) : Bool := (a.getD (bit / 8) 0 >>> (bit % 8)) &&& 1 = 1

def setBit256 (a : List ℕ) (bit : ℕ) : List ℕ := a.modify (bit / 8) (· ||| 1 <<< (bit % 8))

/-- One bit of the division: quotient and remainder. -/
def divBit (numerator denominator : List ℕ) (st : List ℕ × List ℕ) (bit : ℕ) : List ℕ × List ℕ :=
  let remainder := shl1256 st.2
  let remainder := if bit256 numerator bit then remainder.modify 0 (· ||| 1) else remainder
  if ge256 remainder denominator then (setBit256 st.1 bit, subAssign256 remainder denominator)
  else (st.1, remainder)

/-- Division bit by bit; none by zero. -/
def divU256 (numerator denominator : List ℕ) : Option (List ℕ) :=
  if isZero256 denominator then none
  else some ((range 256).reverse.foldl (divBit numerator denominator)
    (replicate 32 0, replicate 32 0)).1

section
variable {a b num den : List ℕ} {bit : ℕ}

lemma isZero256_iff (ha : IsBytes 32 a) : isZero256 a = true ↔ value a = 0 := by
  have hzero : value (replicate 32 0) = 0 := by decide
  constructor
  · intro h
    rw [isZero256, all_eq_true] at h
    have : a = replicate 32 0 := eq_replicate_iff.mpr ⟨ha.length, fun x hx => by simpa using h x hx⟩
    rw [this, hzero]
  · intro h
    rw [ha.ext ⟨by simp, by simp⟩ (h.trans hzero.symm)]
    decide

lemma bit256_eq (ha : IsBytes 32 a) : bit256 a bit = (value a).testBit bit := by
  rw [testBit_value ha, Nat.testBit, bit256, Nat.and_comm]
  rw [Nat.one_and_eq_mod_two]
  rcases Nat.mod_two_eq_zero_or_one (a.getD (bit / 8) 0 >>> (bit % 8)) with h | h <;> rw [h] <;> rfl

/-- The next remainder: doubled, with the next bit of the numerator. -/
theorem shiftIn_eq (c : Bool) (ha : IsBytes 32 a) :
    (if c then (shl1256 a).modify 0 (· ||| 1) else shl1256 a) = (doubleBytes c.toNat a).1 := by
  cases c with
  | false => rfl
  | true =>
    obtain ⟨x, a, rfl⟩ := exists_cons_of_length_eq_add_one ha.length
    have hbyte : ∀ x < 256, (2 * x + 0) % 256 ||| 1 = (2 * x + 1) % 256 := by decide +kernel
    have hx := hbyte x (ha.lt x mem_cons_self)
    exact congrArg (· :: (doubleBytes (x / 128) a).1) hx

lemma value_setBit256 (ha : IsBytes 32 a) (hbit : bit < 256) (hclear : (value a).testBit bit = false) :
    IsBytes 32 (setBit256 a bit) ∧ value (setBit256 a bit) = value a + 2 ^ bit := by
  have hi : bit / 8 < a.length := by rw [ha.length]; omega
  have hbyte : ∀ x < 256, ∀ j < 8, x.testBit j = false → x ||| 1 <<< j = x + 2 ^ j ∧ x ||| 1 <<< j < 256 := by decide +kernel
  rw [testBit_value ha] at hclear
  have hget : a.getD (bit / 8) 0 = a[bit / 8] := getD_eq_getElem a 0 hi
  obtain ⟨hor, hlt⟩ := hbyte _ (ha.lt _ (getElem_mem hi)) (bit % 8) (by omega) (hget ▸ hclear)
  have hset : setBit256 a bit = a.set (bit / 8) (a[bit / 8] + 2 ^ (bit % 8)) := by
    rw [setBit256, modify_eq_set_getElem? , getElem?_eq_getElem hi, ← hor]
    rfl
  rw [hset]
  refine ⟨⟨by rw [length_set, ha.length], fun x hx => ?_⟩, ?_⟩
  · rcases mem_or_eq_of_mem_set hx with hx | rfl
    · exact ha.lt x hx
    · rw [← hor]
      exact hlt
  · have hvalue := value_set (y := a[bit / 8] + 2 ^ (bit % 8)) (bit / 8) hi
    have hpow : 256 ^ (bit / 8) * 2 ^ (bit % 8) = 2 ^ bit := by
      rw [show (256 : ℕ) = 2 ^ 8 by norm_num, ← Nat.pow_mul, ← Nat.pow_add, Nat.div_add_mod]
    rw [hget, Nat.mul_add, hpow] at hvalue
    omega

/-- Quotient and remainder after the bits down to `k`. -/
structure DivOk (num den : List ℕ) (k : ℕ) (st : List ℕ × List ℕ) : Prop where
  quotient : IsBytes 32 st.1
  remainder : IsBytes 32 st.2
  divides : Divides (value num) (value den) k (value st.1) (value st.2)

lemma divBit_ok {k : ℕ} {st : List ℕ × List ℕ} (hnum : IsBytes 32 num) (hden : IsBytes 32 den) (hpos : 0 < value den)
    (hk : k < 256) (h : DivOk num den (k + 1) st) : DivOk num den k (divBit num den st k) := by
  obtain ⟨q, r⟩ := st
  obtain ⟨hq, hr, hdivides⟩ := h
  have hstep := hdivides.step hpos
  -- the shifted remainder fits: it has at most as many bits as the numerator had so far
  have hfits : 2 * value r + ((value num).testBit k).toNat < 256 ^ 32 := by
    have hle : value r ≤ value num / 2 ^ (k + 1) := hdivides.remainder ▸ Nat.mod_le _ _
    have hbit := div_two_pow_bit (value num) k
    have hdiv := Nat.div_le_self (value num) (2 ^ k)
    have hlt := hnum.value_lt
    omega
  have hshift := value_doubleBytes_of_lt (Bool.toNat_le _) hr hfits
  have hbytes := isBytes_doubleBytes ((value num).testBit k).toNat hr
  have hclear : (value q).testBit k = false := by
    rw [hdivides.quotient, Nat.testBit_two_pow_mul]
    simp
  have hge : ge256 (doubleBytes ((value num).testBit k).toNat r).1 den = true ↔
      value den ≤ 2 * value r + ((value num).testBit k).toNat := by
    rw [ge256, Bool.not_eq_true', ← Bool.not_eq_true, le256Lt_iff hbytes hden, hshift, not_lt]
  simp only [divBit, bit256_eq hnum, shiftIn_eq _ hr]
  dsimp only at hstep
  split_ifs at hstep with hle
  · rw [if_pos (hge.mpr hle)]
    obtain ⟨hset, hvalue⟩ := value_setBit256 hq hk hclear
    have hsub : value (subAssign256 (doubleBytes ((value num).testBit k).toNat r).1 den) = _ :=
      value_subBytes_of_le hbytes hden (hshift ▸ hle)
    refine ⟨hset, isBytes_subBytes (Nat.zero_le 1) hbytes hden, ?_⟩
    rw [hvalue, hsub, hshift]
    exact hstep
  · rw [if_neg (mt hge.mp hle)]
    refine ⟨hq, hbytes, ?_⟩
    rw [hshift]
    exact hstep

/-- **The division** is the division of the values. -/
theorem divU256_ok (hnum : IsBytes 32 num) (hden : IsBytes 32 den) (hpos : 0 < value den) :
    ∃ q, divU256 num den = some q ∧ IsBytes 32 q ∧ value q = value num / value den := by
  have hzero : isZero256 den = false := by
    rw [← Bool.not_eq_true, isZero256_iff hden]
    omega
  have hbytes : IsBytes 32 (replicate 32 0) := ⟨by simp, by simp⟩
  have hstart : DivOk num den 256 (replicate 32 0, replicate 32 0) :=
    ⟨hbytes, hbytes, divides_start (by simpa using hnum.value_lt)⟩
  have hrun : ∀ k ≤ 256, ∀ st, DivOk num den k st → DivOk num den 0 ((range k).reverse.foldl (divBit num den) st) := by
    intro k
    induction k with
    | zero => intro _ st hst; exact hst
    | succ k ih =>
      intro hk st hst
      rw [range_succ, reverse_append, reverse_singleton, singleton_append, foldl_cons]
      exact ih (by omega) _ (divBit_ok hnum hden hpos (by omega) hst)
  have hresult := hrun 256 le_rfl _ hstart
  refine ⟨_, by rw [divU256, hzero]; rfl, hresult.quotient, ?_⟩
  rw [hresult.divides.quotient]
  simp

end

def addOneSaturating (a : List ℕ) : List ℕ := (incrementBytes a).getD (replicate 32 255)

lemma addOneSaturating_ok {a : List ℕ} (ha : IsBytes 32 a) :
    IsBytes 32 (addOneSaturating a) ∧ value (addOneSaturating a) = min (value a + 1) (2 ^ 256 - 1) := by
  rcases value_incrementBytes ha with ⟨b, hb, hbytes, hvalue⟩ | ⟨hnone, hvalue⟩
  · have hlt := hbytes.value_lt
    rw [addOneSaturating, hb]
    refine ⟨hbytes, hvalue.trans (min_eq_left ?_).symm⟩
    omega
  · rw [addOneSaturating, hnone]
    refine ⟨Bytes32.max.isBytes, Bytes32.value_max.trans (min_eq_right ?_).symm⟩
    omega

lemma isBytes_blockWork (target : Bytes32) (h : ¬isZero256 target.bytes) :
    IsBytes 32 (addOneSaturating ((divU256 Bytes32.max.bytes target.bytes).getD [])) := by
  have hpos : 0 < value target.bytes := Nat.pos_of_ne_zero fun hzero => h ((isZero256_iff target.isBytes).mpr hzero)
  obtain ⟨q, hq, hbytes, -⟩ := divU256_ok Bytes32.max.isBytes target.isBytes hpos
  rw [hq]
  exact (addOneSaturating_ok hbytes).1

/-- The work of a target. -/
def blockWork (target : Bytes32) : Bytes32 :=
  if h : isZero256 target.bytes then Bytes32.zero
  else ⟨addOneSaturating ((divU256 Bytes32.max.bytes target.bytes).getD []), isBytes_blockWork target h⟩

/-- **The work of a target**: the expected number of trials, rounded up. -/
theorem value_blockWork (target : Bytes32) :
    (blockWork target).value = if target.value = 0 then 0 else min ((2 ^ 256 - 1) / target.value + 1) (2 ^ 256 - 1) := by
  rw [blockWork]
  split_ifs with hzero hvalue hvalue
  · exact Bytes32.value_zero
  · exact absurd ((isZero256_iff target.isBytes).mp hzero) hvalue
  · exact absurd ((isZero256_iff target.isBytes).mpr hvalue) hzero
  · obtain ⟨q, hq, hbytes, hdiv⟩ := divU256_ok Bytes32.max.isBytes target.isBytes (Nat.pos_of_ne_zero hvalue)
    change Lib.value (addOneSaturating _) = _
    rw [hq]
    refine (addOneSaturating_ok hbytes).2.trans ?_
    rw [hdiv]
    exact congrArg (fun n => min (n / target.value + 1) (2 ^ 256 - 1)) Bytes32.value_max

/-- **Work is exact**: the rounded up quotient of `2 ^ 256` and the target. -/
theorem block_work_exact :
    (∀ t : Bytes32, t.value ≠ 0 → (blockWork t).value = min (2 ^ 256 - 1) (2 ^ 256 ⌈/⌉ t.value)) ∧
      (∀ numerator denominator : Bytes32, denominator.value ≠ 0 →
        ∃ q : Bytes32, divU256 numerator.bytes denominator.bytes = some q.bytes ∧
          q.value = numerator.value / denominator.value) ∧
      ∀ t t' : Bytes32, t.value ≠ 0 → t.value ≤ t'.value → (blockWork t').value ≤ (blockWork t).value := by
  refine ⟨fun t ht => ?_, fun numerator denominator hpos => ?_, fun t t' ht hle => ?_⟩
  · rw [value_blockWork, if_neg ht, min_comm, Nat.ceilDiv_eq_add_pred_div,
      show 2 ^ 256 + t.value - 1 = 2 ^ 256 - 1 + t.value by omega, Nat.add_div_right _ (Nat.pos_of_ne_zero ht)]
  · obtain ⟨q, hq, hbytes, hvalue⟩ := divU256_ok numerator.isBytes denominator.isBytes (Nat.pos_of_ne_zero hpos)
    exact ⟨⟨q, hbytes⟩, hq, hvalue⟩
  · have hdiv : (2 ^ 256 - 1) / t'.value ≤ (2 ^ 256 - 1) / t.value := Nat.div_le_div_left hle (Nat.pos_of_ne_zero ht)
    rw [value_blockWork, value_blockWork, if_neg ht, if_neg (by omega)]
    omega

/-- A target of three parts in `2 ^ 24`. -/
def threeParts : Bytes32 := ⟨replicate 29 0 ++ [3, 0, 0], by decide, by decide⟩

theorem block_work_exact_threeParts : (blockWork threeParts).value = 5592406 ∧
    (∃ q : Bytes32, divU256 Bytes32.max.bytes threeParts.bytes = some q.bytes ∧ q.value = 5592405) ∧
    (blockWork Bytes32.max).value ≤ (blockWork threeParts).value := by
  obtain ⟨hwork, hquotient, hmono⟩ := block_work_exact
  refine ⟨(hwork threeParts (by decide)).trans ?_, hquotient Bytes32.max threeParts (by decide),
    hmono threeParts Bytes32.max (by decide) (by decide)⟩
  rw [Nat.ceilDiv_eq_add_pred_div]
  decide

/-! ### Fork choice -/

inductive ChainChoice where
  | a | b | equal
deriving DecidableEq, Repr

def workGt (a b : Bytes32) : Bool := le256Lt b.bytes a.bytes

/-- Hashes are compared as the numbers that their bytes spell, most significant first. -/
def chooseChainByWork (chainworkA : Bytes32) (hashA : ℕ) (chainworkB : Bytes32) (hashB : ℕ) : ChainChoice :=
  if workGt chainworkA chainworkB then .a
  else if workGt chainworkB chainworkA then .b
  else if hashA < hashB then .a
  else if hashB < hashA then .b
  else .equal

lemma workGt_iff {a b : Bytes32} : workGt a b = true ↔ b.value < a.value := le256Lt_iff b.isBytes a.isBytes

lemma chooseChainByWork_eq_a {wa wb : Bytes32} {ha hb : ℕ} :
    chooseChainByWork wa ha wb hb = .a ↔ wb.value < wa.value ∨ wa.value = wb.value ∧ ha < hb := by
  rw [chooseChainByWork]
  simp only [workGt_iff]
  split_ifs with h1 h2 h3 h4 <;> simp <;> omega

/-- Not to be preferred is transitive. -/
theorem not_preferred_trans {wa wb wc : Bytes32} {ha hb hc : ℕ} (h1 : chooseChainByWork wa ha wb hb ≠ .a)
    (h2 : chooseChainByWork wb hb wc hc ≠ .a) : chooseChainByWork wa ha wc hc ≠ .a := by
  rw [Ne, chooseChainByWork_eq_a] at h1 h2 ⊢
  omega

lemma eq_of_not_preferred {wa wb : Bytes32} {ha hb : ℕ} (h1 : chooseChainByWork wa ha wb hb ≠ .a)
    (h2 : chooseChainByWork wb hb wa ha ≠ .a) : wa = wb ∧ ha = hb := by
  rw [Ne, chooseChainByWork_eq_a] at h1 h2
  exact ⟨Bytes32.ext_value (by omega), by omega⟩

end Noid.Chain
