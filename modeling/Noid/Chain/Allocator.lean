import Mathlib.Data.List.Nodup
import Mathlib.Data.List.Perm.Subperm
import Mathlib.Data.Nat.ModEq
import Mathlib.Data.Nat.Prime.Basic

/-! # Slot hints

Wallets and miners look for free slots zone by zone: zone `z` is the segment `z * mul + add` modulo the number of zones,
with words that wrap.  The multiplier is odd, so a window of as many counters as there are slots visits every slot once. -/

namespace Noid.Chain

open List

/-- One step of the mixer: the output and the next state. -/
def splitmix64 (state : BitVec 64) : BitVec 64 × BitVec 64 :=
  let state := state + 0x9e3779b97f4a7c15#64
  let z := (state ^^^ (state >>> 30)) * 0xbf58476d1ce4e5b9#64
  let z := (z ^^^ (z >>> 27)) * 0x94d049bb133111eb#64
  (z ^^^ (z >>> 31), state)

def ZONE_CAPACITY : ℕ := 2 ^ 16

/-- The odd multiplier and the offset that a seed gives. -/
def zoneMap (seed : BitVec 64) : BitVec 64 × BitVec 64 :=
  let s := splitmix64 (seed ^^^ 0xD1B54A32D192ED03#64)
  (s.1 ||| 1#64, (splitmix64 s.2).1)

def permuteZone (zoneId numZones seed : BitVec 64) : BitVec 64 :=
  let mask := numZones - 1#64
  (zoneId * (zoneMap seed).1 + (zoneMap seed).2) &&& mask

def permSeed (logSlots : ℕ) : BitVec 64 := 0xA0761D6478BD642F#64 ^^^ (BitVec.ofNat 64 logSlots <<< 32)

/-- The hints of a state that is no larger than a zone. -/
def uniformHints (mask : BitVec 64) : BitVec 64 → ℕ → List ℕ
  | _, 0 => []
  | state, count + 1 =>
    let raw := splitmix64 state
    ((raw.1 &&& mask).toNat % 2 ^ 32) :: uniformHints mask raw.2 count

/-- The slot for one value of the counter. -/
def slotHint (logSlots counter : ℕ) : ℕ :=
  let numZones := 2 ^ logSlots / ZONE_CAPACITY
  let zoneSeg := (permuteZone (BitVec.ofNat 64 (counter / ZONE_CAPACITY)) (BitVec.ofNat 64 numZones) (permSeed logSlots)).toNat
  (zoneSeg * ZONE_CAPACITY + counter % ZONE_CAPACITY) % 2 ^ 32

def generateSlotHints (allocCounter logSlots count : ℕ) : List ℕ :=
  if 2 ^ logSlots ≤ ZONE_CAPACITY then uniformHints (BitVec.ofNat 64 (2 ^ logSlots - 1)) (BitVec.ofNat 64 allocCounter) count
  else (range count).map fun i => slotHint logSlots ((allocCounter + i) % 2 ^ 64)

def generateZoneSegmentHints (allocCounter logSlots count : ℕ) : List ℕ :=
  if count = 0 then []
  else if logSlots ≤ 16 then [0]
  else
    let numZones := 2 ^ (logSlots - 16)
    let firstZone := BitVec.ofNat 64 (allocCounter / ZONE_CAPACITY)
    (range (min count numZones)).map fun offset =>
      (permuteZone (firstZone + BitVec.ofNat 64 offset) (BitVec.ofNat 64 numZones) (permSeed logSlots)).toNat

/-! ### The zones are permuted -/

section
variable {k : ℕ} {seed : BitVec 64}

/-- The segment of a zone, without words. -/
theorem toNat_permuteZone (hk : k < 64) (zoneId : BitVec 64) :
    (permuteZone zoneId (BitVec.ofNat 64 (2 ^ k)) seed).toNat =
      (zoneId.toNat * (zoneMap seed).1.toNat + (zoneMap seed).2.toNat) % 2 ^ k := by
  have hpow : 2 ^ k < 2 ^ 64 := Nat.pow_lt_pow_right (by decide) hk
  have hmask : (BitVec.ofNat 64 (2 ^ k) - 1#64).toNat = 2 ^ k - 1 := by
    have := Nat.two_pow_pos k
    simp only [BitVec.toNat_sub, BitVec.toNat_ofNat, Nat.mod_eq_of_lt hpow]
    omega
  have hdvd : 2 ^ k ∣ 2 ^ 64 := Nat.pow_dvd_pow 2 hk.le
  unfold permuteZone
  generalize zoneMap seed = map
  rw [BitVec.toNat_and, hmask, Nat.and_two_pow_sub_one_eq_mod, BitVec.toNat_add, BitVec.toNat_mul,
    Nat.mod_mod_of_dvd _ hdvd, Nat.add_mod, Nat.mod_mod_of_dvd _ hdvd, ← Nat.add_mod]

lemma odd_zoneMap : (zoneMap seed).1.toNat % 2 = 1 := by
  simp only [zoneMap, BitVec.toNat_or]
  exact Nat.or_mod_two_eq_one.mpr (.inr rfl)

/-- **Zones are different segments** unless they agree modulo the number of zones. -/
theorem permuteZone_inj (hk : k < 64) {z z' : BitVec 64}
    (h : (permuteZone z (BitVec.ofNat 64 (2 ^ k)) seed).toNat = (permuteZone z' (BitVec.ofNat 64 (2 ^ k)) seed).toNat) :
    z.toNat % 2 ^ k = z'.toNat % 2 ^ k := by
  rw [toNat_permuteZone hk, toNat_permuteZone hk] at h
  have hodd : Nat.Coprime (2 ^ k) (zoneMap seed).1.toNat :=
    Nat.Coprime.pow_left k (Nat.coprime_two_left.mpr (Nat.odd_iff.mpr odd_zoneMap))
  exact Nat.ModEq.cancel_right_of_coprime hodd (Nat.ModEq.add_right_cancel' _ h)

end

/-- A list of as many different numbers below a bound as there are. -/
theorem perm_range_of_inj {n : ℕ} {f : ℕ → ℕ} (hlt : ∀ i < n, f i < n) (hinj : ∀ i < n, ∀ j < n, f i = f j → i = j) :
    ((range n).map f).Perm (range n) := by
  have hnodup : ((range n).map f).Nodup := by
    refine List.Nodup.map_on (fun i hi j hj => ?_) nodup_range
    exact hinj i (mem_range.mp hi) j (mem_range.mp hj)
  have hsub : (range n).map f ⊆ range n := by
    intro x hx
    obtain ⟨i, hi, rfl⟩ := mem_map.mp hx
    exact mem_range.mpr (hlt i (mem_range.mp hi))
  exact (hnodup.subperm hsub).perm_of_length_le (by simp)

section
variable {logSlots c i j : ℕ} (hlow : 17 ≤ logSlots) (hhigh : logSlots ≤ 32)
include hlow hhigh

lemma slotHint_spec : ∃ k < 64, logSlots = 16 + k ∧ slotHint logSlots c < 2 ^ logSlots ∧
    slotHint logSlots c % 2 ^ 16 = c % 2 ^ 16 ∧ slotHint logSlots c / 2 ^ 16 =
      (permuteZone (BitVec.ofNat 64 (c / 2 ^ 16)) (BitVec.ofNat 64 (2 ^ k)) (permSeed logSlots)).toNat := by
  obtain ⟨k, rfl⟩ : ∃ k, logSlots = 16 + k := ⟨logSlots - 16, by omega⟩
  have hk : k < 64 := by omega
  have hzones : 2 ^ (16 + k) / ZONE_CAPACITY = 2 ^ k := by
    rw [ZONE_CAPACITY, Nat.pow_add, Nat.mul_div_cancel_left _ (by decide)]
  have hseg := @toNat_permuteZone _ (permSeed (16 + k)) hk (BitVec.ofNat 64 (c / 2 ^ 16))
  have hsmall := Nat.mod_lt ((BitVec.ofNat 64 (c / 2 ^ 16)).toNat * (zoneMap (permSeed (16 + k))).1.toNat +
    (zoneMap (permSeed (16 + k))).2.toNat) (Nat.two_pow_pos k)
  rw [← hseg] at hsmall
  have hoff := Nat.mod_lt c (show 0 < 2 ^ 16 by decide)
  have hpow : 2 ^ (16 + k) = 2 ^ k * 2 ^ 16 := by rw [Nat.pow_add, Nat.mul_comm]
  have hword : 2 ^ (16 + k) ≤ 2 ^ 32 := Nat.pow_le_pow_right (by decide) hhigh
  refine ⟨k, hk, rfl, ?_⟩
  rw [slotHint]
  simp only [hzones]
  unfold ZONE_CAPACITY
  generalize (permuteZone (BitVec.ofNat 64 (c / 2 ^ 16)) (BitVec.ofNat 64 (2 ^ k)) (permSeed (16 + k))).toNat = seg at *
  have hslot : seg * 2 ^ 16 + c % 2 ^ 16 < 2 ^ k * 2 ^ 16 := by
    have := Nat.mul_le_mul_right (2 ^ 16) (Nat.succ_le_of_lt hsmall)
    omega
  rw [Nat.mod_eq_of_lt (show seg * 2 ^ 16 + c % 2 ^ 16 < 2 ^ 32 by omega)]
  omega

lemma slotHint_inj (hi : i < 2 ^ logSlots) (hj : j < 2 ^ logSlots) (hc : c + 2 ^ logSlots < 2 ^ 64)
    (h : slotHint logSlots (c + i) = slotHint logSlots (c + j)) : i = j := by
  obtain ⟨k, hk, hlog, -, hoff, hseg⟩ := slotHint_spec hlow hhigh (c := c + i)
  obtain ⟨k', -, hlog', -, hoff', hseg'⟩ := slotHint_spec hlow hhigh (c := c + j)
  obtain rfl : k = k' := by omega
  rw [h] at hoff hseg
  have hzone := permuteZone_inj hk (hseg.symm.trans hseg')
  have hword : ∀ n < 2 ^ logSlots, (BitVec.ofNat 64 ((c + n) / 2 ^ 16)).toNat = (c + n) / 2 ^ 16 := fun n hn => by
    rw [BitVec.toNat_ofNat]
    exact Nat.mod_eq_of_lt (by omega)
  rw [hword i hi, hword j hj] at hzone
  -- the counters agree modulo the number of slots, and they are less than that apart
  have hmod : (c + i) % 2 ^ logSlots = (c + j) % 2 ^ logSlots := by
    rw [hlog, Nat.pow_add, Nat.mod_mul, Nat.mod_mul, hzone, ← hoff, ← hoff']
  have hadd : i ≡ j [MOD 2 ^ logSlots] := Nat.ModEq.add_left_cancel' c hmod
  exact hadd.eq_of_lt_of_lt hi hj

end

/-- **Slot hints cover the domain**: a whole window every slot once, all zones every segment once. -/
theorem slot_hints_cover {logSlots : ℕ} (hlow : 17 ≤ logSlots) (hhigh : logSlots ≤ 32) :
    (∀ c, c + 2 ^ logSlots < 2 ^ 64 →
        (generateSlotHints c logSlots (2 ^ logSlots)).Perm (range (2 ^ logSlots))) ∧
      ∀ c count, 2 ^ (logSlots - 16) ≤ count →
        (generateZoneSegmentHints c logSlots count).Perm (range (2 ^ (logSlots - 16))) := by
  have hzone : ¬2 ^ logSlots ≤ ZONE_CAPACITY := by
    have := Nat.pow_le_pow_right (show 0 < 2 by decide) hlow
    unfold ZONE_CAPACITY
    omega
  refine ⟨fun c hc => ?_, fun c count hcount => ?_⟩
  · have hword : ∀ i < 2 ^ logSlots, (c + i) % 2 ^ 64 = c + i := fun i hi => Nat.mod_eq_of_lt (by omega)
    rw [generateSlotHints, if_neg hzone]
    refine perm_range_of_inj (fun i hi => ?_) (fun i hi j hj h => ?_)
    · obtain ⟨-, -, -, hlt, -⟩ := slotHint_spec hlow hhigh (c := (c + i) % 2 ^ 64)
      exact hlt
    · rw [hword i hi, hword j hj] at h
      exact slotHint_inj hlow hhigh hi hj hc h
  · have hk : logSlots - 16 < 64 := by omega
    have hpos := Nat.two_pow_pos (logSlots - 16)
    have hdvd : 2 ^ (logSlots - 16) ∣ 2 ^ 64 := Nat.pow_dvd_pow 2 hk.le
    rw [generateZoneSegmentHints, if_neg (by omega), if_neg (by omega)]
    simp only [min_eq_right hcount]
    refine perm_range_of_inj (fun i _ => ?_) (fun i hi j hj h => ?_)
    · rw [toNat_permuteZone hk]
      exact Nat.mod_lt _ hpos
    · have hmod := permuteZone_inj hk h
      simp only [BitVec.toNat_add, BitVec.toNat_ofNat, Nat.mod_mod_of_dvd _ hdvd, Nat.add_mod_mod] at hmod
      exact (Nat.ModEq.add_left_cancel' _ hmod).eq_of_lt_of_lt hi hj

/-- At the genesis size, from the middle of a zone. -/
theorem slot_hints_cover_genesis : (generateZoneSegmentHints (193 * 65536 + 17) 24 300).Perm (range 256) :=
  (slot_hints_cover (by decide) (by decide)).2 _ 300 (by decide)

end Noid.Chain
