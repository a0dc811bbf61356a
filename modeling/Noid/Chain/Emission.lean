import Mathlib.Algebra.BigOperators.Ring.Finset
import Noid.Lib.Accrual
import Noid.Chain.SlotExpansion

/-! # Emission and the development allocation

From the activation of the second version on the reward depends on the blocks since then, before on the capacity of the
state.  During the allocation period miners receive nine tenths of it, and two funds are paid one twentieth each: once a
day, at the reward of the paying block, for all blocks of the day.  At the activation the running day is dropped; the last
block of the period pays the rest. -/

namespace Noid.Chain

open Noid.Lib

def BLOCK_TIME : ℕ := 20

def V2_BLOCK_TIME : ℕ := 30

/-! ### Fork schedules -/

/-- The second version begins with a successor of a block. -/
structure V2Activation where
  height : ℕ
  blockTime : ℕ
  height_pos : 0 < height
  blockTime_pos : 0 < blockTime
deriving DecidableEq

def V2Activation.new (height blockTime : ℕ) : Option V2Activation :=
  if h : 0 < height ∧ 0 < blockTime then some ⟨height, blockTime, h.1, h.2⟩ else none

structure ForkSchedule where
  v11 : Option ℕ
  v2 : Option V2Activation
  ordered : ∀ a, v2 = some a → ∃ first, v11 = some first ∧ first ≤ a.height
deriving DecidableEq

namespace ForkSchedule

def new (v11 : Option ℕ) (v2 : Option V2Activation) : Option ForkSchedule :=
  match v11, v2 with
  | some first, some second =>
    if h : first ≤ second.height then
      some ⟨some first, some second, fun _ ha => ⟨first, rfl, by cases ha; exact h⟩⟩
    else none
  | first, none => some ⟨first, none, fun _ ha => by cases ha⟩
  | none, some _ => none

/-- The activation that governs a height. -/
def v2At (s : ForkSchedule) (height : ℕ) : Option V2Activation := s.v2.filter fun a => a.height ≤ height

end ForkSchedule

/-! ### Rewards -/

def MICRONOID_PER_NOID : ℕ := 1000000

def BASE_REWARD_MICRONOID : ℕ := 50 * MICRONOID_PER_NOID

def FLOOR_REWARD_MICRONOID : ℕ := MICRONOID_PER_NOID

def V2_REWARD_INTERVAL_BLOCKS : ℕ := 1051200

def V2_REWARDS_MICRONOID : Vector ℕ 9 :=
  #v[16000000, 11300000, 8000000, 5650000, 4000000, 2830000, 2000000, 1410000, 1000000]

def v2BlockRewardAtElapsed (elapsedBlocks : ℕ) : ℕ :=
  V2_REWARDS_MICRONOID.get ⟨min (elapsedBlocks / V2_REWARD_INTERVAL_BLOCKS) 8, Nat.lt_succ_of_le (Nat.min_le_right _ _)⟩

/-- The reward after a number of expansions; each one halves it. -/
def rewardAfter (expansions : ℕ) : ℕ :=
  max (if expansions < 64 then BASE_REWARD_MICRONOID >>> expansions else 0) FLOOR_REWARD_MICRONOID

/-- The reward before the second version. -/
def blockReward (logSlots : ℕ) : ℕ := rewardAfter (logSlots - LOG_SLOTS_GENESIS)

def blockRewardWithSchedule (height logSlots : ℕ) (s : ForkSchedule) : ℕ :=
  match s.v2At height with
  | some a => v2BlockRewardAtElapsed (height - a.height)
  | none => blockReward logSlots

/-! ### The allocation -/

def TARGET_BLOCKS_PER_DAY : ℕ := 24 * 60 * 60 / BLOCK_TIME

def DEVELOPMENT_ALLOCATION_END_HEIGHT : ℕ := TARGET_BLOCKS_PER_DAY * 365 * 3

def DEVELOPMENT_ALLOCATION_DURATION_SECONDS : ℕ := 86400 * 365 * 3

def DEVELOPMENT_SHARE_DENOMINATOR : ℕ := 20

structure DevelopmentAllocation where
  active : Bool
  payoutDue : Bool
  shareEach : ℕ
  payoutEach : Option ℕ
  minerSubsidy : ℕ
deriving DecidableEq, Repr

inductive DevelopmentAllocationError where
  | inexactRewardShare | payoutOverflow | inexactInterval
deriving DecidableEq, Repr

def developmentAllocationEndHeightWithSchedule (s : ForkSchedule) : ℕ :=
  match s.v2 with
  | none => DEVELOPMENT_ALLOCATION_END_HEIGHT
  | some a =>
    if DEVELOPMENT_ALLOCATION_END_HEIGHT < a.height then DEVELOPMENT_ALLOCATION_END_HEIGHT
    else
      let legacyBlocks := a.height - 1
      let remaining := DEVELOPMENT_ALLOCATION_DURATION_SECONDS - legacyBlocks * BLOCK_TIME
      legacyBlocks + remaining / a.blockTime

def developmentAllocationActive (height : ℕ) : Bool :=
  decide (0 < height ∧ height ≤ DEVELOPMENT_ALLOCATION_END_HEIGHT)

def developmentPayoutDue (height : ℕ) : Bool :=
  developmentAllocationActive height && decide (height % TARGET_BLOCKS_PER_DAY = 0)

def developmentShareEach (subsidy : ℕ) : Except DevelopmentAllocationError ℕ := do
  require (subsidy % DEVELOPMENT_SHARE_DENOMINATOR = 0) .inexactRewardShare
  return subsidy / DEVELOPMENT_SHARE_DENOMINATOR

/-- A payout of a number of shares. -/
def payoutOf (shareEach : ℕ) : Option ℕ → Except DevelopmentAllocationError (Option ℕ)
  | some count => some <$> checked .payoutOverflow (shareEach * count)
  | none => .ok none

/-- The allocation of a block outside the period. -/
def DevelopmentAllocation.inactive (subsidy : ℕ) : DevelopmentAllocation where
  active := false
  payoutDue := false
  shareEach := 0
  payoutEach := none
  minerSubsidy := subsidy

/-- The allocation before the second version. -/
def developmentAllocation (childHeight childLogSlots : ℕ) : Except DevelopmentAllocationError DevelopmentAllocation :=
  let subsidy := blockReward childLogSlots
  if ¬developmentAllocationActive childHeight then .ok (.inactive subsidy)
  else do
    let shareEach ← developmentShareEach subsidy
    let payoutDue := developmentPayoutDue childHeight
    let payoutEach ← payoutOf shareEach (if payoutDue then some TARGET_BLOCKS_PER_DAY else none)
    return { active := true, payoutDue := payoutDue, shareEach := shareEach, payoutEach := payoutEach
             minerSubsidy := subsidy - 2 * shareEach }

/-- The number of shares that a block of the second version pays. -/
def v2PayoutCount (a : V2Activation) (endHeight height : ℕ) : Option ℕ :=
  let interval := 86400 / a.blockTime
  let elapsed := height - (a.height - 1)
  if height = a.height then none
  else if elapsed % interval = 0 then some interval
  else if height = endHeight then some (elapsed % interval)
  else none

def developmentAllocationWithSchedule (height logSlots : ℕ) (s : ForkSchedule) :
    Except DevelopmentAllocationError DevelopmentAllocation :=
  match s.v2At height with
  | none => developmentAllocation height logSlots
  | some a => do
    require (86400 % a.blockTime = 0) .inexactInterval
    let subsidy := blockRewardWithSchedule height logSlots s
    let endHeight := developmentAllocationEndHeightWithSchedule s
    if endHeight < height then return .inactive subsidy
    let shareEach ← developmentShareEach subsidy
    let count := v2PayoutCount a endHeight height
    let payoutEach ← payoutOf shareEach count
    return { active := true, payoutDue := count.isSome, shareEach := shareEach, payoutEach := payoutEach
             minerSubsidy := subsidy - 2 * shareEach }

/-! ### Rewards never grow -/

lemma rewardAfter_of_le {e : ℕ} (h : 6 ≤ e) : rewardAfter e = rewardAfter 6 := by
  have hshift : BASE_REWARD_MICRONOID >>> e ≤ FLOOR_REWARD_MICRONOID := by
    rw [Nat.shiftRight_eq_div_pow]
    calc BASE_REWARD_MICRONOID / 2 ^ e ≤ BASE_REWARD_MICRONOID / 2 ^ 6 :=
          Nat.div_le_div_left (Nat.pow_le_pow_right (by decide) h) (by decide)
      _ ≤ FLOOR_REWARD_MICRONOID := by decide
  have hsix : rewardAfter 6 = FLOOR_REWARD_MICRONOID := by decide
  rw [hsix, rewardAfter]
  split_ifs with hlt
  · exact max_eq_right hshift
  · exact max_eq_right (Nat.zero_le _)

/-- There are seven different rewards. -/
theorem rewardAfter_eq (e : ℕ) : rewardAfter e = rewardAfter (min e 6) := by
  rcases le_total e 6 with hle | hle
  · rw [min_eq_left hle]
  · rw [min_eq_right hle, rewardAfter_of_le hle]

lemma blockReward_mod (n : ℕ) : blockReward n % DEVELOPMENT_SHARE_DENOMINATOR = 0 := by
  have hall : ∀ e < 7, rewardAfter e % DEVELOPMENT_SHARE_DENOMINATOR = 0 := by decide
  rw [blockReward, rewardAfter_eq]
  exact hall _ (by omega)

lemma blockReward_antitone {m n : ℕ} (h : m ≤ n) : blockReward n ≤ blockReward m := by
  have hall : ∀ i < 7, ∀ j < 7, i ≤ j → rewardAfter j ≤ rewardAfter i := by decide
  rw [blockReward, blockReward, rewardAfter_eq (n - _), rewardAfter_eq (m - _)]
  exact hall _ (by omega) _ (by omega) (by omega)

lemma blockReward_le (n : ℕ) : blockReward n ≤ BASE_REWARD_MICRONOID := by
  have hall : ∀ e < 7, rewardAfter e ≤ BASE_REWARD_MICRONOID := by decide
  rw [blockReward, rewardAfter_eq]
  exact hall _ (by omega)

lemma v2Reward_mod (elapsed : ℕ) : v2BlockRewardAtElapsed elapsed % DEVELOPMENT_SHARE_DENOMINATOR = 0 := by
  have hall : ∀ i : Fin 9, V2_REWARDS_MICRONOID.get i % DEVELOPMENT_SHARE_DENOMINATOR = 0 := by decide
  exact hall _

lemma v2Reward_antitone {m n : ℕ} (h : m ≤ n) : v2BlockRewardAtElapsed n ≤ v2BlockRewardAtElapsed m := by
  have hall : ∀ i j : Fin 9, i ≤ j → V2_REWARDS_MICRONOID.get j ≤ V2_REWARDS_MICRONOID.get i := by decide
  refine hall _ _ ?_
  exact min_le_min_right _ (Nat.div_le_div_right h)

lemma v2Reward_le (elapsed : ℕ) : v2BlockRewardAtElapsed elapsed ≤ BASE_REWARD_MICRONOID := by
  have hall : ∀ i : Fin 9, V2_REWARDS_MICRONOID.get i ≤ BASE_REWARD_MICRONOID := by decide
  exact hall _

section
variable {s : ForkSchedule} {a : V2Activation} {height : ℕ}

lemma v2At_eq_some : s.v2At height = some a ↔ s.v2 = some a ∧ a.height ≤ height := by
  simp [ForkSchedule.v2At, Option.filter_eq_some_iff]

lemma v2At_mono {height' : ℕ} (h : s.v2At height = some a) (hle : height ≤ height') : s.v2At height' = some a := by
  rw [v2At_eq_some] at h ⊢
  exact ⟨h.1, h.2.trans hle⟩

lemma v2At_eq_none_of_le {height' : ℕ} (h : s.v2At height = none) (hle : height' ≤ height) : s.v2At height' = none := by
  cases hv : s.v2At height' with
  | none => rfl
  | some a => rw [v2At_mono hv hle] at h; cases h

lemma rewardWithSchedule_of_some (h : s.v2At height = some a) (logSlots : ℕ) :
    blockRewardWithSchedule height logSlots s = v2BlockRewardAtElapsed (height - a.height) := by
  rw [blockRewardWithSchedule, h]

lemma rewardWithSchedule_of_none (h : s.v2At height = none) (logSlots : ℕ) :
    blockRewardWithSchedule height logSlots s = blockReward logSlots := by
  rw [blockRewardWithSchedule, h]

lemma rewardWithSchedule_mod (height logSlots : ℕ) (s : ForkSchedule) :
    blockRewardWithSchedule height logSlots s % DEVELOPMENT_SHARE_DENOMINATOR = 0 := by
  cases h : s.v2At height with
  | some a => rw [rewardWithSchedule_of_some h]; exact v2Reward_mod _
  | none => rw [rewardWithSchedule_of_none h]; exact blockReward_mod _

lemma rewardWithSchedule_le (height logSlots : ℕ) (s : ForkSchedule) :
    blockRewardWithSchedule height logSlots s ≤ BASE_REWARD_MICRONOID := by
  cases h : s.v2At height with
  | some a => rw [rewardWithSchedule_of_some h]; exact v2Reward_le _
  | none => rw [rewardWithSchedule_of_none h]; exact blockReward_le _

/-! ### Shares and payouts -/

/-- The share of a block: one twentieth of its reward in the allocation period. -/
def periodShare (s : ForkSchedule) (height logSlots : ℕ) : ℕ :=
  if height ≤ developmentAllocationEndHeightWithSchedule s then
    blockRewardWithSchedule height logSlots s / DEVELOPMENT_SHARE_DENOMINATOR
  else 0

/-- The number of shares that a block pays. -/
def payoutCount (s : ForkSchedule) (height : ℕ) : ℕ :=
  match s.v2At height with
  | none => if developmentPayoutDue height then TARGET_BLOCKS_PER_DAY else 0
  | some a =>
    let endHeight := developmentAllocationEndHeightWithSchedule s
    if endHeight < height then 0 else (v2PayoutCount a endHeight height).getD 0

/-- The blocks of the running day that are not paid yet. -/
def unpaidBlocks (s : ForkSchedule) (height : ℕ) : ℕ :=
  match s.v2At height with
  | none => if height < DEVELOPMENT_ALLOCATION_END_HEIGHT then height % TARGET_BLOCKS_PER_DAY else 0
  | some a =>
    if height < developmentAllocationEndHeightWithSchedule s then
      (height - (a.height - 1)) % (86400 / a.blockTime)
    else 0

/-- Before the second version the period is the legacy one. -/
theorem le_endHeight_iff (h : s.v2At height = none) :
    height ≤ developmentAllocationEndHeightWithSchedule s ↔ height ≤ DEVELOPMENT_ALLOCATION_END_HEIGHT := by
  unfold developmentAllocationEndHeightWithSchedule
  cases hv : s.v2 with
  | none => rfl
  | some a =>
    have hlt : height < a.height := by
      by_contra hle
      rw [v2At_eq_some.mpr ⟨hv, not_lt.mp hle⟩] at h
      cases h
    dsimp only
    split_ifs with hlate
    · rfl
    · have hle : height ≤ a.height - 1 := by omega
      exact iff_of_true (hle.trans (Nat.le_add_right _ _)) (by omega)

lemma developmentShareEach_eq {subsidy : ℕ} (h : subsidy % DEVELOPMENT_SHARE_DENOMINATOR = 0) :
    developmentShareEach subsidy = .ok (subsidy / DEVELOPMENT_SHARE_DENOMINATOR) := by
  rw [developmentShareEach, require_bind h]
  rfl

/-- A payout of at most a day of shares fits. -/
theorem payoutOf_eq {share : ℕ} (hshare : share ≤ 2500000) {count : Option ℕ} (hcount : count.getD 0 ≤ 86400) :
    ∃ payout, payoutOf share count = .ok payout ∧ payout.getD 0 = count.getD 0 * share := by
  cases count with
  | none => exact ⟨none, rfl, (Nat.zero_mul _).symm⟩
  | some n =>
    have hle : share * n ≤ 2500000 * 86400 := Nat.mul_le_mul hshare hcount
    refine ⟨some (share * n), ?_, Nat.mul_comm _ _⟩
    rw [payoutOf, checked_of_lt _ (hle.trans_lt (by decide))]
    rfl

lemma interval_pos (h : 86400 % a.blockTime = 0) : 0 < 86400 / a.blockTime :=
  Nat.div_pos (Nat.le_of_dvd (by decide) (Nat.dvd_of_mod_eq_zero h)) a.blockTime_pos

lemma v2PayoutCount_le (hdiv : 86400 % a.blockTime = 0) (endHeight height : ℕ) :
    (v2PayoutCount a endHeight height).getD 0 ≤ 86400 := by
  have hinterval : 86400 / a.blockTime ≤ 86400 := Nat.div_le_self _ _
  simp only [v2PayoutCount]
  split_ifs with h1 h2 h3
  · exact Nat.zero_le _
  · exact hinterval
  · exact (Nat.mod_lt _ (interval_pos hdiv)).le.trans hinterval
  · exact Nat.zero_le _

lemma periodShare_le (s : ForkSchedule) (height logSlots : ℕ) : periodShare s height logSlots ≤ 2500000 := by
  unfold periodShare
  split_ifs
  · exact Nat.div_le_div_right (rewardWithSchedule_le height logSlots s)
  · exact Nat.zero_le _

/-- **What a block issues**: the reward less two shares to the miner, and shares to each fund. -/
theorem allocation_eq (logSlots : ℕ) (hdiv : ∀ a, s.v2 = some a → 86400 % a.blockTime = 0) (hheight : 0 < height) :
    ∃ allocation, developmentAllocationWithSchedule height logSlots s = .ok allocation ∧
      allocation.minerSubsidy + 2 * periodShare s height logSlots = blockRewardWithSchedule height logSlots s ∧
      allocation.payoutEach.getD 0 = payoutCount s height * periodShare s height logSlots := by
  have hmod := rewardWithSchedule_mod height logSlots s
  have hshare := periodShare_le s height logSlots
  have htwo : 2 * (blockRewardWithSchedule height logSlots s / DEVELOPMENT_SHARE_DENOMINATOR) ≤
      blockRewardWithSchedule height logSlots s := by
    unfold DEVELOPMENT_SHARE_DENOMINATOR
    omega
  cases hv : s.v2At height with
  | none =>
    have hreward := rewardWithSchedule_of_none hv logSlots
    have hcount : payoutCount s height = if developmentPayoutDue height then TARGET_BLOCKS_PER_DAY else 0 := by
      rw [payoutCount, hv]
    rw [developmentAllocationWithSchedule, hv]
    dsimp only [developmentAllocation]
    rw [← hreward]
    by_cases hactive : height ≤ DEVELOPMENT_ALLOCATION_END_HEIGHT
    · have hperiod : periodShare s height logSlots =
          blockRewardWithSchedule height logSlots s / DEVELOPMENT_SHARE_DENOMINATOR := by
        rw [periodShare, if_pos ((le_endHeight_iff hv).mpr hactive)]
      have hon : developmentAllocationActive height = true := decide_eq_true ⟨hheight, hactive⟩
      rw [← hperiod] at htwo
      have hday : (if developmentPayoutDue height then some TARGET_BLOCKS_PER_DAY else none).getD 0 ≤ 86400 := by
        split_ifs <;> decide
      obtain ⟨payout, hpayout, hpaid⟩ := payoutOf_eq hshare hday
      rw [if_neg (not_not.mpr hon), bind_of_ok (developmentShareEach_eq hmod), ← hperiod, bind_of_ok hpayout]
      refine ⟨_, rfl, Nat.sub_add_cancel htwo, ?_⟩
      rw [hcount, hpaid]
      split_ifs <;> rfl
    · have hoff : developmentAllocationActive height = false := decide_eq_false fun h => hactive h.2
      have hperiod : periodShare s height logSlots = 0 := by
        rw [periodShare, if_neg fun h => hactive ((le_endHeight_iff hv).mp h)]
      rw [if_pos (by rw [hoff]; exact Bool.false_ne_true), hperiod]
      exact ⟨_, rfl, rfl, rfl⟩
  | some a =>
    have ha := v2At_eq_some.mp hv
    rw [developmentAllocationWithSchedule, hv]
    dsimp only
    rw [require_bind (hdiv a ha.1)]
    by_cases hactive : developmentAllocationEndHeightWithSchedule s < height
    · have hperiod : periodShare s height logSlots = 0 := by rw [periodShare, if_neg (not_le.mpr hactive)]
      rw [if_pos hactive, hperiod]
      exact ⟨_, rfl, rfl, rfl⟩
    · have hperiod : periodShare s height logSlots =
          blockRewardWithSchedule height logSlots s / DEVELOPMENT_SHARE_DENOMINATOR := by
        rw [periodShare, if_pos (not_lt.mp hactive)]
      rw [← hperiod] at htwo
      obtain ⟨payout, hpayout, hpaid⟩ := payoutOf_eq hshare
        (v2PayoutCount_le (hdiv a ha.1) (developmentAllocationEndHeightWithSchedule s) height)
      rw [if_neg hactive, bind_of_ok (developmentShareEach_eq hmod), ← hperiod, bind_of_ok hpayout]
      refine ⟨_, rfl, Nat.sub_add_cancel htwo, ?_⟩
      rw [payoutCount, hv, hpaid]
      dsimp only
      rw [if_neg hactive]

/-- A day ends when its last block is paid. -/
theorem mod_succ_add (x : ℕ) {n : ℕ} (hn : 0 < n) : (x + 1) % n + (if (x + 1) % n = 0 then n else 0) = x % n + 1 := by
  have hlt := Nat.mod_lt x hn
  have hmod : (x + 1) % n = (x % n + 1) % n := by rw [Nat.mod_add_mod]
  rcases Nat.lt_or_ge (x % n + 1) n with hlt' | hge
  · rw [hmod, Nat.mod_eq_of_lt hlt', if_neg (Nat.succ_ne_zero _), Nat.add_zero]
  · have heq : x % n + 1 = n := by omega
    rw [hmod, heq, Nat.mod_self, if_pos rfl, Nat.zero_add]

lemma unpaidBlocks_step_legacy (h : s.v2At (height + 1) = none) :
    unpaidBlocks s (height + 1) + payoutCount s (height + 1) ≤ unpaidBlocks s height + 1 := by
  have h' := v2At_eq_none_of_le h (Nat.le_succ height)
  rw [unpaidBlocks, unpaidBlocks, payoutCount, h, h']
  have hday := mod_succ_add height (n := TARGET_BLOCKS_PER_DAY) (by decide)
  unfold developmentPayoutDue developmentAllocationActive
  by_cases hactive : height + 1 ≤ DEVELOPMENT_ALLOCATION_END_HEIGHT
  · have hpos : 0 < height + 1 := Nat.succ_pos _
    rw [if_pos (by omega : height < DEVELOPMENT_ALLOCATION_END_HEIGHT)]
    simp only [hactive, hpos, and_self, decide_true, Bool.true_and, decide_eq_true_eq]
    rcases hactive.lt_or_eq with hlt | heq
    · rw [if_pos hlt]
      exact hday.le
    · rw [if_neg (by omega), Nat.zero_add]
      omega
  · rw [if_neg (by omega : ¬height + 1 < _)]
    simp [hactive]

lemma unpaidBlocks_step_v2 (hdiv : 86400 % a.blockTime = 0) (h : s.v2At (height + 1) = some a) :
    unpaidBlocks s (height + 1) + payoutCount s (height + 1) ≤ unpaidBlocks s height + 1 := by
  have hpos := interval_pos hdiv
  rw [unpaidBlocks, payoutCount, h]
  dsimp only
  by_cases hlate : developmentAllocationEndHeightWithSchedule s < height + 1
  · rw [if_pos hlate, if_neg (by omega)]
    exact Nat.zero_le _
  · rw [if_neg hlate]
    by_cases hfirst : height + 1 = a.height
    · -- the day of the old version is dropped
      have hone : height + 1 - (a.height - 1) = 1 := by
        omega
      have hcount : v2PayoutCount a (developmentAllocationEndHeightWithSchedule s) (height + 1) = none := by
        simp only [v2PayoutCount, if_pos hfirst]
      rw [hcount, hone]
      have hmod : 1 % (86400 / a.blockTime) ≤ 1 := Nat.mod_le _ _
      split_ifs
      · simpa using hmod.trans (Nat.le_add_left _ _)
      · simp
    · have ha := (v2At_eq_some.mp h)
      have hbefore : s.v2At height = some a := v2At_eq_some.mpr ⟨ha.1, by omega⟩
      have helapsed : height + 1 - (a.height - 1) = (height - (a.height - 1)) + 1 := by
        omega
      have hday := mod_succ_add (height - (a.height - 1)) hpos
      rw [unpaidBlocks, hbefore]
      simp only [v2PayoutCount, if_neg hfirst, helapsed]
      split_ifs at hday ⊢ with hend hzero hzero' <;> simp only [Option.getD_some, Option.getD_none] <;> omega

/-- Shares do not grow before the second version. -/
theorem periodShare_le_legacy {log : ℕ → ℕ} (hlog : ∀ h h', 1 ≤ h → h ≤ h' → log h ≤ log h') {h h' : ℕ}
    (hv : s.v2At h' = none) (hpos : 1 ≤ h) (hle : h ≤ h') : periodShare s h' (log h') ≤ periodShare s h (log h) := by
  have hv' := v2At_eq_none_of_le hv hle
  unfold periodShare
  split_ifs with hend' hend
  · rw [rewardWithSchedule_of_none hv, rewardWithSchedule_of_none hv']
    exact Nat.div_le_div_right (blockReward_antitone (hlog h h' hpos hle))
  · exact absurd (hle.trans hend') hend
  · exact Nat.zero_le _
  · exact le_rfl

/-- Shares do not grow in the second version. -/
theorem periodShare_le_v2 (log : ℕ → ℕ) {h h' : ℕ} (hv : s.v2At h = some a) (hle : h ≤ h') :
    periodShare s h' (log h') ≤ periodShare s h (log h) := by
  have hv' := v2At_mono hv hle
  unfold periodShare
  split_ifs with hend' hend
  · rw [rewardWithSchedule_of_some hv, rewardWithSchedule_of_some hv']
    exact Nat.div_le_div_right (v2Reward_antitone (Nat.sub_le_sub_right hle _))
  · exact absurd (hle.trans hend') hend
  · exact Nat.zero_le _
  · exact le_rfl

/-- The development shares are deferred shares. -/
theorem issuance_accrual (hdiv : ∀ a, s.v2 = some a → 86400 % a.blockTime = 0) {log : ℕ → ℕ}
    (hlog : ∀ h h', 1 ≤ h → h ≤ h' → log h ≤ log h') :
    Accrual (fun h => periodShare s h (log h)) (payoutCount s) (unpaidBlocks s) := by
  refine ⟨?_, ?_, ?_⟩
  · cases hv : s.v2At 0 with
    | none =>
      rw [unpaidBlocks, hv]
      rfl
    | some a => exact absurd (v2At_eq_some.mp hv).2 (not_le.mpr a.height_pos)
  · intro h
    cases hv : s.v2At (h + 1) with
    | none => exact unpaidBlocks_step_legacy hv
    | some a => exact unpaidBlocks_step_v2 (hdiv a (v2At_eq_some.mp hv).1) hv
  · intro h hcount i hi
    cases hv : s.v2At (h + 1) with
    | none =>
      have hmod : i ≤ h := by
        refine hi.trans ?_
        rw [unpaidBlocks, v2At_eq_none_of_le hv (Nat.le_succ h)]
        dsimp only
        split_ifs
        · exact Nat.mod_le _ _
        · exact Nat.zero_le _
      exact periodShare_le_legacy hlog hv (by omega) (by omega)
    | some a =>
      have ha := v2At_eq_some.mp hv
      -- the first block of the second version pays nothing
      have hne : h + 1 ≠ a.height := by
        intro heq
        rw [payoutCount, hv] at hcount
        simp [v2PayoutCount, heq] at hcount
      have hmod : i ≤ h - (a.height - 1) := by
        refine hi.trans ?_
        rw [unpaidBlocks, v2At_eq_some.mpr ⟨ha.1, (by omega : a.height ≤ h)⟩]
        dsimp only
        split_ifs
        · exact Nat.mod_le _ _
        · exact Nat.zero_le _
      exact periodShare_le_v2 log (v2At_eq_some.mpr ⟨ha.1, by omega⟩) (by omega)

/-- **Issuance bound**: the allocation is defined, and all together receive at most the scheduled rewards. -/
theorem issuance_le_rewards {v11 : Option ℕ} {v2 : Option V2Activation} (hs : ForkSchedule.new v11 v2 = some s)
    (hdiv : ∀ a, v2 = some a → 86400 % a.blockTime = 0) {log : ℕ → ℕ}
    (hlog : ∀ h h', 1 ≤ h → h ≤ h' → log h ≤ log h') :
    ∃ allocation : ℕ → DevelopmentAllocation,
      (∀ h, 1 ≤ h → developmentAllocationWithSchedule h (log h) s = .ok (allocation h)) ∧
      ∀ H, ∑ h ∈ Finset.Icc 1 H, ((allocation h).minerSubsidy + 2 * (allocation h).payoutEach.getD 0) ≤
        ∑ h ∈ Finset.Icc 1 H, blockRewardWithSchedule h (log h) s := by
  have hv2 : s.v2 = v2 := by
    cases v2 with
    | none => cases v11 <;> (cases hs; rfl)
    | some a =>
      cases v11 with
      | none => cases hs
      | some first =>
        simp only [ForkSchedule.new] at hs
        split_ifs at hs
        cases hs
        rfl
  rw [← hv2] at hdiv
  have hspec : ∀ h, ∃ allocation, 1 ≤ h → developmentAllocationWithSchedule h (log h) s = .ok allocation ∧
      allocation.minerSubsidy + 2 * periodShare s h (log h) = blockRewardWithSchedule h (log h) s ∧
      allocation.payoutEach.getD 0 = payoutCount s h * periodShare s h (log h) := by
    intro h
    rcases Nat.eq_zero_or_pos h with rfl | hpos
    · exact ⟨.inactive 0, fun hzero => absurd hzero (by decide)⟩
    · obtain ⟨allocation, hallocation⟩ := allocation_eq (log h) hdiv hpos
      exact ⟨allocation, fun _ => hallocation⟩
  choose allocation hallocation using hspec
  refine ⟨allocation, fun h hh => (hallocation h hh).1, fun H => ?_⟩
  have hpaid := (issuance_accrual hdiv hlog).paid_le H
  have hissued : ∑ h ∈ Finset.Icc 1 H, ((allocation h).minerSubsidy + 2 * (allocation h).payoutEach.getD 0) +
      2 * ∑ h ∈ Finset.Icc 1 H, periodShare s h (log h) =
      ∑ h ∈ Finset.Icc 1 H, blockRewardWithSchedule h (log h) s +
        2 * ∑ h ∈ Finset.Icc 1 H, payoutCount s h * periodShare s h (log h) := by
    rw [Finset.mul_sum, Finset.mul_sum, ← Finset.sum_add_distrib, ← Finset.sum_add_distrib]
    refine Finset.sum_congr rfl fun h hh => ?_
    obtain ⟨-, hminer, hpayout⟩ := hallocation h (Finset.mem_Icc.mp hh).1
    omega
  omega

end

/-- The mainnet schedule. -/
def mainnetV2 : V2Activation where
  height := 210537
  blockTime := V2_BLOCK_TIME
  height_pos := by decide
  blockTime_pos := by decide

theorem issuance_le_rewards_mainnet : ∃ s, ForkSchedule.new (some 95125) (some mainnetV2) = some s ∧
    ∃ allocation : ℕ → DevelopmentAllocation,
      (∀ h, 1 ≤ h → developmentAllocationWithSchedule h 24 s = .ok (allocation h)) ∧
      ∀ H, ∑ h ∈ Finset.Icc 1 H, ((allocation h).minerSubsidy + 2 * (allocation h).payoutEach.getD 0) ≤
        ∑ h ∈ Finset.Icc 1 H, blockRewardWithSchedule h 24 s :=
  ⟨_, rfl, issuance_le_rewards (show ForkSchedule.new (some 95125) (some mainnetV2) = some _ from rfl)
    (by rintro _ ⟨⟩; decide) fun _ _ _ _ => le_rfl⟩

end Noid.Chain
