import Noid.Tx.LaunchDemand

/-! # One step of clearing

At a price `p` the curve moves by `move p` units; there is exactly one price at which the orders can demand that.
`continuousStep` returns it when it is below the cap, returns the cap when the buys there cover the sells and everything
left, and fails in between, on a *cap tie*. -/

namespace Noid.Tx

open Noid.Lib Noid.Lib.Crossing LaunchPrice

namespace StepContext

/-- What registration guarantees about the orders of a step. -/
structure Ok (c : StepContext) : Prop where
  supply_pos : 0 < c.initialSupply
  supply_le : c.initialSupply ≤ LAUNCH_MAX_SUPPLY
  sale : 5 * (c.sold + c.remaining) = 3 * c.initialSupply
  remaining_pos : 0 < c.remaining
  denominator_pos : ∀ o ∈ c.os, 0 < o.limit.denominator
  quantities_lt : (c.os.map (·.quantity)).sum < U64
  sells_le : total c.os (fun o => decide (o.side = .sell)) ≤ c.sold

/-- The units the curve moves by at price `p`. -/
def move (c : StepContext) (p : ℚ) : ℚ :=
  (900 * c.initialSupply * p - (3 * c.initialSupply + 10 * c.sold)) / 5

/-- The orders can demand what the curve supplies at `p`. -/
def Balanced (c : StepContext) (p : ℚ) : Prop :=
  IsZero (fun p => c.move p - upper c.os p) (fun p => c.move p - lower c.os p) p

/-- A balanced price below the cap. -/
def Below (c : StepContext) (p : ℚ) : Prop := c.Balanced p ∧ c.move p < c.remaining

variable {c : StepContext}

lemma Ok.supply_pos' (hc : c.Ok) : (0 : ℚ) < c.initialSupply := by exact_mod_cast hc.supply_pos

lemma Ok.sale' (hc : c.Ok) : 5 * ((c.sold : ℚ) + c.remaining) = 3 * c.initialSupply := by
  exact_mod_cast hc.sale

lemma Ok.move_lt (hc : c.Ok) {p q : ℚ} (h : p < q) : c.move p < c.move q := by
  have hS := hc.supply_pos'
  have : c.initialSupply * p < c.initialSupply * q := mul_lt_mul_of_pos_left h hS
  unfold move
  linarith

lemma Ok.excess_lt (hc : c.Ok) (p q : ℚ) (h : p < q) :
    c.move p - lower c.os p < c.move q - upper c.os q := by
  have h1 := hc.move_lt h
  have h2 : upper c.os q ≤ lower c.os p := upper_le_lower h
  linarith

lemma Ok.balanced_unique (hc : c.Ok) {p q : ℚ} (hp : c.Balanced p) (hq : c.Balanced q) : p = q :=
  IsZero.unique (fun p q _ h => hc.excess_lt p q h) hp hq

lemma balanced_iff {p : ℚ} :
    c.Balanced p ↔ lower c.os p ≤ c.move p ∧ c.move p ≤ upper c.os p := by
  constructor
  · rintro ⟨h1, h2⟩
    constructor <;> linarith
  · rintro ⟨h1, h2⟩
    constructor <;> linarith

lemma Ok.neg_sold_le_lower (hc : c.Ok) (p : ℚ) : -(c.sold : ℚ) ≤ lower c.os p := by
  have hle : sellsTo c.os p ≤ c.sold := by
    refine le_trans (total_le fun o _ ho => ?_) hc.sells_le
    simp only [Bool.and_eq_true] at ho
    exact ho.1
  have hle' : (sellsTo c.os p : ℚ) ≤ c.sold := by exact_mod_cast hle
  unfold lower
  linarith

lemma Ok.balanced_pos (hc : c.Ok) {p : ℚ} (hp : c.Balanced p) : 0 < p := by
  have hS := hc.supply_pos'
  have hmove : -(c.sold : ℚ) ≤ c.move p := (hc.neg_sold_le_lower p).trans (balanced_iff.mp hp).1
  have hprod : 0 < c.initialSupply * p := by
    unfold move at hmove
    linarith
  exact (mul_pos_iff_of_pos_left hS).mp hprod

/-- Prices that move the curve by at most what is left cost at most a hundredth. -/
theorem Ok.le_hundredth (hc : c.Ok) {p : ℚ} (hp : c.move p ≤ c.remaining) : p ≤ 1 / 100 := by
  have hS := hc.supply_pos'
  have hsale := hc.sale'
  have hprod : c.initialSupply * (100 * p) ≤ c.initialSupply * 1 := by
    unfold move at hp
    linarith
  have := le_of_mul_le_mul_left hprod hS
  linarith

/-! ### Existence -/

/-- The price at which the curve moves by `delta`. -/
def priceOf (c : StepContext) (delta : ℚ) : ℚ :=
  (3 * c.initialSupply + 10 * c.sold + 5 * delta) / (900 * c.initialSupply)

lemma Ok.move_priceOf (hc : c.Ok) (delta : ℚ) : c.move (c.priceOf delta) = delta := by
  have hS := hc.supply_pos'
  unfold move priceOf
  field_simp
  ring

lemma Ok.exists_balanced (hc : c.Ok) : ∃ p, c.Balanced p := by
  refine exists_isZero (limits c.os) none (by simp) fun g hg hlow hhigh => ?_
  have hsep := separates hc.denominator_pos hg
  have hmove := hc.move_priceOf (gapDemand c.os g)
  have hbetween : Between g (c.priceOf (gapDemand c.os g)) := by
    constructor
    · intro a ha
      by_contra hle
      have h1 := hlow a ha
      rw [hsep.lower_low ha] at h1
      have h2 : c.move (c.priceOf (gapDemand c.os g)) ≤ c.move a :=
        (StrictMono.monotone fun _ _ => hc.move_lt) (not_lt.mp hle)
      linarith
    · intro b hb
      by_contra hle
      have h1 := hhigh b hb
      rw [hsep.upper_high hb] at h1
      have h2 : c.move b ≤ c.move (c.priceOf (gapDemand c.os g)) :=
        (StrictMono.monotone fun _ _ => hc.move_lt) (not_lt.mp hle)
      linarith
  refine ⟨c.priceOf (gapDemand c.os g), balanced_iff.mpr ?_⟩
  rw [hsep.lower_between hbetween, hsep.upper_between hbetween, hmove]
  exact ⟨le_rfl, le_rfl⟩

end StepContext

/-! ### What a step returns -/

/-- The quantity of one side that a step fills in full. -/
def fillTotal (os : List Order) (s : LaunchStep) (side : LaunchSide) : ℕ :=
  total os fun o => decide (o.side = side) && (decide (classify o s.price ≠ .outside) && !isPartial o s)

/-- The quantity of the orders a step fills in part. -/
def partialTotal (os : List Order) (s : LaunchStep) : ℕ := total os fun o => isPartial o s

/-- The sign with which a partial fill moves the curve. -/
def sideSign : Option LaunchSide → ℚ
  | some .buy => 1
  | some .sell => -1
  | none => 0

/-- A step at a balanced price: its fills move the curve by exactly what it supplies at the price. -/
structure StepSpec (c : StepContext) (s : LaunchStep) : Prop where
  denominator_pos : 0 < s.price.denominator
  cheap : s.price.val ≤ 1 / 100
  mask_eq : s.activeMask = c.mask
  fraction_le : s.fractionNumerator ≤ s.fractionDenominator
  fraction_pos : 0 < s.fractionDenominator
  balance : (fillTotal c.os s .buy : ℚ) - fillTotal c.os s .sell + sideSign s.partialSide *
      ((s.fractionNumerator : ℚ) / s.fractionDenominator * partialTotal c.os s) =
    c.move s.price.val
  neg_sold_le : -(c.sold : ℚ) ≤ c.move s.price.val
  le_remaining : c.move s.price.val ≤ c.remaining
  lt_remaining : s.partialSide ≠ some .buy → c.move s.price.val < c.remaining

section Fills

variable {os : List Order} {s : LaunchStep}

lemma fillTotal_buy_cap (hside : s.partialSide = some .buy) (hcap : s.atCap = true) :
    fillTotal os s .buy = 0 := by
  have h : fillTotal os s .buy = total os fun _ => false := by
    refine total_congr fun o _ => ?_
    simp only [isPartial, hside, hcap, Bool.and_eq_true, decide_eq_true_eq, Bool.not_eq_true']
    cases classify o s.price <;> cases o.side <;> simp
  rw [h]
  simp [total]

lemma partialTotal_side {side : LaunchSide} (hside : s.partialSide = some side)
    (hcap : s.atCap = false) : partialTotal os s = marginal os s.price side := by
  refine total_congr fun o _ => ?_
  simp [isPartial, hside, hcap]

lemma fillTotal_full {side : LaunchSide} (hside : s.partialSide ≠ some side) : fillTotal os s side =
    total os fun o => decide (o.side = side) && decide (classify o s.price ≠ .outside) := by
  refine total_side_congr fun o _ ho => ?_
  have : isPartial o s = false := by simp [isPartial, ho, Ne.symm hside]
  simp [this]

lemma fillTotal_marginal {side : LaunchSide} (hside : s.partialSide = some side) (hcap : s.atCap = false) :
    fillTotal os s side = total os fun o => decide (o.side = side) && decide (classify o s.price = .full) := by
  refine total_side_congr fun o _ ho => ?_
  simp only [isPartial, ho, hside, hcap]
  cases classify o s.price <;> simp

lemma partialTotal_cap (hside : s.partialSide = some .buy) (hcap : s.atCap = true) : partialTotal os s =
    total os fun o => decide (o.side = .buy) && decide (classify o s.price ≠ .outside) := by
  refine total_congr fun o _ => ?_
  simp [isPartial, hside, hcap]

end Fills

/-! ### A price inside a gap -/

namespace StepContext

variable {c : StepContext}

/-- The price the curve reaches when it moves by `delta` units. -/
theorem Ok.movePrice (hc : c.Ok) {delta : ℤ} (h1 : -(c.sold : ℤ) ≤ delta) (h2 : delta < c.remaining) :
    ∃ n, checkedInt LaunchError.arithmetic (c.center + 5 * delta) = .ok n ∧
      LaunchPrice.val { numerator := n, denominator := c.denominator } = c.priceOf delta := by
  have hsale := hc.sale
  have hmax := hc.supply_le
  have hpos : 0 ≤ c.center + 5 * delta := by unfold center; omega
  have hlt : c.center + 5 * delta < U64 := by
    unfold center U64
    unfold LAUNCH_MAX_SUPPLY MARKET_QUANTITY_MAX at hmax
    omega
  refine ⟨(c.center + 5 * delta).toNat, ?_, ?_⟩
  · rw [checkedInt_eq_ok]
    omega
  · have hcast : (((c.center + 5 * delta).toNat : ℕ) : ℚ) = ((c.center + 5 * delta : ℤ) : ℚ) := by
      exact_mod_cast congrArg (Int.cast (R := ℚ)) (Int.toNat_of_nonneg hpos)
    unfold val priceOf
    rw [hcast]
    unfold center denominator
    push_cast
    ring

lemma Ok.move_between (hc : c.Ok) {g : Option ℚ × Option ℚ} (hg : g ∈ gaps none (limits c.os))
    {p : ℚ} (hp : Between g p) : c.Balanced p ↔ c.move p = gapDemand c.os g := by
  have hsep := separates hc.denominator_pos hg
  rw [balanced_iff, hsep.lower_between hp, hsep.upper_between hp]
  exact ⟨fun h => le_antisymm h.2 h.1, fun h => ⟨h.ge, h.le⟩⟩

/-- `intervalStep` never fails and finds exactly the balanced price of its gap. -/
theorem Ok.intervalStep_spec (hc : c.Ok) {g : Option LaunchPrice × Option LaunchPrice}
    (hg : g ∈ gaps none (boundaries c.os)) :
    ∃ r, c.intervalStep g = .ok r ∧ (∀ s ∈ r, StepSpec c s ∧ c.Below s.price.val ∧ Between (gapVal g) s.price.val) ∧
      ∀ p, Between (gapVal g) p → c.Below p → r ≠ none := by
  have hg' := gapVal_mem hg
  have hsep := separates hc.denominator_pos hg'
  rw [intervalStep, bind_of_ok (quantityWhere_eq hc.quantities_lt _),
    bind_of_ok (quantityWhere_eq hc.quantities_lt _), gap_buys hc.denominator_pos hg,
    gap_sells hc.denominator_pos hg]
  set buys := gapBuys c.os (gapVal g) with hbuys
  set sells := gapSells c.os (gapVal g) with hsells
  have hdelta : (((buys : ℤ) - sells : ℤ) : ℚ) = gapDemand c.os (gapVal g) := by
    push_cast
    rfl
  by_cases hr : (buys : ℤ) - sells < -(c.sold : ℤ) ∨ (c.remaining : ℤ) ≤ (buys : ℤ) - sells
  · refine ⟨none, if_pos hr, by simp, fun p hp hb => ?_⟩
    obtain ⟨hb, hlt⟩ := hb
    -- a balanced price in the gap moves the curve by `delta`, which is in range
    have hmove := (hc.move_between hg' hp).mp hb
    have hlow := (hc.neg_sold_le_lower p).trans (balanced_iff.mp hb).1
    rw [hmove, ← hdelta] at hlt hlow
    have h1 : (buys : ℤ) - sells < c.remaining := by exact_mod_cast hlt
    have h2 : -(c.sold : ℤ) ≤ (buys : ℤ) - sells := by exact_mod_cast hlow
    omega
  · have hlow : -(c.sold : ℤ) ≤ (buys : ℤ) - sells := by omega
    have hhigh : (buys : ℤ) - sells < c.remaining := by omega
    obtain ⟨n, hn, hval⟩ := hc.movePrice hlow hhigh
    have hden : 0 < c.denominator := by
      have := hc.supply_pos
      unfold denominator
      omega
    have hmove : c.move (val { numerator := n, denominator := c.denominator }) =
        gapDemand c.os (gapVal g) := by
      rw [hval, hc.move_priceOf, hdelta]
    by_cases hin : Between (gapVal g)
        (val { numerator := n, denominator := c.denominator })
    · refine ⟨some _, (if_neg hr).trans ((bind_of_ok hn).trans
        (if_pos ((between_iff hc.denominator_pos hg hden).mpr hin))), ?_, by simp⟩
      rintro s hs
      obtain rfl := Option.some.inj hs
      have hlow' : -(c.sold : ℚ) ≤ gapDemand c.os (gapVal g) := by
        rw [← hdelta]
        exact_mod_cast hlow
      have hhigh' : gapDemand c.os (gapVal g) < c.remaining := by
        rw [← hdelta]
        exact_mod_cast hhigh
      refine ⟨?_, ⟨(hc.move_between hg' hin).mpr hmove, hmove ▸ hhigh'⟩, hin⟩
      refine
        { denominator_pos := hden
          cheap := hc.le_hundredth (hmove.le.trans hhigh'.le)
          mask_eq := rfl
          fraction_le := Nat.zero_le _
          fraction_pos := Nat.one_pos
          balance := ?_
          neg_sold_le := hmove ▸ hlow'
          le_remaining := hmove ▸ hhigh'.le
          lt_remaining := fun _ => hmove ▸ hhigh' }
      rw [fillTotal_full (by simp), inside_buys hc.denominator_pos hden,
        fillTotal_full (by simp), inside_sells hc.denominator_pos hden, hmove, (hsep.buys_between hin).2,
        (hsep.sells_between hin).2]
      simp [sideSign, gapDemand]
    · refine ⟨none, (if_neg hr).trans ((bind_of_ok hn).trans
        (if_neg fun h => hin ((between_iff hc.denominator_pos hg hden).mp h))), by simp,
        fun p hp hb => ?_⟩
      -- the balanced price of the gap is the computed one
      have hp' := (hc.move_between hg' hp).mp hb.1
      have heq : p = val { numerator := n, denominator := c.denominator } := by
        refine (StrictMono.injective fun _ _ => hc.move_lt) ?_
        exact hp'.trans hmove.symm
      exact absurd (heq ▸ hp) hin

/-! ### A price at a limit -/

/-- A fraction of one side, or nothing, that makes up the target. -/
def IsFill (target maxBuy maxSell : ℤ) (f : Option LaunchSide × ℤ × ℤ) : Prop :=
  (0 ≤ f.2.1 ∧ f.2.1 ≤ f.2.2 ∧ 0 < f.2.2) ∧ (f = (none, 0, 1) ∧ maxSell = 0 ∧ target = maxBuy ∨
      f = (some .sell, maxBuy - target, maxSell) ∨ f = (some .buy, maxSell + target, maxBuy))

lemma partialFill_spec {target maxBuy maxSell : ℤ} (hsell : 0 ≤ maxSell)
    (h1 : -maxSell ≤ target) (h2 : target ≤ maxBuy) :
    ∃ f, partialFill target maxBuy maxSell = .ok f ∧ IsFill target maxBuy maxSell f := by
  by_cases h : maxBuy ≤ maxSell + target
  · by_cases hz : maxSell = 0
    · refine ⟨(none, 0, 1), ?_, by simp, .inl ⟨rfl, hz, by omega⟩⟩
      have hnum : maxBuy - target = 0 := by omega
      unfold partialFill
      rw [if_pos h, if_pos hz]
      exact require_bind hnum
    · have hfrac : 0 ≤ maxBuy - target ∧ maxBuy - target ≤ maxSell ∧ 0 < maxSell := by omega
      refine ⟨(some .sell, maxBuy - target, maxSell), ?_, hfrac, .inr (.inl rfl)⟩
      simp only [partialFill, h, if_true, hz, if_false]
      rw [pure_bind, require_bind ⟨hfrac.1, hfrac.2.1⟩]
      rfl
  · have hz : maxBuy ≠ 0 := by omega
    have hfrac : 0 ≤ maxSell + target ∧ maxSell + target ≤ maxBuy ∧ 0 < maxBuy := by omega
    refine ⟨(some .buy, maxSell + target, maxBuy), ?_, hfrac, .inr (.inr rfl)⟩
    simp only [partialFill, h, if_false, hz]
    rw [pure_bind, require_bind ⟨hfrac.1, hfrac.2.1⟩]
    rfl

section Boundary

variable {price : LaunchPrice}

/-- The scaled target of `boundaryStep` is the move of the curve. -/
theorem target_eq (hp : 0 < price.denominator) :
    ((c.denominator * price.numerator - c.center * price.denominator : ℤ) : ℚ) =
      5 * price.denominator * c.move price.val := by
  unfold move val denominator center
  push_cast
  field_simp

/-- Full and partial fills at a limit whose orders can reach the target move the curve by it. -/
theorem Ok.boundary_stepSpec (hc : c.Ok) (hp : 0 < price.denominator) (hbal : c.Balanced price.val)
    (hlt : c.move price.val < c.remaining) {target : ℤ}
    (htarget : (target : ℚ) = 5 * price.denominator *
      (c.move price.val - ((buysAbove c.os price.val : ℚ) - sellsBelow c.os price.val)))
    {f : Option LaunchSide × ℤ × ℤ}
    (hf : IsFill target (marginal c.os price .buy * (5 * price.denominator))
      (marginal c.os price .sell * (5 * price.denominator)) f) :
    StepSpec c
      { price := price, activeMask := c.mask, dustMask := ∅, partialSide := f.1
        fractionNumerator := f.2.1.toNat, fractionDenominator := f.2.2.toNat, atCap := false } := by
  have hd : (0 : ℚ) < price.denominator := by exact_mod_cast hp
  obtain ⟨hmb, hms⟩ := marginal_cast hc.denominator_pos hp
  obtain ⟨⟨h1, h2, h3⟩, hf⟩ := hf
  have hnum : ((f.2.1.toNat : ℕ) : ℚ) = (f.2.1 : ℚ) := by
    exact_mod_cast congrArg (Int.cast (R := ℚ)) (Int.toNat_of_nonneg h1)
  have hden : ((f.2.2.toNat : ℕ) : ℚ) = (f.2.2 : ℚ) := by
    exact_mod_cast congrArg (Int.cast (R := ℚ)) (Int.toNat_of_nonneg h3.le)
  have hlow := (hc.neg_sold_le_lower price.val).trans (balanced_iff.mp hbal).1
  refine
    { denominator_pos := hp
      cheap := hc.le_hundredth hlt.le
      mask_eq := rfl
      fraction_le := by show f.2.1.toNat ≤ f.2.2.toNat; omega
      fraction_pos := by show 0 < f.2.2.toNat; omega
      balance := ?_
      neg_sold_le := hlow
      le_remaining := hlt.le
      lt_remaining := fun _ => hlt }
  simp only [hnum, hden]
  rcases hf with ⟨rfl, hz, ht⟩ | rfl | rfl
  · -- no marginal sells, every marginal buy is filled
    rw [fillTotal_full (by simp), inside_buys hc.denominator_pos hp, fillTotal_full (by simp), inside_sells hc.denominator_pos hp,
      hmb, hms]
    have hms0 : (marginal c.os price .sell : ℚ) * (5 * price.denominator) = 0 := by exact_mod_cast hz
    have ht' : (target : ℚ) = marginal c.os price .buy * (5 * price.denominator) := by exact_mod_cast ht
    have hzero : (marginal c.os price .sell : ℚ) = 0 := by
      rcases mul_eq_zero.mp hms0 with h | h
      · exact h
      · linarith
    have hcancel : c.move price.val - ((buysAbove c.os price.val : ℚ) - sellsBelow c.os price.val) =
          marginal c.os price .buy := by
      have h5 : (5 * price.denominator : ℚ) ≠ 0 := by positivity
      refine mul_left_cancel₀ h5 ?_
      rw [← htarget, ht']
      ring
    linarith
  · rw [fillTotal_full (by simp), inside_buys hc.denominator_pos hp,
      fillTotal_marginal rfl rfl, full_sells hc.denominator_pos hp, partialTotal_side rfl rfl, hmb]
    have hms0 : (marginal c.os price .sell : ℚ) ≠ 0 := by
      rintro hz
      have : (marginal c.os price .sell : ℤ) = 0 := by exact_mod_cast hz
      simp [this] at h3
    simp only [sideSign]
    push_cast
    rw [htarget]
    field_simp
    ring
  · rw [fillTotal_marginal rfl rfl, full_buys hc.denominator_pos hp,
      fillTotal_full (by simp), inside_sells hc.denominator_pos hp, partialTotal_side rfl rfl, hms]
    have hmb0 : (marginal c.os price .buy : ℚ) ≠ 0 := by
      rintro hz
      have : (marginal c.os price .buy : ℤ) = 0 := by exact_mod_cast hz
      simp [this] at h3
    simp only [sideSign]
    push_cast
    rw [htarget]
    field_simp
    ring

/-- A scaled comparison of integers is one of rationals. -/
theorem scaled_le_iff {t k : ℤ} {m : ℚ} (hk : 0 < k) (ht : (t : ℚ) = k * m) (n : ℤ) :
    (n * k ≤ t ↔ (n : ℚ) ≤ m) ∧ (t ≤ n * k ↔ m ≤ n) := by
  have hk' : (0 : ℚ) < k := by exact_mod_cast hk
  rw [mul_comm, ← Int.cast_le (R := ℚ), ← Int.cast_le (R := ℚ), ht, Int.cast_mul]
  exact ⟨mul_le_mul_iff_of_pos_left hk', mul_le_mul_iff_of_pos_left hk'⟩

/-- `boundaryStep` never fails at a limit, returns only a balanced price, and finds it. -/
theorem Ok.boundaryStep_spec (hc : c.Ok) (hb : price ∈ boundaries c.os) :
    ∃ r, c.boundaryStep price = .ok r ∧ (∀ s ∈ r, StepSpec c s ∧ c.Below s.price.val ∧ s.price = price) ∧
      (c.Below price.val → r ≠ none) := by
  have hp := boundary_denominator hc.denominator_pos hb
  have hk : (0 : ℤ) < 5 * price.denominator := by omega
  unfold boundaryStep
  by_cases hzero : price.numerator = 0
  · refine ⟨none, if_pos hzero, by simp, fun hbal => ?_⟩
    have hpos := hc.balanced_pos hbal.1
    simp [val, hzero] at hpos
  rw [if_neg hzero]
  set tn : ℤ := c.denominator * price.numerator - c.center * price.denominator
  have hcast : ((5 * price.denominator : ℤ) : ℚ) = 5 * price.denominator := by push_cast; rfl
  have htn : (tn : ℚ) = (5 * price.denominator : ℤ) * c.move price.val := by rw [hcast, target_eq hp]
  have hsold := (scaled_le_iff hk htn (-c.sold)).1
  have hremaining := (scaled_le_iff hk htn c.remaining).1
  push_cast at hsold hremaining
  by_cases hr : tn < -(c.sold : ℤ) * (5 * price.denominator) ∨ (c.remaining : ℤ) * (5 * price.denominator) ≤ tn
  · refine ⟨none, if_pos hr, by simp, fun hbelow => ?_⟩
    obtain ⟨hbal, hlt⟩ := hbelow
    have hlow := hsold.mpr ((hc.neg_sold_le_lower price.val).trans (balanced_iff.mp hbal).1)
    have hhigh := mt hremaining.mp (not_le.mpr hlt)
    omega
  rw [if_neg hr]
  have hrem : c.move price.val < c.remaining := not_le.mp fun h => hr (.inr (hremaining.mpr h))
  have hmarginal : ∀ side, quantityWhere c.os (fun o => decide (o.side = side) &&
      decide (classify o price = .marginal)) = .ok (marginal c.os price side) := fun side =>
    quantityWhere_eq hc.quantities_lt _
  rw [bind_of_ok (quantityWhere_eq hc.quantities_lt _),
    bind_of_ok (quantityWhere_eq hc.quantities_lt _), bind_of_ok (hmarginal .buy),
    bind_of_ok (hmarginal .sell), full_buys hc.denominator_pos hp,
    full_sells hc.denominator_pos hp]
  set target : ℤ := tn - ((buysAbove c.os price.val : ℤ) - sellsBelow c.os price.val) * (5 * price.denominator)
  have htarget : (target : ℚ) = 5 * price.denominator *
      (c.move price.val - ((buysAbove c.os price.val : ℚ) - sellsBelow c.os price.val)) := by
    simp only [target, Int.cast_sub, Int.cast_mul, htn]
    push_cast
    ring
  obtain ⟨hmb, hms⟩ := marginal_cast hc.denominator_pos hp
  -- the target is in reach of the marginal orders exactly at a balanced price
  have hreach : c.Balanced price.val ↔ -((marginal c.os price .sell : ℤ) * (5 * price.denominator)) ≤ target ∧
        target ≤ (marginal c.os price .buy : ℤ) * (5 * price.denominator) := by
    have htarget' := htarget
    rw [← hcast] at htarget'
    rw [← neg_mul, (scaled_le_iff hk htarget' _).1, (scaled_le_iff hk htarget' _).2, balanced_iff]
    unfold lower upper
    push_cast
    constructor
    · rintro ⟨h, h'⟩
      constructor <;> linarith
    · rintro ⟨h, h'⟩
      constructor <;> linarith
  by_cases hbal : c.Balanced price.val
  · obtain ⟨hl, hu⟩ := hreach.mp hbal
    have hsell : 0 ≤ (marginal c.os price .sell : ℤ) * (5 * price.denominator) := by positivity
    obtain ⟨f, hf, hfill⟩ := partialFill_spec hsell hl hu
    refine ⟨some _, (if_neg (by omega)).trans (bind_of_ok hf), ?_, by simp⟩
    rintro s hs
    obtain rfl := Option.some.inj hs
    exact ⟨hc.boundary_stepSpec hp hbal hrem htarget hfill, ⟨hbal, hrem⟩, rfl⟩
  · refine ⟨none, if_pos ?_, by simp, fun h => absurd h.1 hbal⟩
    rw [hreach] at hbal
    omega

end Boundary

/-! ### The search -/

/-- The tries of `uncappedStep` look for the balanced price below the cap. -/
theorem Ok.tries (hc : c.Ok) :
    Tries LaunchPrice.val (fun s : LaunchStep => s.price.val) c.Below c.intervalStep c.boundaryStep
      (boundaries c.os) :=
  { sorted := limits_pairwise hc.denominator_pos
    unique := fun p q hp hq => hc.balanced_unique hp.1 hq.1
    gap := fun g hg => by
      obtain ⟨r, hr, hfound, hnone⟩ := hc.intervalStep_spec hg
      exact ⟨r, hr, fun s hs => (hfound s hs).2, hnone⟩
    boundary := fun b hb => by
      obtain ⟨r, hr, hfound, hnone⟩ := hc.boundaryStep_spec hb
      exact ⟨r, hr, fun s hs => ⟨(hfound s hs).2.1, by rw [(hfound s hs).2.2]⟩, hnone⟩ }

/-- A balanced price below the cap is found. -/
theorem Ok.uncappedStep_ok (hc : c.Ok) {p : ℚ} (hp : c.Balanced p) (hlt : c.move p < c.remaining) :
    ∃ s, c.uncappedStep = .ok s ∧ StepSpec c s := by
  obtain ⟨s, hs, -, hfound⟩ := hc.tries.search_ok (e := LaunchError.clearing) ⟨hp, hlt⟩
  refine ⟨s, hs, ?_⟩
  rcases hfound with ⟨g, hg, heq⟩ | ⟨b, hb, heq⟩
  · obtain ⟨r, hr, hspec, -⟩ := hc.intervalStep_spec hg
    obtain rfl := Except.ok.inj (hr.symm.trans heq)
    exact (hspec s rfl).1
  · obtain ⟨r, hr, hspec, -⟩ := hc.boundaryStep_spec hb
    obtain rfl := Except.ok.inj (hr.symm.trans heq)
    exact (hspec s rfl).1

/-- A balanced price at or above the cap is not. -/
theorem Ok.uncappedStep_error (hc : c.Ok) {p : ℚ} (hp : c.Balanced p)
    (hle : c.remaining ≤ c.move p) : c.uncappedStep = .error .clearing := by
  refine hc.tries.search_error fun q hq => ?_
  rw [← hc.balanced_unique hp hq.1] at hq
  exact absurd hq.2 (not_lt.mpr hle)

/-! ### The cap -/

/-- The price of selling everything that is left. -/
def capPrice (c : StepContext) : LaunchPrice :=
  { numerator := 3 * c.initialSupply + 5 * (c.sold + (c.sold + c.remaining))
    denominator := 900 * c.initialSupply }

/-- Buys at the cap that take all that the sells below the cap leave, but not what all sells leave. -/
def CapTie (c : StepContext) : Prop :=
  let buys := total c.os fun o =>
    decide (o.side = .buy) && decide (classify o c.capPrice ≠ .outside)
  let sells := total c.os fun o =>
    decide (o.side = .sell) && decide (classify o c.capPrice ≠ .outside)
  let strictSells := total c.os fun o =>
    decide (o.side = .sell) && decide (classify o c.capPrice = .full)
  buys < sells + c.remaining ∧ strictSells + c.remaining ≤ buys

instance (c : StepContext) : Decidable c.CapTie := by unfold CapTie; infer_instance

/-- Without a sell whose limit is the cap price there is no cap tie. -/
theorem not_capTie (h : ∀ o ∈ c.os, o.side = .sell → classify o c.capPrice ≠ .marginal) : ¬c.CapTie := by
  rintro ⟨hlt, hle⟩
  have hsells : (total c.os fun o => decide (o.side = .sell) && decide (classify o c.capPrice ≠ .outside)) =
      total c.os fun o => decide (o.side = .sell) && decide (classify o c.capPrice = .full) := by
    refine total_side_congr fun o ho hs => ?_
    cases hc : classify o c.capPrice with
    | marginal => exact absurd hc (h o ho hs)
    | _ => rfl
  omega

lemma Ok.capPrice_denominator (hc : c.Ok) : 0 < c.capPrice.denominator := by
  have := hc.supply_pos
  show 0 < 900 * c.initialSupply
  omega

lemma Ok.move_capPrice (hc : c.Ok) : c.move c.capPrice.val = c.remaining := by
  have hS := hc.supply_pos'
  unfold move val capPrice
  push_cast
  field_simp
  ring

lemma Ok.capTie_iff (hc : c.Ok) :
    c.CapTie ↔ buysFrom c.os c.capPrice.val < sellsTo c.os c.capPrice.val + c.remaining ∧
      (c.remaining : ℚ) ≤ upper c.os c.capPrice.val := by
  unfold CapTie
  rw [inside_buys hc.denominator_pos hc.capPrice_denominator,
    inside_sells hc.denominator_pos hc.capPrice_denominator, full_sells hc.denominator_pos hc.capPrice_denominator]
  refine and_congr_right fun _ => ?_
  have : (c.remaining : ℚ) ≤ upper c.os c.capPrice.val ↔ ((sellsBelow c.os c.capPrice.val + c.remaining : ℕ) : ℚ) ≤
        (buysFrom c.os c.capPrice.val : ℕ) := by
    unfold upper
    push_cast
    constructor <;> intro h <;> linarith
  rw [this, Nat.cast_le]

def capStep (c : StepContext) : LaunchStep :=
  { price := c.capPrice, activeMask := c.mask, dustMask := ∅, partialSide := some .buy
    fractionNumerator := sellsTo c.os c.capPrice.val + c.remaining
    fractionDenominator := buysFrom c.os c.capPrice.val, atCap := true }

lemma Ok.capStep_spec (hc : c.Ok) (hle : sellsTo c.os c.capPrice.val + c.remaining ≤ buysFrom c.os c.capPrice.val) :
    StepSpec c c.capStep := by
  have hden : 0 < c.capStep.price.denominator := hc.capPrice_denominator
  have hmove := hc.move_capPrice
  have hpos : 0 < buysFrom c.os c.capPrice.val := by
    have := hc.remaining_pos
    omega
  refine
    { denominator_pos := hden
      cheap := hc.le_hundredth hmove.le
      mask_eq := rfl
      fraction_le := hle
      fraction_pos := hpos
      balance := ?_
      neg_sold_le := ?_
      le_remaining := hmove.le
      lt_remaining := fun h => absurd rfl h }
  · rw [fillTotal_buy_cap rfl rfl, fillTotal_full (by simp [capStep]), inside_sells hc.denominator_pos hden,
      partialTotal_cap rfl rfl, inside_buys hc.denominator_pos hden]
    show _ = c.move c.capPrice.val
    rw [hmove]
    simp only [capStep, sideSign]
    push_cast
    field_simp
    ring
  · show _ ≤ c.move c.capPrice.val
    linarith

lemma Ok.uncapped_iff (hc : c.Ok)
    (hlt : buysFrom c.os c.capPrice.val < sellsTo c.os c.capPrice.val + c.remaining) {p : ℚ}
    (hp : c.Balanced p) : c.CapTie ↔ c.remaining ≤ c.move p := by
  rw [hc.capTie_iff]
  have hmove := hc.move_capPrice
  obtain ⟨hlow, hup⟩ := balanced_iff.mp hp
  constructor
  · rintro ⟨-, hle⟩
    by_contra hlt'
    have hpc : p < c.capPrice.val := by
      by_contra hge
      have := (StrictMono.monotone fun _ _ => hc.move_lt) (not_lt.mp hge)
      rw [hmove] at this
      exact hlt' this
    have : upper c.os c.capPrice.val ≤ lower c.os p := upper_le_lower hpc
    linarith
  · intro hle
    refine ⟨hlt, ?_⟩
    rcases lt_trichotomy p c.capPrice.val with h | h | h
    · have := hc.move_lt h
      linarith
    · rw [h] at hup hle
      linarith
    · have h1 : upper c.os p ≤ lower c.os c.capPrice.val := upper_le_lower h
      have h2 : lower c.os c.capPrice.val ≤ upper c.os c.capPrice.val := lower_le_upper _
      linarith

end StepContext

section ContinuousStep

variable {d : LaunchDefinition} {batch : LaunchRegisteredBatch} {orders : List Order}
  {mask : Finset ℕ} {c : StepContext} (hd : d.validate = .ok ()) (hstep : stepContext d batch orders mask = c)
  (hsold : c.sold ≤ d.saleUnits) (hc : c.Ok)
include hd hstep hsold hc

lemma continuousStep_eq :
    continuousStep d batch orders mask =
      if sellsTo c.os c.capPrice.val + c.remaining ≤ buysFrom c.os c.capPrice.val then .ok c.capStep
      else c.uncappedStep := by
  subst hstep
  unfold continuousStep
  set c := stepContext d batch orders mask
  have hrem : c.sold + c.remaining = d.saleUnits := by
    have : c.remaining = d.saleUnits - c.sold := rfl
    omega
  have hcap : d.averagePrice c.sold d.saleUnits = .ok c.capPrice := by
    rw [LaunchDefinition.averagePrice, bind_of_ok hd, require_bind ⟨hsold, le_rfl⟩, StepContext.capPrice, hrem]
    rfl
  have hsells : sellsTo c.os c.capPrice.val ≤ c.sold := by
    refine le_trans (total_le fun o _ ho => ?_) hc.sells_le
    simp only [Bool.and_eq_true] at ho
    exact ho.1
  have hneeded : sellsTo c.os c.capPrice.val + c.remaining < U64 := by
    have h1 := hc.sale
    have h2 := hc.supply_le
    unfold LAUNCH_MAX_SUPPLY MARKET_QUANTITY_MAX at h2
    unfold U64
    omega
  rw [bind_of_ok hcap, bind_of_ok (quantityWhere_eq hc.quantities_lt _),
    bind_of_ok (quantityWhere_eq hc.quantities_lt _), inside_buys hc.denominator_pos hc.capPrice_denominator,
    inside_sells hc.denominator_pos hc.capPrice_denominator,
    checked_bind hneeded]
  have hpos := hc.remaining_pos
  by_cases hle : sellsTo c.os c.capPrice.val + c.remaining ≤ buysFrom c.os c.capPrice.val
  · rw [if_pos ⟨hle, by omega⟩, if_pos hle]
    rfl
  · rw [if_neg fun h => hle h.1, if_neg hle]

/-- **A step over orders without a cap tie finds its price.** -/
theorem continuousStep_ok (htie : ¬ c.CapTie) : ∃ s, continuousStep d batch orders mask = .ok s ∧ StepSpec c s := by
  rw [continuousStep_eq hd hstep hsold hc]
  by_cases hle : sellsTo c.os c.capPrice.val + c.remaining ≤ buysFrom c.os c.capPrice.val
  · exact ⟨_, if_pos hle, hc.capStep_spec hle⟩
  · rw [if_neg hle]
    obtain ⟨p, hp⟩ := hc.exists_balanced
    have hlt := not_le.mp fun h => htie ((hc.uncapped_iff (not_le.mp hle) hp).mpr h)
    exact hc.uncappedStep_ok hp hlt

/-- **A step over a cap tie fails.** -/
theorem continuousStep_capTie (htie : c.CapTie) : continuousStep d batch orders mask = .error .clearing := by
  obtain ⟨hlt, -⟩ := hc.capTie_iff.mp htie
  obtain ⟨p, hp⟩ := hc.exists_balanced
  rw [continuousStep_eq hd hstep hsold hc, if_neg (not_le.mpr hlt)]
  exact hc.uncappedStep_error hp ((hc.uncapped_iff hlt hp).mp htie)

end ContinuousStep

end Noid.Tx
