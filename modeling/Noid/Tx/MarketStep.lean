import Noid.Tx.LaunchStep
import Noid.Tx.MarketClearing

/-! # The clearing rate of a pool

A swap round is read as a launch round: an order that pays quote buys base, an order that pays base sells it.  A pool with
reserves `B` and `Q` that takes `b` base and `q` quote clears at the rate `p` with `p * (B + 2 * b) = Q + 2 * q`, so the
excess increases strictly with the rate and has exactly one zero. -/

namespace Noid.Tx

open Noid.Lib Noid.Lib.Crossing

/-! ### Swaps as launch orders -/

/-- Paying quote buys base, paying base sells it. -/
def MarketSide.launch : MarketSide → LaunchSide
  | .base => .sell
  | .quote => .buy

def MarketOrder.launch (o : MarketOrder) : Order :=
  { side := o.side.launch, quantity := o.capacity, limit := o.limit }

/-- A step of a pool as a step of a launch that is not at its cap. -/
def ClearingStep.launch (s : ClearingStep) : LaunchStep :=
  { price := s.price, activeMask := s.activeMask, dustMask := s.dustMask
    partialSide := s.partialSide.map MarketSide.launch, fractionNumerator := s.fractionNumerator
    fractionDenominator := s.fractionDenominator, atCap := false }

lemma MarketSide.launch_injective : Function.Injective MarketSide.launch := by
  intro a b h
  cases a <;> cases b <;> first | rfl | cases h

@[simp] lemma MarketOrder.launch_side (o : MarketOrder) (side : MarketSide) :
    o.launch.side = side.launch ↔ o.side = side :=
  MarketSide.launch_injective.eq_iff

lemma classify_launch (o : MarketOrder) (price : ClearingRate) :
    classify o.launch price = classifyOrder o price := by
  unfold classify classifyOrder MarketOrder.launch MarketSide.launch
  cases comparePrice price o.limit <;> cases o.side <;> rfl

lemma isPartial_launch (o : MarketOrder) (s : ClearingStep) :
    isPartial o.launch s.launch =
      (decide (some o.side = s.partialSide) && decide (classifyOrder o s.price = .marginal)) := by
  have hside : some o.launch.side = s.launch.partialSide ↔ some o.side = s.partialSide := by
    unfold ClearingStep.launch
    cases s.partialSide with
    | none => simp
    | some side => simp
  unfold isPartial
  rw [decide_eq_decide.mpr hside, classify_launch]
  rfl

lemma rateBoundaries_eq (os : List MarketOrder) :
    rateBoundaries os = boundaries (os.map MarketOrder.launch) := by
  unfold rateBoundaries boundaries
  rw [List.map_map]
  rfl

lemma capacityWhere_eq {os : List MarketOrder}
    (h : ((os.map MarketOrder.launch).map (·.quantity)).sum < U64) {p : MarketOrder → Bool}
    {q : Order → Bool} (hpq : ∀ o ∈ os, p o = q o.launch) :
    capacityWhere os p = .ok (total (os.map MarketOrder.launch) q) := by
  have hsum : ((os.filter p).map (·.capacity)).sum = total (os.map MarketOrder.launch) q := by
    rw [total, List.filter_map, List.map_map, List.filter_congr hpq]
    rfl
  have hlt : ((os.filter p).map (·.capacity)).sum < U64 :=
    hsum ▸ lt_of_le_of_lt (total_le_sum _ q) h
  rw [capacityWhere, checkedSum_of_lt _ hlt, hsum]

/-! ### Rates that clear -/

/-- A pool and the active orders of a step. -/
structure PoolContext where
  pool : PoolState
  os : List MarketOrder
  mask : Finset ℕ

namespace PoolContext

def orders (c : PoolContext) : List Order := c.os.map MarketOrder.launch

/-- What registration guarantees about the orders of a step. -/
structure Ok (c : PoolContext) : Prop where
  base_pos : 0 < c.pool.baseReserve
  quote_pos : 0 < c.pool.quoteReserve
  limit_pos : ∀ o ∈ c.orders, 0 < o.limit.numerator ∧ 0 < o.limit.denominator
  limit_le : ∀ o ∈ c.orders, o.limit.numerator ≤ MARKET_QUANTITY_MAX ∧ o.limit.denominator ≤ MARKET_QUANTITY_MAX
  base_le : c.pool.baseReserve + total c.orders (fun o => decide (o.side = .sell)) ≤ MARKET_QUANTITY_MAX
  quote_le : c.pool.quoteReserve + total c.orders (fun o => decide (o.side = .buy)) ≤ MARKET_QUANTITY_MAX

/-- The least excess of base over quote at `p`. -/
def excessLow (c : PoolContext) (p : ℚ) : ℚ :=
  p * (c.pool.baseReserve + 2 * sellsBelow c.orders p) - (c.pool.quoteReserve + 2 * buysFrom c.orders p)

/-- The greatest excess of base over quote at `p`. -/
def excessHigh (c : PoolContext) (p : ℚ) : ℚ :=
  p * (c.pool.baseReserve + 2 * sellsTo c.orders p) - (c.pool.quoteReserve + 2 * buysAbove c.orders p)

/-- The orders at the rate can balance the pool. -/
def Clears (c : PoolContext) (p : ℚ) : Prop := IsZero c.excessLow c.excessHigh p

variable {c : PoolContext}

lemma Ok.denominator_pos (hc : c.Ok) : ∀ o ∈ c.orders, 0 < o.limit.denominator := fun o ho =>
  (hc.limit_pos o ho).2

lemma Ok.base_pos' (hc : c.Ok) : (0 : ℚ) < c.pool.baseReserve := by exact_mod_cast hc.base_pos

lemma Ok.quote_pos' (hc : c.Ok) : (0 : ℚ) < c.pool.quoteReserve := by exact_mod_cast hc.quote_pos

lemma Ok.pos_of_excessHigh (hc : c.Ok) {p : ℚ} (h : 0 ≤ c.excessHigh p) : 0 < p := by
  have hB := hc.base_pos'
  have hQ := hc.quote_pos'
  have hprod : 0 < p * (c.pool.baseReserve + 2 * sellsTo c.orders p) := by
    unfold excessHigh at h
    linarith
  exact (pos_iff_pos_of_mul_pos hprod).mpr (by linarith)

lemma Ok.excess_lt (hc : c.Ok) (p q : ℚ) (hp : 0 ≤ c.excessHigh p) (h : p < q) :
    c.excessHigh p < c.excessLow q := by
  have hpos := hc.pos_of_excessHigh hp
  have hB := hc.base_pos'
  have hs : (sellsTo c.orders p : ℚ) ≤ sellsBelow c.orders q := by
    exact_mod_cast sellsTo_le_sellsBelow h
  have hb : (buysFrom c.orders q : ℚ) ≤ buysAbove c.orders p := by
    exact_mod_cast buysFrom_le_buysAbove h
  have h1 : p * (c.pool.baseReserve + 2 * sellsTo c.orders p) ≤
      p * (c.pool.baseReserve + 2 * sellsBelow c.orders q) :=
    mul_le_mul_of_nonneg_left (by linarith) hpos.le
  have h2 : p * (c.pool.baseReserve + 2 * sellsBelow c.orders q) <
      q * (c.pool.baseReserve + 2 * sellsBelow c.orders q) :=
    mul_lt_mul_of_pos_right h (by linarith)
  unfold excessHigh excessLow
  linarith

lemma Ok.clears_unique (hc : c.Ok) {p q : ℚ} (hp : c.Clears p) (hq : c.Clears q) : p = q :=
  IsZero.unique hc.excess_lt hp hq

def gapRate (c : PoolContext) (g : Option ℚ × Option ℚ) : ℚ :=
  (c.pool.quoteReserve + 2 * gapBuys c.orders g) / (c.pool.baseReserve + 2 * gapSells c.orders g)

lemma Ok.gapBase_pos (hc : c.Ok) (g : Option ℚ × Option ℚ) :
    (0 : ℚ) < c.pool.baseReserve + 2 * gapSells c.orders g := by
  have hB := hc.base_pos'
  linarith

lemma Ok.clears_between (hc : c.Ok) {g : Option ℚ × Option ℚ} (hg : g ∈ gaps none (limits c.orders))
    {p : ℚ} (hp : Between g p) : c.Clears p ↔ p = c.gapRate g := by
  have hsep := separates hc.denominator_pos hg
  obtain ⟨hb1, hb2⟩ := hsep.buys_between hp
  obtain ⟨hs1, hs2⟩ := hsep.sells_between hp
  unfold Clears IsZero excessLow excessHigh gapRate
  rw [hb1, hb2, hs1, hs2, eq_div_iff (hc.gapBase_pos g).ne']
  constructor
  · rintro ⟨h1, h2⟩
    linarith
  · intro h
    constructor <;> linarith

lemma Ok.exists_clears (hc : c.Ok) : ∃ p, c.Clears p := by
  refine exists_isZero (limits c.orders) none (by simp) fun g hg hlow hhigh => ?_
  have hsep := separates hc.denominator_pos hg
  have hpos := hc.gapBase_pos g
  have hbetween : Between g (c.gapRate g) := by
    constructor
    · intro a ha
      have h := hlow a ha
      rw [excessHigh, hsep.buysAbove_low ha, sellsTo_low ha] at h
      rw [gapRate, lt_div_iff₀ hpos]
      linarith
    · intro b hb
      have h := hhigh b hb
      rw [excessLow, buysFrom_high hb, hsep.sellsBelow_high hb] at h
      rw [gapRate, div_lt_iff₀ hpos]
      linarith
  exact ⟨c.gapRate g, (hc.clears_between hg hbetween).mpr rfl⟩

/-! ### What a step returns -/

/-- The input of one side that a step takes before rounding. -/
def exactInput (c : PoolContext) (s : ClearingStep) (side : MarketSide) : ℚ :=
  fillTotal c.orders s.launch side.launch + if s.partialSide = some side then
      (s.fractionNumerator : ℚ) / s.fractionDenominator * partialTotal c.orders s.launch
    else 0

/-- A step at the rate that clears: its fills balance the pool, and every number fits. -/
structure RateSpec (c : PoolContext) (s : ClearingStep) : Prop where
  numerator_pos : 0 < s.price.numerator
  denominator_pos : 0 < s.price.denominator
  numerator_lt : s.price.numerator < U64
  denominator_lt : s.price.denominator < U64
  mask_eq : s.activeMask = c.mask
  fraction_le : s.fractionNumerator ≤ s.fractionDenominator
  fraction_pos : 0 < s.fractionDenominator
  fraction_lt : s.fractionDenominator < 2 ^ 128
  balance : s.price.val * (c.pool.baseReserve + 2 * c.exactInput s .base) =
    c.pool.quoteReserve + 2 * c.exactInput s .quote

variable {s : ClearingStep}

lemma launch_partialSide {side : MarketSide} (h : s.partialSide ≠ some side) :
    s.launch.partialSide ≠ some side.launch := by
  unfold ClearingStep.launch
  simp only [ne_eq, Option.map_eq_some_iff, not_exists, not_and]
  intro side' hside' heq
  exact h (MarketSide.launch_injective heq ▸ hside')

lemma exactInput_full {side : MarketSide} (h : s.partialSide ≠ some side) :
    c.exactInput s side =
      total c.orders fun o => decide (o.side = side.launch) && decide (classify o s.price ≠ .outside) := by
  rw [exactInput, if_neg h, add_zero, fillTotal_full (launch_partialSide h)]
  rfl

lemma exactInput_fraction {side : MarketSide} (h : s.partialSide = some side) :
    c.exactInput s side =
      (total c.orders fun o => decide (o.side = side.launch) && decide (classify o s.price = .full)) +
        (s.fractionNumerator : ℚ) / s.fractionDenominator * marginal c.orders s.price side.launch := by
  have hside : s.launch.partialSide = some side.launch := by simp [ClearingStep.launch, h]
  rw [exactInput, if_pos h, fillTotal_marginal hside rfl, partialTotal_side hside rfl]
  rfl

lemma Ok.exactInput_base (hc : c.Ok) (hs : 0 < s.price.denominator)
    (h : s.partialSide ≠ some .base) : c.exactInput s .base = sellsTo c.orders s.price.val := by
  rw [exactInput_full h, MarketSide.launch, inside_sells hc.denominator_pos hs]

lemma Ok.exactInput_quote (hc : c.Ok) (hs : 0 < s.price.denominator)
    (h : s.partialSide ≠ some .quote) : c.exactInput s .quote = buysFrom c.orders s.price.val := by
  rw [exactInput_full h, MarketSide.launch, inside_buys hc.denominator_pos hs]

lemma Ok.exactInput_base_partial (hc : c.Ok) (hs : 0 < s.price.denominator) (h : s.partialSide = some .base) :
    c.exactInput s .base = sellsBelow c.orders s.price.val +
      (s.fractionNumerator : ℚ) / s.fractionDenominator * marginal c.orders s.price .sell := by
  rw [exactInput_fraction h, MarketSide.launch, full_sells hc.denominator_pos hs]

lemma Ok.exactInput_quote_partial (hc : c.Ok) (hs : 0 < s.price.denominator) (h : s.partialSide = some .quote) :
    c.exactInput s .quote = buysAbove c.orders s.price.val +
      (s.fractionNumerator : ℚ) / s.fractionDenominator * marginal c.orders s.price .buy := by
  rw [exactInput_fraction h, MarketSide.launch, full_buys hc.denominator_pos hs]

/-! ### Machine numbers -/

lemma Ok.side_le (hc : c.Ok) (p : Order → Bool) :
    c.pool.baseReserve + total c.orders (fun o => decide (o.side = .sell) && p o) ≤ MARKET_QUANTITY_MAX ∧
      c.pool.quoteReserve + total c.orders (fun o => decide (o.side = .buy) && p o) ≤ MARKET_QUANTITY_MAX := by
  have hs : total c.orders (fun o => decide (o.side = .sell) && p o) ≤
      total c.orders (fun o => decide (o.side = .sell)) :=
    total_le fun o _ ho => (Bool.and_eq_true _ _ ▸ ho : _ ∧ _).1
  have hb : total c.orders (fun o => decide (o.side = .buy) && p o) ≤
      total c.orders (fun o => decide (o.side = .buy)) :=
    total_le fun o _ ho => (Bool.and_eq_true _ _ ▸ ho : _ ∧ _).1
  have h1 := hc.base_le
  have h2 := hc.quote_le
  omega

lemma twicePlus_of_le {reserve input : ℕ} (h : reserve + input ≤ MARKET_QUANTITY_MAX) :
    twicePlus reserve input = .ok (input * 2 + reserve) := by
  refine checked_of_lt _ ?_
  unfold MARKET_QUANTITY_MAX at h
  unfold U64
  omega

lemma Ok.quantities_lt (hc : c.Ok) : (c.orders.map (·.quantity)).sum < U64 := by
  have hsplit : (c.orders.map (·.quantity)).sum = total c.orders (fun o => decide (o.side = .sell)) +
        total c.orders (fun o => decide (o.side = .buy)) := by
    have h : total c.orders (fun _ => true) = total c.orders (fun o => decide (o.side = .sell)) +
        total c.orders (fun o => decide (o.side = .buy)) := by
      refine total_add fun o _ => ?_
      cases o.side <;> simp
    simpa [total] using h
  have h1 := hc.base_le
  have h2 := hc.quote_le
  unfold MARKET_QUANTITY_MAX at h1 h2
  unfold U64
  omega

/-! ### A rate inside a gap -/

lemma Ok.capacity_eq (hc : c.Ok) (side : MarketSide) (p : MarketOrder → Bool) (q : Order → Bool)
    (h : ∀ o ∈ c.os, p o = q o.launch) :
    capacityWhere c.os (fun o => decide (o.side = side) && p o) =
      .ok (total c.orders fun o => decide (o.side = side.launch) && q o) := by
  refine capacityWhere_eq hc.quantities_lt fun o ho => ?_
  rw [h o ho, decide_eq_decide.mpr (o.launch_side side)]

lemma rate_val {B Q b q : ℕ} :
    LaunchPrice.val { numerator := q * 2 + Q, denominator := b * 2 + B } = ((Q : ℚ) + 2 * q) / (B + 2 * b) := by
  unfold LaunchPrice.val
  push_cast
  ring_nf

/-- `rateInGap` never fails, returns only the rate of its gap, and finds it when it clears. -/
theorem Ok.rateInGap_spec (hc : c.Ok) {g : Option ClearingRate × Option ClearingRate}
    (hg : g ∈ gaps none (boundaries c.orders)) :
    ∃ r, rateInGap c.pool c.os c.mask g = .ok r ∧
      (∀ s ∈ r, RateSpec c s ∧ c.Clears s.price.val ∧ Between (gapVal g) s.price.val) ∧
      ∀ p, Between (gapVal g) p → c.Clears p → r ≠ none := by
  have hg' := gapVal_mem hg
  have hsep := separates hc.denominator_pos hg'
  have hbase : c.pool.baseReserve + gapSells c.orders (gapVal g) ≤ MARKET_QUANTITY_MAX :=
    (hc.side_le _).1
  have hquote : c.pool.quoteReserve + gapBuys c.orders (gapVal g) ≤ MARKET_QUANTITY_MAX :=
    (hc.side_le _).2
  have hsells : capacityWhere c.os (fun o => decide (o.side = .base) &&
      g.1.any fun p => decide (comparePrice o.limit p ≠ .gt)) = .ok (gapSells c.orders (gapVal g)) := by
    rw [← gap_sells hc.denominator_pos hg]
    exact hc.capacity_eq .base _ _ fun _ _ => rfl
  have hbuys : capacityWhere c.os (fun o => decide (o.side = .quote) &&
      g.2.any fun p => decide (comparePrice o.limit p ≠ .lt)) = .ok (gapBuys c.orders (gapVal g)) := by
    rw [← gap_buys hc.denominator_pos hg]
    exact hc.capacity_eq .quote _ _ fun _ _ => rfl
  rw [rateInGap, bind_of_ok hsells, bind_of_ok hbuys, bind_of_ok (twicePlus_of_le hquote),
    bind_of_ok (twicePlus_of_le hbase)]
  set price : ClearingRate :=
    { numerator := gapBuys c.orders (gapVal g) * 2 + c.pool.quoteReserve
      denominator := gapSells c.orders (gapVal g) * 2 + c.pool.baseReserve } with hprice
  have hB := hc.base_pos
  have hQ := hc.quote_pos
  have hden : 0 < price.denominator := by
    simp only [hprice]
    omega
  have hval : price.val = c.gapRate (gapVal g) := rate_val
  by_cases hin : Between (gapVal g) price.val
  · refine ⟨some _, if_pos ((between_iff hc.denominator_pos hg hden).mpr hin), ?_, by simp⟩
    intro s hs
    obtain rfl := Option.some.inj hs
    refine ⟨?_, (hc.clears_between hg' hin).mpr hval, hin⟩
    unfold MARKET_QUANTITY_MAX at hbase hquote
    refine
      { numerator_pos := by simp only [hprice]; omega
        denominator_pos := hden
        numerator_lt := by simp only [hprice, U64]; omega
        denominator_lt := by simp only [hprice, U64]; omega
        mask_eq := rfl
        fraction_le := Nat.zero_le _
        fraction_pos := Nat.one_pos
        fraction_lt := by norm_num
        balance := ?_ }
    rw [hc.exactInput_base hden (by simp), hc.exactInput_quote hden (by simp)]
    rw [(hsep.buys_between hin).2, (hsep.sells_between hin).2, hval, gapRate,
      div_mul_cancel₀ _ (hc.gapBase_pos _).ne']
  · refine ⟨none, if_neg fun h => hin ((between_iff hc.denominator_pos hg hden).mp h), by simp,
      fun p hp hclears => ?_⟩
    -- the rate that clears in the gap is the computed one
    have heq := (hc.clears_between hg' hp).mp hclears
    exact absurd (hval.trans heq.symm ▸ hp) hin

/-! ### A rate at a limit -/

/-- A fraction of one side, or nothing, that balances the pool at a limit. -/
def IsRateFill (n d left right leftMax rightMax mb mq : ℕ) (f : Option MarketSide × ℕ × ℕ) : Prop :=
  (f.2.1 ≤ f.2.2 ∧ 0 < f.2.2) ∧ (f = (none, 0, 1) ∧ mb = 0 ∧ left = rightMax ∨
      f = (some .base, rightMax - left, 2 * n * mb) ∧ left ≤ rightMax ∨
      f = (some .quote, leftMax - right, 2 * d * mq) ∧ right ≤ leftMax)

/-- The partial fill exists wherever the marginal orders can balance the pool. -/
theorem ratePartial_spec {price : ClearingRate} (hn : 0 < price.numerator) {left right mb mq : ℕ}
    (h1 : left ≤ right + 2 * price.denominator * mq) (h2 : right ≤ left + 2 * price.numerator * mb) :
    ∃ f, ratePartial price left right (left + 2 * price.numerator * mb)
        (right + 2 * price.denominator * mq) mb mq = .ok f ∧
      IsRateFill price.numerator price.denominator left right (left + 2 * price.numerator * mb)
        (right + 2 * price.denominator * mq) mb mq f := by
  by_cases h : right + 2 * price.denominator * mq ≤ left + 2 * price.numerator * mb
  · by_cases hz : 2 * price.numerator * mb = 0
    · have hnum : right + 2 * price.denominator * mq - left = 0 := by omega
      have hmb : mb = 0 := by
        rcases Nat.mul_eq_zero.mp hz with h | h
        · omega
        · exact h
      refine ⟨(none, 0, 1), ?_, by simp, .inl ⟨rfl, hmb, by omega⟩⟩
      unfold ratePartial
      rw [if_pos h, if_pos hz]
      exact require_bind hnum
    · have hfrac : right + 2 * price.denominator * mq - left ≤ 2 * price.numerator * mb := by omega
      refine ⟨(some .base, right + 2 * price.denominator * mq - left, 2 * price.numerator * mb), ?_,
        ⟨hfrac, Nat.pos_of_ne_zero hz⟩, .inr (.inl ⟨rfl, h1⟩)⟩
      simp only [ratePartial, h, if_true, hz, if_false]
      rw [pure_bind, require_bind hfrac]
      rfl
  · have hz : 2 * price.denominator * mq ≠ 0 := by omega
    have hfrac : left + 2 * price.numerator * mb - right ≤ 2 * price.denominator * mq := by omega
    refine ⟨(some .quote, left + 2 * price.numerator * mb - right, 2 * price.denominator * mq), ?_,
      ⟨hfrac, Nat.pos_of_ne_zero hz⟩, .inr (.inr ⟨rfl, h2⟩)⟩
    simp only [ratePartial, h, if_false, hz]
    rw [pure_bind, require_bind hfrac]
    rfl

section Limit

variable {price : ClearingRate}

/-- The scaled sides of a limit: with the full orders only, and with the marginal ones too. -/
def scaledBase (c : PoolContext) (price : ClearingRate) : ℕ :=
  price.numerator * (sellsBelow c.orders price.val * 2 + c.pool.baseReserve)

def scaledQuote (c : PoolContext) (price : ClearingRate) : ℕ :=
  price.denominator * (buysAbove c.orders price.val * 2 + c.pool.quoteReserve)

lemma val_mul_le_iff (hp : 0 < price.denominator) {x y : ℕ} :
    price.val * x ≤ y ↔ price.numerator * x ≤ price.denominator * y := by
  have hd : (0 : ℚ) < price.denominator := by exact_mod_cast hp
  rw [LaunchPrice.val, div_mul_eq_mul_div, div_le_iff₀ hd, mul_comm (y : ℚ)]
  exact_mod_cast Iff.rfl

lemma le_val_mul_iff (hp : 0 < price.denominator) {x y : ℕ} :
    (y : ℚ) ≤ price.val * x ↔ price.denominator * y ≤ price.numerator * x := by
  have hd : (0 : ℚ) < price.denominator := by exact_mod_cast hp
  rw [LaunchPrice.val, div_mul_eq_mul_div, le_div_iff₀ hd, mul_comm (y : ℚ)]
  exact_mod_cast Iff.rfl

lemma val_mul_eq_iff (hp : 0 < price.denominator) {x y : ℚ} :
    price.val * x = y ↔ price.numerator * x = price.denominator * y := by
  have hd : (price.denominator : ℚ) ≠ 0 := by exact_mod_cast hp.ne'
  rw [LaunchPrice.val, div_mul_eq_mul_div, div_eq_iff hd, mul_comm y]

/-- A limit clears when neither side is out of reach of the other. -/
theorem Ok.clears_limit (hc : c.Ok) (hp : 0 < price.denominator) :
    c.Clears price.val ↔
      c.scaledBase price ≤ c.scaledQuote price + 2 * price.denominator * marginal c.orders price .buy ∧
        c.scaledQuote price ≤ c.scaledBase price + 2 * price.numerator * marginal c.orders price .sell := by
  have hcast : ∀ a b : ℕ, (a : ℚ) + 2 * b = ((b * 2 + a : ℕ) : ℚ) := by
    intro a b
    push_cast
    ring
  unfold Clears IsZero excessLow excessHigh
  rw [marginal_buys hc.denominator_pos hp, marginal_sells hc.denominator_pos hp, hcast, hcast, hcast,
    hcast, sub_nonpos, sub_nonneg, val_mul_le_iff hp, le_val_mul_iff hp]
  refine and_congr (iff_of_eq (congrArg _ ?_)) (iff_of_eq (congrArg _ ?_))
  · unfold scaledQuote
    ring
  · unfold scaledBase
    ring

/-- Full and partial fills at a limit that clears balance the pool. -/
theorem Ok.limit_rateSpec (hc : c.Ok) (hp : price ∈ boundaries c.orders) {f : Option MarketSide × ℕ × ℕ}
    (hf : IsRateFill price.numerator price.denominator (c.scaledBase price) (c.scaledQuote price)
      (c.scaledBase price + 2 * price.numerator * marginal c.orders price .sell)
      (c.scaledQuote price + 2 * price.denominator * marginal c.orders price .buy)
      (marginal c.orders price .sell) (marginal c.orders price .buy) f) :
    RateSpec c
      { price := price, activeMask := c.mask, dustMask := ∅, partialSide := f.1
        fractionNumerator := f.2.1, fractionDenominator := f.2.2 } := by
  obtain ⟨o, ho, rfl⟩ := mem_boundaries hp
  set price := o.limit
  obtain ⟨hn, hd⟩ : 0 < price.numerator ∧ 0 < price.denominator := hc.limit_pos o ho
  obtain ⟨hnle, hdle⟩ : price.numerator ≤ MARKET_QUANTITY_MAX ∧
    price.denominator ≤ MARKET_QUANTITY_MAX := hc.limit_le o ho
  have hmb : c.pool.baseReserve + marginal c.orders price .sell ≤ MARKET_QUANTITY_MAX :=
    (hc.side_le _).1
  have hmq : c.pool.quoteReserve + marginal c.orders price .buy ≤ MARKET_QUANTITY_MAX :=
    (hc.side_le _).2
  obtain ⟨⟨hle, hpos⟩, hf⟩ := hf
  have hfraction : f.2.2 < 2 ^ 128 := by
    have hbound : ∀ a b : ℕ, a ≤ MARKET_QUANTITY_MAX → b ≤ MARKET_QUANTITY_MAX → 2 * a * b < 2 ^ 128 := by
      intro a b ha hb
      have h := Nat.mul_le_mul (Nat.mul_le_mul_left 2 ha) hb
      exact lt_of_le_of_lt h (by decide)
    rcases hf with ⟨rfl, -⟩ | ⟨rfl, -⟩ | ⟨rfl, -⟩
    · norm_num
    · exact hbound _ _ hnle (by omega)
    · exact hbound _ _ hdle (by omega)
  refine
    { numerator_pos := hn
      denominator_pos := hd
      numerator_lt := lt_of_le_of_lt hnle (by decide)
      denominator_lt := lt_of_le_of_lt hdle (by decide)
      mask_eq := rfl
      fraction_le := hle
      fraction_pos := hpos
      fraction_lt := hfraction
      balance := ?_ }
  obtain ⟨hbuys, hsells⟩ := marginal_cast hc.denominator_pos hd
  have hbase : (c.scaledBase price : ℚ) =
      price.numerator * (c.pool.baseReserve + 2 * sellsBelow c.orders price.val) := by
    unfold scaledBase
    push_cast
    ring
  have hquote : (c.scaledQuote price : ℚ) =
      price.denominator * (c.pool.quoteReserve + 2 * buysAbove c.orders price.val) := by
    unfold scaledQuote
    push_cast
    ring
  rw [val_mul_eq_iff hd]
  rcases hf with ⟨rfl, hz, heq⟩ | ⟨rfl, hreach⟩ | ⟨rfl, hreach⟩
  · -- no marginal base, every marginal quote is filled
    rw [hc.exactInput_base hd (by simp), hc.exactInput_quote hd (by simp)]
    have heq' : (c.scaledBase price : ℚ) =
        c.scaledQuote price + 2 * price.denominator * marginal c.orders price .buy := by
      exact_mod_cast heq
    rw [hsells, hbuys, hz, Nat.cast_zero]
    linarith
  · rw [hc.exactInput_base_partial hd rfl, hc.exactInput_quote hd (by simp)]
    have hmb0 : (marginal c.orders price .sell : ℚ) ≠ 0 := by
      rintro hz
      have : marginal c.orders price .sell = 0 := by exact_mod_cast hz
      simp [this] at hpos
    rw [hbuys, Nat.cast_sub hreach]
    push_cast
    rw [hbase, hquote]
    field_simp
    ring
  · rw [hc.exactInput_base hd (by simp), hc.exactInput_quote_partial hd rfl]
    have hmq0 : (marginal c.orders price .buy : ℚ) ≠ 0 := by
      rintro hz
      have : marginal c.orders price .buy = 0 := by exact_mod_cast hz
      simp [this] at hpos
    rw [hsells, Nat.cast_sub hreach]
    push_cast
    rw [hbase, hquote]
    field_simp
    ring

/-- `rateAtLimit` never fails, returns only a limit that clears, and finds it. -/
theorem Ok.rateAtLimit_spec (hc : c.Ok) (hb : price ∈ boundaries c.orders) :
    ∃ r, rateAtLimit c.pool c.os c.mask price = .ok r ∧
      (∀ s ∈ r, RateSpec c s ∧ c.Clears s.price.val ∧ s.price = price) ∧
      (c.Clears price.val → r ≠ none) := by
  obtain ⟨hn, hd⟩ : 0 < price.numerator ∧ 0 < price.denominator := by
    obtain ⟨o, ho, rfl⟩ := mem_boundaries hb
    exact hc.limit_pos o ho
  have hcount : ∀ side cls, capacityWhere c.os (fun o => decide (o.side = side) &&
      decide (classifyOrder o price = cls)) =
        .ok (total c.orders fun o => decide (o.side = side.launch) && decide (classify o price = cls)) :=
    fun side cls => hc.capacity_eq side _ _ fun o _ => by rw [classify_launch]
  have hfullBase := (hcount .base .full).trans (congrArg _ (full_sells hc.denominator_pos hd))
  have hfullQuote := (hcount .quote .full).trans (congrArg _ (full_buys hc.denominator_pos hd))
  have hmarginalBase : _ = Except.ok (marginal c.orders price .sell) := hcount .base .marginal
  have hmarginalQuote : _ = Except.ok (marginal c.orders price .buy) := hcount .quote .marginal
  have hbase : c.pool.baseReserve + (sellsBelow c.orders price.val + marginal c.orders price .sell) ≤
      MARKET_QUANTITY_MAX := by
    rw [← marginal_sells hc.denominator_pos hd]
    exact (hc.side_le _).1
  have hquote : c.pool.quoteReserve + (buysAbove c.orders price.val + marginal c.orders price .buy) ≤
      MARKET_QUANTITY_MAX := by
    rw [← marginal_buys hc.denominator_pos hd]
    exact (hc.side_le _).2
  have hmax : MARKET_QUANTITY_MAX < U64 := by decide
  rw [rateAtLimit, bind_of_ok hfullBase, bind_of_ok hfullQuote, bind_of_ok hmarginalBase,
    bind_of_ok hmarginalQuote, bind_of_ok (twicePlus_of_le (by omega)),
    bind_of_ok (twicePlus_of_le (by omega)),
    checked_bind (by omega), bind_of_ok (twicePlus_of_le hbase),
    checked_bind (by omega), bind_of_ok (twicePlus_of_le hquote)]
  have hleft : price.numerator * ((sellsBelow c.orders price.val + marginal c.orders price .sell) * 2 +
      c.pool.baseReserve) = c.scaledBase price + 2 * price.numerator * marginal c.orders price .sell := by
    unfold scaledBase
    ring
  have hright : price.denominator * ((buysAbove c.orders price.val + marginal c.orders price .buy) * 2 +
      c.pool.quoteReserve) = c.scaledQuote price + 2 * price.denominator * marginal c.orders price .buy := by
    unfold scaledQuote
    ring
  rw [hleft, hright]
  change ∃ r, (if _ < c.scaledBase price ∨ _ < c.scaledQuote price then _ else _) = _ ∧ _
  by_cases hclears : c.Clears price.val
  · obtain ⟨h1, h2⟩ := (hc.clears_limit hd).mp hclears
    obtain ⟨f, hf, hfill⟩ := ratePartial_spec hn h1 h2
    refine ⟨some _, (if_neg (by omega)).trans (bind_of_ok hf), ?_, by simp⟩
    intro s hs
    obtain rfl := Option.some.inj hs
    exact ⟨hc.limit_rateSpec hb hfill, hclears, rfl⟩
  · refine ⟨none, if_pos ?_, by simp, fun h => absurd h hclears⟩
    rw [hc.clears_limit hd] at hclears
    omega

end Limit

/-! ### The search -/

/-- The tries of `marketStep` look for the rate that clears. -/
theorem Ok.tries (hc : c.Ok) :
    Tries LaunchPrice.val (fun s : ClearingStep => s.price.val) c.Clears
      (rateInGap c.pool c.os c.mask) (rateAtLimit c.pool c.os c.mask) (boundaries c.orders) :=
  { sorted := limits_pairwise hc.denominator_pos
    unique := fun _ _ => hc.clears_unique
    gap := fun g hg => by
      obtain ⟨r, hr, hfound, hnone⟩ := hc.rateInGap_spec hg
      exact ⟨r, hr, fun s hs => (hfound s hs).2, hnone⟩
    boundary := fun b hb => by
      obtain ⟨r, hr, hfound, hnone⟩ := hc.rateAtLimit_spec hb
      exact ⟨r, hr, fun s hs => ⟨(hfound s hs).2.1, by rw [(hfound s hs).2.2]⟩, hnone⟩ }

/-- **The search over the active orders finds the only rate that clears.** -/
theorem Ok.search_ok (hc : c.Ok) :
    ∃ s, search .clearing (rateInGap c.pool c.os c.mask) (rateAtLimit c.pool c.os c.mask)
        (boundaries c.orders) = .ok s ∧ RateSpec c s ∧ c.Clears s.price.val := by
  obtain ⟨p, hp⟩ := hc.exists_clears
  obtain ⟨s, hs, -, hfound⟩ := hc.tries.search_ok (e := MarketError.clearing) hp
  refine ⟨s, hs, ?_⟩
  rcases hfound with ⟨g, hg, heq⟩ | ⟨b, hb, heq⟩
  · obtain ⟨r, hr, hspec, -⟩ := hc.rateInGap_spec hg
    obtain rfl := Except.ok.inj (hr.symm.trans heq)
    exact ⟨(hspec s rfl).1, (hspec s rfl).2.1⟩
  · obtain ⟨r, hr, hspec, -⟩ := hc.rateAtLimit_spec hb
    obtain rfl := Except.ok.inj (hr.symm.trans heq)
    exact ⟨(hspec s rfl).1, (hspec s rfl).2.1⟩

end PoolContext

def poolContext (pool : PoolState) (orders : List MarketOrder) (mask : Finset ℕ) : PoolContext :=
  { pool := pool, os := activeOrders orders mask, mask := mask }

lemma marketStep_ok {pool : PoolState} {orders : List MarketOrder} {mask : Finset ℕ}
    (hc : (poolContext pool orders mask).Ok) :
    ∃ s, marketStep pool orders mask = .ok s ∧ (poolContext pool orders mask).RateSpec s ∧
      (poolContext pool orders mask).Clears s.price.val := by
  obtain ⟨s, hs, hspec⟩ := hc.search_ok
  refine ⟨s, ?_, hspec⟩
  rw [PoolContext.orders, ← rateBoundaries_eq] at hs
  exact hs

end Noid.Tx
