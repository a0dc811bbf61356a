import Noid.Tx.LaunchAllocate
import Noid.Tx.MarketSettle
import Noid.Tx.MarketStep

/-! # Rounding the fills of a pool step

As in a launch round, the partial group gets its fraction rounded down, shared out by rounding running totals.  Orders
that round to nothing are dust; when there is none, a side whose rounded input is zero has none at all. -/

namespace Noid.Tx

open Noid.Lib Noid.Lib.Crossing List

/-! ### Outputs -/

/-- The output of an effective input, rounded down. -/
def outputOf (price : ClearingRate) : MarketSide → ℕ → ℕ
  | .base, e => e * price.numerator / price.denominator
  | .quote, e => e * price.denominator / price.numerator

lemma payout_ok {price : ClearingRate} (hn : 0 < price.numerator) (hd : 0 < price.denominator)
    {side : MarketSide} {e : ℕ} (h : outputOf price side e < U64) :
    payout e side price = .ok (outputOf price side e) := by
  cases side with
  | base =>
    rw [payout, require_bind hd.ne']
    exact checked_of_lt _ h
  | quote =>
    rw [payout, require_bind hn.ne']
    exact checked_of_lt _ h

lemma outputOf_mono {price : ClearingRate} {side : MarketSide} {e e' : ℕ} (h : e ≤ e') :
    outputOf price side e ≤ outputOf price side e' := by
  cases side with
  | base => exact Nat.div_le_div_right (Nat.mul_le_mul_right _ h)
  | quote => exact Nat.div_le_div_right (Nat.mul_le_mul_right _ h)

/-! ### The loop -/

/-- What a step grants an order: at most its capacity, and nothing beyond its limit. -/
def Fills (s : ClearingStep) (o : MarketOrder) (e : ℕ) : Prop :=
  e ≤ o.capacity ∧ (e ≠ 0 → classifyOrder o s.price ≠ .outside)

/-- A fill that is not dust: what is taken pays something, and a partial fill takes something. -/
def Lively (s : ClearingStep) (x : MarketOrder × ℕ) (e : ℕ) : Prop :=
  (e ≠ 0 → outputOf s.price x.1.side e ≠ 0) ∧
    (x.2 ∈ s.activeMask → isPartial x.1.launch s.launch = true → s.fractionNumerator ≠ 0 → e ≠ 0)

def inputOf (side : MarketSide) (l : List MarketOrder) (es : List ℕ) : ℕ :=
  ((l.zip es).map fun x => if x.1.side = side then x.2 else 0).sum

lemma inputOf_cons (side : MarketSide) (o : MarketOrder) (l : List MarketOrder) (e : ℕ) (es : List ℕ) :
    inputOf side (o :: l) (e :: es) = (if o.side = side then e else 0) + inputOf side l es := rfl

def launchPair (x : MarketOrder × ℕ) : Order × ℕ := (x.1.launch, x.2)

def activeLaunch (mask : Finset ℕ) (l : List (MarketOrder × ℕ)) : List Order :=
  activeOf mask (l.map launchPair)

/-- What the partial group adds to the input of a side. -/
def shareOf (s : ClearingStep) (side : MarketSide) (n : ℕ) : ℕ := if s.partialSide = some side then n else 0

/-- The result of the filling loop on a list of orders, from a state of its counters. -/
structure MarketLoopSpec (s : ClearingStep) (pt mt allocated : ℕ) (l : List (MarketOrder × ℕ))
    (a : MarketAllocation) : Prop where
  seen_eq : a.seen = mt
  allocated_eq : a.allocated = pt * mt / mt
  fills : Forall₂ (fun x e => Fills s x.1 e) l a.effective
  lively : Forall₂ (fun x e => x.2 ∉ a.dust → Lively s x e) l a.effective
  dust_subset : a.dust ⊆ s.activeMask
  input_eq : ∀ side, inputOf side (l.map (·.1)) a.effective + shareOf s side allocated =
    fillTotal (activeLaunch s.activeMask l) s.launch side.launch + shareOf s side a.allocated

section Loop

variable {s : ClearingStep} {pt mt : ℕ}
variable {l : List (MarketOrder × ℕ)} {a : MarketAllocation} {allocated : ℕ} {o : MarketOrder}

variable {x : MarketOrder × ℕ}

lemma launch_totals_skip (h : x.2 ∉ s.activeMask ∨ classifyOrder x.1 s.price = .outside) (side : MarketSide) :
    fillTotal (activeLaunch s.activeMask (x :: l)) s.launch side.launch =
        fillTotal (activeLaunch s.activeMask l) s.launch side.launch ∧
      partialTotal (activeLaunch s.activeMask (x :: l)) s.launch = partialTotal (activeLaunch s.activeMask l) s.launch :=
  totals_cons_skip (x := launchPair x) (h.imp_right (classify_launch _ _).trans) side.launch

/-- One order more: its fill is added; it is dust when it should come to something and does not. -/
theorem MarketLoopSpec.cons {allocated' e : ℕ} {positive : Bool} (h : MarketLoopSpec s pt mt allocated' l a)
    (hx : positive = true → x.2 ∈ s.activeMask) (hfill : Fills s x.1 e)
    (hlively : ¬(positive = true ∧ (e = 0 ∨ outputOf s.price x.1.side e = 0)) → Lively s x e)
    (hinput : ∀ side, (if x.1.side = side then e else 0) + shareOf s side allocated +
        fillTotal (activeLaunch s.activeMask l) s.launch side.launch =
      fillTotal (activeLaunch s.activeMask (x :: l)) s.launch side.launch + shareOf s side allocated') :
    MarketLoopSpec s pt mt allocated (x :: l)
      { a with
        effective := e :: a.effective
        dust := if positive = true ∧ (e = 0 ∨ outputOf s.price x.1.side e = 0) then insert x.2 a.dust
          else a.dust } :=
  { seen_eq := h.seen_eq
    allocated_eq := h.allocated_eq
    fills := .cons hfill h.fills
    lively := forall₂_dust h.lively hlively
    dust_subset := insert_dust_subset (fun hp => hx hp.1) h.dust_subset
    input_eq := by
      intro side
      have hrest := h.input_eq side
      have hthis := hinput side
      rw [map_cons, inputOf_cons]
      simp only
      omega }

lemma allocateOrder_outside (h : classifyOrder o s.price = .outside) (seen allocated : ℕ) :
    allocateOrder s pt mt seen allocated o = .ok (0, false, seen, allocated) := by
  rw [allocateOrder, h]

lemma allocateOrder_full (h : classifyOrder o s.price ≠ .outside)
    (hp : isPartial o.launch s.launch = false) (seen allocated : ℕ) :
    allocateOrder s pt mt seen allocated o = .ok (o.capacity, true, seen, allocated) := by
  rw [isPartial_launch] at hp
  rw [allocateOrder]
  cases hcls : classifyOrder o s.price with
  | outside => exact absurd hcls h
  | full => rfl
  | marginal =>
    have hside : some o.side ≠ s.partialSide := by simpa [hcls] using hp
    rw [if_pos hside]

/-- A share of the partial group is an increment of a rounded running total. -/
theorem allocateOrder_share (hp : isPartial o.launch s.launch = true)
    (hpt : pt ≤ mt) (hmt : mt < U64) (seen : ℕ) (hseen : seen + o.capacity ≤ mt) (hcap : 0 < o.capacity) :
    ∃ e, allocateOrder s pt mt seen (pt * seen / mt) o =
        .ok (e, decide (s.fractionNumerator ≠ 0), seen + o.capacity, pt * (seen + o.capacity) / mt) ∧
      pt * seen / mt + e = pt * (seen + o.capacity) / mt ∧ e ≤ o.capacity ∧ e ≤ pt := by
  rw [isPartial_launch, Bool.and_eq_true, decide_eq_true_eq, decide_eq_true_eq] at hp
  obtain ⟨hge, hle, hcum⟩ := share_le hpt hseen hcap
  refine ⟨pt * (seen + o.capacity) / mt - pt * seen / mt, ?_, by omega, by omega, (Nat.sub_le _ _).trans hcum⟩
  rw [allocateOrder, hp.2]
  rw [if_neg (not_not.mpr hp.1), checked_bind (by omega), checked_bind (by omega),
    bind_of_ok (checkedSub_eq_ok.mpr ⟨hge, rfl⟩)]
  rfl

lemma allocateMarket_active {i seen e seen' allocated' : ℕ} {positive : Bool} (hm : i ∈ s.activeMask)
    (he : allocateOrder s pt mt seen allocated o = .ok (e, positive, seen', allocated'))
    (hpay : payout e o.side s.price = .ok (outputOf s.price o.side e))
    (ha : allocateMarket s pt mt seen' allocated' l = .ok a) :
    allocateMarket s pt mt seen allocated ((o, i) :: l) = .ok { a with
        effective := e :: a.effective
        dust := if positive = true ∧ (e = 0 ∨ outputOf s.price o.side e = 0) then insert i a.dust
          else a.dust } := by
  rw [allocateMarket, if_neg (not_not.mpr hm), bind_of_ok he]
  simp only
  rw [bind_of_ok hpay, bind_of_ok ha]
  rfl

variable (hn : 0 < s.price.numerator) (hd : 0 < s.price.denominator) (hpt : pt ≤ mt) (hmt : mt < U64)
  (hzero : s.fractionNumerator = 0 → pt = 0)
  (hshare : ∀ side, s.partialSide = some side → outputOf s.price side pt < U64)
include hn hd hpt hmt hzero hshare

/-- The filling loop runs to its end. -/
theorem allocateMarket_loop :
    ∀ (l : List (MarketOrder × ℕ)) (seen : ℕ), (∀ x ∈ l, 0 < x.1.capacity) →
      (∀ x ∈ l, x.2 ∈ s.activeMask → classifyOrder x.1 s.price ≠ .outside →
        isPartial x.1.launch s.launch = false → outputOf s.price x.1.side x.1.capacity < U64) →
      seen + partialTotal (activeLaunch s.activeMask l) s.launch = mt →
      ∃ a, allocateMarket s pt mt seen (pt * seen / mt) l = .ok a ∧ MarketLoopSpec s pt mt (pt * seen / mt) l a
  | [], seen, _, _, hseen => by
    have hmt' : seen = mt := by simpa [activeLaunch, activeOf, partialTotal, total] using hseen
    refine ⟨_, rfl, hmt', by rw [hmt'], .nil, .nil, Finset.empty_subset _, ?_⟩
    simp [activeLaunch, activeOf, fillTotal, total, inputOf]
  | (o, i) :: l, seen, hcap, hfit, hseen => by
    obtain ⟨hocap, hcap'⟩ := forall_mem_cons.mp hcap
    obtain ⟨hofit, hfit'⟩ := forall_mem_cons.mp hfit
    have hempty : Fills s o 0 := ⟨Nat.zero_le _, fun h => absurd rfl h⟩
    by_cases hm : i ∉ s.activeMask
    · -- inactive
      have htot := launch_totals_skip (x := (o, i)) (l := l) (.inl hm)
      rw [(htot .base).2] at hseen
      obtain ⟨a, ha, spec⟩ := allocateMarket_loop l seen hcap' hfit' hseen
      rw [allocateMarket, if_pos hm, bind_of_ok ha]
      refine ⟨_, rfl, spec.cons (fun h => absurd h Bool.false_ne_true) hempty
        (fun _ => ⟨fun h => absurd rfl h, fun hin => absurd hin hm⟩) fun side => ?_⟩
      rw [(htot side).1]
      simp [Nat.add_comm]
    have hm : i ∈ s.activeMask := not_not.mp hm
    by_cases hout : classifyOrder o s.price = .outside
    · -- beyond its limit
      have htot := launch_totals_skip (x := (o, i)) (l := l) (.inr hout)
      rw [(htot .base).2] at hseen
      obtain ⟨a, ha, spec⟩ := allocateMarket_loop l seen hcap' hfit' hseen
      have hpay : payout 0 o.side s.price = .ok (outputOf s.price o.side 0) :=
        payout_ok hn hd (by cases o.side <;> simp [outputOf, U64])
      refine ⟨_, allocateMarket_active hm (allocateOrder_outside hout _ _) hpay ha,
        spec.cons (fun _ => hm) hempty (fun _ => ⟨fun h => absurd rfl h, fun _ hp => ?_⟩) fun side => ?_⟩
      · rw [isPartial_launch, hout] at hp
        simp at hp
      · rw [(htot side).1]
        simp [Nat.add_comm]
    have hcls : classify o.launch s.launch.price ≠ .outside := fun h => hout ((classify_launch o s.price).symm.trans h)
    by_cases hpart : isPartial o.launch s.launch = true
    · -- a share of the partial group
      have htot : ∀ side : MarketSide, fillTotal (activeLaunch s.activeMask ((o, i) :: l)) s.launch side.launch =
          fillTotal (activeLaunch s.activeMask l) s.launch side.launch ∧
        partialTotal (activeLaunch s.activeMask ((o, i) :: l)) s.launch =
          o.capacity + partialTotal (activeLaunch s.activeMask l) s.launch := fun side =>
        totals_cons_marginal (x := launchPair (o, i)) hm hpart side.launch
      rw [(htot .base).2] at hseen
      obtain ⟨e, he, hsum, hle, hept⟩ := allocateOrder_share hpart hpt hmt seen (by omega) hocap
      obtain ⟨a, ha, spec⟩ := allocateMarket_loop l (seen + o.capacity) hcap' hfit' (by omega)
      have hside : some o.side = s.partialSide := by
        rw [isPartial_launch, Bool.and_eq_true, decide_eq_true_eq] at hpart
        exact hpart.1
      have hpay : payout e o.side s.price = .ok (outputOf s.price o.side e) :=
        payout_ok hn hd (lt_of_le_of_lt (outputOf_mono hept) (hshare _ hside.symm))
      refine ⟨_, allocateMarket_active hm he hpay ha,
        spec.cons (fun _ => hm) ⟨hle, fun _ => hout⟩ (fun hnot => ?_) fun side => ?_⟩
      · by_cases hnum : s.fractionNumerator = 0
        · have hezero : e = 0 := by
            omega
          exact ⟨fun h => absurd hezero h, fun _ _ h => absurd hnum h⟩
        · obtain ⟨hpos, hpays⟩ := not_or.mp fun h => hnot ⟨decide_eq_true hnum, h⟩
          exact ⟨fun _ => hpays, fun _ _ _ => hpos⟩
      · rw [(htot side).1]
        unfold shareOf
        simp only [← hside, Option.some.injEq]
        split_ifs <;> omega
    · -- filled in full
      have hpart : isPartial o.launch s.launch = false := by simpa using hpart
      have htot : ∀ side : MarketSide, fillTotal (activeLaunch s.activeMask ((o, i) :: l)) s.launch side.launch =
          (if o.launch.side = side.launch then o.capacity else 0) +
            fillTotal (activeLaunch s.activeMask l) s.launch side.launch ∧
        partialTotal (activeLaunch s.activeMask ((o, i) :: l)) s.launch =
          partialTotal (activeLaunch s.activeMask l) s.launch := fun side =>
        totals_cons_full (x := launchPair (o, i)) hm hcls hpart side.launch
      rw [(htot .base).2] at hseen
      obtain ⟨a, ha, spec⟩ := allocateMarket_loop l seen hcap' hfit' hseen
      have hpay : payout o.capacity o.side s.price = .ok (outputOf s.price o.side o.capacity) :=
        payout_ok hn hd (hofit hm hout hpart)
      refine ⟨_, allocateMarket_active hm (allocateOrder_full hout hpart _ _) hpay ha,
        spec.cons (fun _ => hm) ⟨le_rfl, fun _ => hout⟩ (fun hnot => ?_) fun side => ?_⟩
      · obtain ⟨hpos, hpays⟩ := not_or.mp fun h => hnot ⟨rfl, h⟩
        exact ⟨fun _ => hpays, fun _ _ _ => hpos⟩
      · rw [(htot side).1]
        simp only [MarketOrder.launch_side]
        omega

end Loop

/-! ### The rounded step -/

/-- A dust-free rounding of a step at the rate that clears. -/
structure RoundSpec (c : PoolContext) (orders : List MarketOrder) (s : ClearingStep) (es : List ℕ) :
    Prop where
  fills : Forall₂ (Fills s) orders es
  pays : Forall₂ (fun o e => e ≠ 0 → outputOf s.price o.side e ≠ 0) orders es
  input_le : ∀ side, (inputOf side orders es : ℚ) ≤ c.exactInput s side
  exact_lt : ∀ side, c.exactInput s side < inputOf side orders es + 1
  exact_zero : ∀ side, inputOf side orders es = 0 → c.exactInput s side = 0

namespace PoolContext

variable {c : PoolContext} {s : ClearingStep}

lemma fill_le_total (side : MarketSide) :
    fillTotal c.orders s.launch side.launch +
        (if s.partialSide = some side then partialTotal c.orders s.launch else 0) ≤
      total c.orders fun o => decide (o.side = side.launch) := by
  by_cases hside : s.partialSide = some side
  · have hlaunch : s.launch.partialSide = some side.launch := by simp [ClearingStep.launch, hside]
    rw [if_pos hside, fillTotal, partialTotal, ← total_add (r := fun o => decide (o.side = side.launch) &&
        (decide (classify o s.launch.price ≠ .outside) || isPartial o s.launch))]
    · exact total_le fun o _ ho => (Bool.and_eq_true _ _ ▸ ho : _ ∧ _).1
    · intro o _
      have hcap : s.launch.atCap = false := rfl
      simp only [isPartial, hlaunch, hcap]
      cases classify o s.launch.price <;> by_cases h : o.side = side.launch <;> simp [h]
  · rw [if_neg hside, Nat.add_zero]
    exact total_le fun o _ ho => (Bool.and_eq_true _ _ ▸ ho : _ ∧ _).1

lemma RateSpec.fraction_le_one (hs : RateSpec c s) : (s.fractionNumerator : ℚ) / s.fractionDenominator ≤ 1 := by
  have hpos : (0 : ℚ) < s.fractionDenominator := by exact_mod_cast hs.fraction_pos
  rw [div_le_one hpos]
  exact_mod_cast hs.fraction_le

lemma RateSpec.exactInput_le_total (hs : RateSpec c s) (side : MarketSide) :
    c.exactInput s side ≤ total c.orders fun o => decide (o.side = side.launch) := by
  have hle := fill_le_total (c := c) (s := s) side
  have hle' : (fillTotal c.orders s.launch side.launch : ℚ) +
      (if s.partialSide = some side then (partialTotal c.orders s.launch : ℚ) else 0) ≤
        total c.orders fun o => decide (o.side = side.launch) := by
    split_ifs at hle ⊢ <;> exact_mod_cast hle
  refine le_trans ?_ hle'
  unfold exactInput
  split_ifs
  · have h := mul_le_mul_of_nonneg_right hs.fraction_le_one
      (Nat.cast_nonneg (α := ℚ) (partialTotal c.orders s.launch))
    linarith
  · exact le_rfl

lemma RateSpec.val_pos (hs : RateSpec c s) : 0 < s.price.val := by
  have h1 : (0 : ℚ) < s.price.numerator := by exact_mod_cast hs.numerator_pos
  have h2 : (0 : ℚ) < s.price.denominator := by exact_mod_cast hs.denominator_pos
  exact div_pos h1 h2

lemma outputOf_base_le {price : ClearingRate} (hd : 0 < price.denominator) (e : ℕ) :
    (outputOf price .base e : ℚ) ≤ price.val * e := by
  rw [le_val_mul_iff hd, outputOf, Nat.mul_comm price.denominator, Nat.mul_comm price.numerator]
  exact Nat.div_mul_le_self _ _

lemma outputOf_quote_le {price : ClearingRate} (hd : 0 < price.denominator) (e : ℕ) :
    price.val * outputOf price .quote e ≤ e := by
  rw [val_mul_le_iff hd, outputOf, Nat.mul_comm price.numerator, Nat.mul_comm price.denominator]
  exact Nat.div_mul_le_self _ _

lemma RateSpec.outputOf_le (hc : c.Ok) (hs : RateSpec c s) {side : MarketSide} {e : ℕ}
    (he : (e : ℚ) ≤ c.exactInput s side) : outputOf s.price side e ≤ MARKET_QUANTITY_MAX := by
  have hval := hs.val_pos
  have hbal := hs.balance
  have hB := hc.base_pos'
  cases side with
  | base =>
    have hquote : c.exactInput s .quote ≤ total c.orders (fun o => decide (o.side = .buy)) :=
      hs.exactInput_le_total .quote
    have hle : (c.pool.quoteReserve : ℚ) + total c.orders (fun o => decide (o.side = .buy)) ≤
        MARKET_QUANTITY_MAX := by exact_mod_cast hc.quote_le
    have hout := outputOf_base_le hs.denominator_pos e
    have hmul : s.price.val * e ≤ s.price.val * c.exactInput s .base :=
      mul_le_mul_of_nonneg_left he hval.le
    have hpool : 0 < s.price.val * c.pool.baseReserve := mul_pos hval hB
    have : (outputOf s.price .base e : ℚ) ≤ MARKET_QUANTITY_MAX := by linarith
    exact_mod_cast this
  | quote =>
    have hbase : c.exactInput s .base ≤ total c.orders (fun o => decide (o.side = .sell)) :=
      hs.exactInput_le_total .base
    have hle : (c.pool.baseReserve : ℚ) + total c.orders (fun o => decide (o.side = .sell)) ≤
        MARKET_QUANTITY_MAX := by exact_mod_cast hc.base_le
    have hout := outputOf_quote_le hs.denominator_pos e
    have hmax : s.price.val * (c.pool.baseReserve + 2 * c.exactInput s .base) ≤
        s.price.val * (2 * MARKET_QUANTITY_MAX - c.pool.baseReserve) :=
      mul_le_mul_of_nonneg_left (by linarith) hval.le
    have hpool : 0 < s.price.val * c.pool.baseReserve := mul_pos hval hB
    have hle' : s.price.val * outputOf s.price .quote e ≤ s.price.val * MARKET_QUANTITY_MAX := by
      linarith
    exact_mod_cast le_of_mul_le_mul_left hle' hval

end PoolContext

lemma activeOrders_launch (orders : List MarketOrder) (mask : Finset ℕ) :
    (activeOrders orders mask).map MarketOrder.launch = activeLaunch mask orders.zipIdx := by
  unfold activeOrders activeLaunch activeOf
  rw [filter_map, map_map, map_map]
  rfl

lemma inputOf_pos {s : ClearingStep} {l : List (MarketOrder × ℕ)} {es : List ℕ}
    (h : Forall₂ (Lively s) l es) (hnum : s.fractionNumerator ≠ 0) {x : MarketOrder × ℕ} (hx : x ∈ l)
    (hm : x.2 ∈ s.activeMask) (hp : isPartial x.1.launch s.launch = true) :
    0 < inputOf x.1.side (l.map (·.1)) es := by
  induction h with
  | nil => cases hx
  | @cons y e l es hy _ ih =>
    rw [map_cons, inputOf_cons]
    rcases mem_cons.mp hx with rfl | hx
    · have := hy.2 hm hp hnum
      rw [if_pos rfl]
      omega
    · have := ih hx
      omega

/-! ### A round of clearing -/

section Round

variable {c : PoolContext} {orders : List MarketOrder} {s : ClearingStep}

lemma poolContext_orders (pool : PoolState) (orders : List MarketOrder) (mask : Finset ℕ) :
    (poolContext pool orders mask).orders = activeLaunch mask orders.zipIdx :=
  activeOrders_launch orders mask

/-- The rounded fill of the partial group. -/
def roundedShare (s : ClearingStep) (mt : ℕ) : ℕ := s.fractionNumerator * mt / s.fractionDenominator

lemma marginalTotal_ok {pool : PoolState} {mask : Finset ℕ} (hc : (poolContext pool orders mask).Ok) :
    capacityWhere (activeOrders orders mask) (fun o =>
        decide (some o.side = s.partialSide) && decide (classifyOrder o s.price = .marginal)) =
      .ok (partialTotal (poolContext pool orders mask).orders s.launch) :=
  capacityWhere_eq hc.quantities_lt fun o _ => (isPartial_launch o s).symm

variable (hc : c.Ok) (hs : c.RateSpec s) (horders : c.orders = activeLaunch s.activeMask orders.zipIdx)
include hs

lemma roundedShare_bounds (mt : ℕ) :
    (roundedShare s mt : ℚ) ≤ (s.fractionNumerator : ℚ) / s.fractionDenominator * mt ∧
      (s.fractionNumerator : ℚ) / s.fractionDenominator * mt < roundedShare s mt + 1 :=
  floor_bounds hs.fraction_pos

lemma roundedShare_le (mt : ℕ) : roundedShare s mt ≤ mt := by
  calc s.fractionNumerator * mt / s.fractionDenominator
      ≤ s.fractionDenominator * mt / s.fractionDenominator :=
        Nat.div_le_div_right (Nat.mul_le_mul_right _ hs.fraction_le)
    _ = mt := Nat.mul_div_cancel_left _ hs.fraction_pos
include horders

lemma roundSpec_of_loop {a : MarketAllocation}
    (h : MarketLoopSpec s (roundedShare s (partialTotal c.orders s.launch)) (partialTotal c.orders s.launch) 0
      orders.zipIdx a)
    (halloc : a.allocated = roundedShare s (partialTotal c.orders s.launch)) (hdust : a.dust = ∅) :
    RoundSpec c orders s a.effective := by
  set mt := partialTotal c.orders s.launch with hmt
  have hfst : orders.zipIdx.map (·.1) = orders := by simp
  have hlively : Forall₂ (Lively s) orders.zipIdx a.effective :=
    h.lively.imp fun _ _ hx => hx (by simp [hdust])
  have hinput : ∀ side, inputOf side orders a.effective =
      fillTotal c.orders s.launch side.launch + shareOf s side (roundedShare s mt) := by
    intro side
    have := h.input_eq side
    rw [hfst, ← horders, halloc] at this
    simpa [shareOf] using this
  obtain ⟨hlow, hhigh⟩ := roundedShare_bounds hs mt
  refine
    { fills := hfst ▸ forall₂_map_left_iff.mpr h.fills
      pays := hfst ▸ forall₂_map_left_iff.mpr (hlively.imp fun _ _ hx => hx.1)
      input_le := fun side => ?_
      exact_lt := fun side => ?_
      exact_zero := fun side hzero => ?_ }
  · rw [hinput, PoolContext.exactInput, Nat.cast_add]
    unfold shareOf
    split_ifs
    · exact add_le_add le_rfl hlow
    · simp
  · rw [hinput, PoolContext.exactInput, Nat.cast_add]
    unfold shareOf
    split_ifs
    · linarith
    · simp
  · rw [hinput] at hzero
    obtain ⟨hfill, hshare⟩ := Nat.add_eq_zero_iff.mp hzero
    rw [PoolContext.exactInput, hfill]
    by_cases hside : s.partialSide = some side
    · rw [if_pos hside]
      by_cases hnum : s.fractionNumerator = 0
      · simp [hnum]
      by_cases hmt0 : mt = 0
      · simp [← hmt, hmt0]
      -- an order of the partial group is lively, so its side has an input
      exfalso
      obtain ⟨o, ho, hp⟩ : ∃ o ∈ c.orders, isPartial o s.launch = true := by
        by_contra hnone
        push Not at hnone
        have hnil : c.orders.filter (fun o => isPartial o s.launch) = [] :=
          filter_eq_nil_iff.mpr fun o ho => hnone o ho
        exact hmt0 (by rw [hmt, partialTotal, total, hnil]; rfl)
      rw [horders] at ho
      obtain ⟨y, hy, rfl⟩ := mem_map.mp ho
      obtain ⟨hy, hm⟩ := mem_filter.mp hy
      obtain ⟨x, hx, rfl⟩ := mem_map.mp hy
      have hpos := inputOf_pos hlively hnum hx (of_decide_eq_true hm) hp
      have hxside : x.1.side = side := by
        rw [show (launchPair x).1 = x.1.launch from rfl, isPartial_launch, Bool.and_eq_true,
          decide_eq_true_eq, hside] at hp
        exact Option.some.inj hp.1
      rw [hfst, hxside, hinput] at hpos
      omega
    · rw [if_neg hside]
      simp
include hc

lemma full_outputs_fit {x : MarketOrder × ℕ} (hx : x ∈ orders.zipIdx) (hm : x.2 ∈ s.activeMask)
    (hcls : classifyOrder x.1 s.price ≠ .outside) (hp : isPartial x.1.launch s.launch = false) :
    outputOf s.price x.1.side x.1.capacity < U64 := by
  have hmem : x.1.launch ∈ c.orders := by
    rw [horders]
    exact mem_map.mpr ⟨launchPair x, mem_filter.mpr
      ⟨mem_map_of_mem hx, decide_eq_true hm⟩, rfl⟩
  have hle : x.1.capacity ≤ fillTotal c.orders s.launch x.1.side.launch := by
    refine single_le_sum (fun _ _ => Nat.zero_le _) _ (mem_map.mpr ⟨x.1.launch, ?_, rfl⟩)
    refine mem_filter.mpr ⟨hmem, ?_⟩
    have hcls' : classify x.1.launch s.launch.price ≠ .outside := fun h =>
      hcls ((classify_launch x.1 s.price).symm.trans h)
    simp only [Bool.and_eq_true, decide_eq_true_eq, hp, Bool.not_false, and_true]
    exact ⟨rfl, hcls'⟩
  have hexact : (x.1.capacity : ℚ) ≤ c.exactInput s x.1.side := by
    have h1 : (x.1.capacity : ℚ) ≤ fillTotal c.orders s.launch x.1.side.launch := by exact_mod_cast hle
    unfold PoolContext.exactInput
    split_ifs
    · have : (0 : ℚ) ≤ (s.fractionNumerator : ℚ) / s.fractionDenominator *
          partialTotal c.orders s.launch := by positivity
      linarith
    · linarith
  exact lt_of_le_of_lt (hs.outputOf_le hc hexact) (by decide)

omit horders in
lemma share_outputs_fit {side : MarketSide} (hside : s.partialSide = some side) :
    outputOf s.price side (roundedShare s (partialTotal c.orders s.launch)) < U64 := by
  have hexact : (roundedShare s (partialTotal c.orders s.launch) : ℚ) ≤ c.exactInput s side := by
    obtain ⟨hlow, -⟩ := roundedShare_bounds hs (partialTotal c.orders s.launch)
    unfold PoolContext.exactInput
    rw [if_pos hside]
    linarith
  exact lt_of_le_of_lt (hs.outputOf_le hc hexact) (by decide)

/-- **Rounding a step succeeds**: the loop hands out exactly the rounded share. -/
theorem allocateMarket_ok (hcap : ∀ o ∈ orders, 0 < o.capacity) :
    ∃ a, allocateMarket s (roundedShare s (partialTotal c.orders s.launch)) (partialTotal c.orders s.launch) 0 0
        orders.zipIdx = .ok a ∧
      (a.seen = partialTotal c.orders s.launch ∧ a.allocated = roundedShare s (partialTotal c.orders s.launch)) ∧
      a.dust ⊆ s.activeMask ∧ (a.dust = ∅ → RoundSpec c orders s a.effective) := by
  set mt := partialTotal c.orders s.launch with hmt
  obtain ⟨a, ha, spec⟩ := allocateMarket_loop (s := s) hs.numerator_pos hs.denominator_pos
    (roundedShare_le hs mt) (lt_of_le_of_lt (total_le_sum _ _) hc.quantities_lt)
    (fun hz => by simp [roundedShare, hz]) (fun _ hside => share_outputs_fit hc hs hside)
    orders.zipIdx 0 (fun x hx => hcap x.1 (fst_mem_of_mem_zipIdx hx))
    (fun _ hx hm hcls hp => full_outputs_fit hc hs horders hx hm hcls hp) (by rw [← horders, Nat.zero_add])
  rw [Nat.mul_zero, Nat.zero_div] at ha spec
  have halloc : a.allocated = roundedShare s mt := by
    rw [spec.allocated_eq]
    rcases Nat.eq_zero_or_pos mt with hz | hpos
    · have := roundedShare_le hs mt
      rw [hz] at this ⊢
      omega
    · exact Nat.mul_div_cancel _ hpos
  exact ⟨a, ha, ⟨spec.seen_eq, halloc⟩, spec.dust_subset, roundSpec_of_loop hs horders spec halloc⟩

end Round

/-! ### The rounds of clearing -/

/-- A solution: the dust-free rounding of the step of an active set. -/
structure MarketSolutionSpec (pool : PoolState) (orders : List MarketOrder) (sol : LimitSolution) :
    Prop where
  step : ∃ mask s, (poolContext pool orders mask).Ok ∧ (poolContext pool orders mask).RateSpec s ∧
    RoundSpec (poolContext pool orders mask) orders s sol.effective ∧ sol.price = s.price

/-- **Clearing ends with a solution**: every step drops its dust from the active set. -/
theorem solveMarketLoop_ok {pool : PoolState} {orders : List MarketOrder}
    (hcap : ∀ o ∈ orders, 0 < o.capacity) (hc : ∀ mask, (poolContext pool orders mask).Ok) :
    ∀ (fuel : ℕ) (mask : Finset ℕ), mask.card < fuel →
      ∃ sol, solveMarketLoop pool orders fuel mask = .ok sol ∧ MarketSolutionSpec pool orders sol
  | 0, mask, hcard => absurd hcard (Nat.not_lt_zero _)
  | fuel + 1, mask, hcard => by
    obtain ⟨s, hstep, hs, -⟩ := marketStep_ok (hc mask)
    have hmask : s.activeMask = mask := hs.mask_eq
    obtain ⟨a, ha, hconserve, hsub, hround⟩ := allocateMarket_ok (hc mask) hs
      (hmask ▸ poolContext_orders pool orders mask) hcap
    rw [hmask] at hsub
    have hlt : partialTotal (poolContext pool orders mask).orders s.launch < U64 :=
      lt_of_le_of_lt (total_le_sum _ _) (hc mask).quantities_lt
    have hfloor : floorRatio s.fractionNumerator _ s.fractionDenominator =
        .ok (roundedShare s (partialTotal (poolContext pool orders mask).orders s.launch)) :=
      floorRatio_eq hs.fraction_pos hs.fraction_le hlt
    rw [solveMarketLoop, bind_of_ok hstep, bind_of_ok (marginalTotal_ok (hc mask)), bind_of_ok hfloor,
      bind_of_ok ha, require_bind hconserve]
    by_cases hdust : a.dust = ∅
    · rw [if_pos hdust]
      exact ⟨_, rfl, ⟨mask, s, hc mask, hs, hround hdust, rfl⟩⟩
    · -- the dust is not empty, so the next active set is smaller
      have hlt : (mask \ a.dust).card < fuel := by
        have h1 := Finset.card_sdiff_add_card_eq_card hsub
        have h2 := Finset.card_pos.mpr (Finset.nonempty_iff_ne_empty.mpr hdust)
        omega
      obtain ⟨sol, hsol, hspec⟩ := solveMarketLoop_ok hcap hc fuel (mask \ a.dust) hlt
      rw [if_neg hdust, bind_of_ok hsol]
      exact ⟨_, rfl, ⟨hspec.step⟩⟩

end Noid.Tx
