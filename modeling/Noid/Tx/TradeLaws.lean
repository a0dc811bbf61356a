import Noid.Tx.TradeTotal

/-! # Fair trades

No sequence of swaps takes value out of a pool, because the product of the reserves never falls.  A buy on the curve gets
the most units that its input pays for.  The pool that a sold-out curve graduates into starts with its cash and at its
price. -/

namespace Noid.Tx

open Noid.Lib NativeHash

section
variable {H : NativeHash}

/-! ### Sequences of swaps -/

section
variable {d : MarketDefinition} {p p' : PoolState} {asset : AssetId} {gross minimum : ℕ} {q : SwapQuote}

/-- A valid idle pool whose liquidity is locked for good. -/
structure Permanent (H : NativeHash) (d : MarketDefinition) (p : PoolState) : Prop where
  checked : p.checkDefinition H d = .ok ()
  idle : p.phase = .idle
  locked : p.lockedShares = p.totalShares

/-- One successful swap of any direction and amount. -/
def Swaps (H : NativeHash) (d : MarketDefinition) (p p' : PoolState) : Prop :=
  ∃ asset gross minimum q, quoteExactInput H d p asset gross minimum = .ok q ∧ q.after = p'

lemma exists_side (h : quoteExactInput H d p asset gross minimum = .ok q) : ∃ side, asset = d.inputAsset side := by
  simp only [quoteExactInput, bind_eq_ok] at h
  obtain ⟨-, -, -, -, -, -, -, -, b, hb, -⟩ := h
  unfold swapSide at hb
  split_ifs at hb with hbase hquote
  · exact ⟨.buy, hbase⟩
  · exact ⟨.sell, hquote⟩

lemma Swaps.step (h : Swaps H d p p') :
    Permanent H d p' ∧ p'.totalShares = p.totalShares ∧
      p.baseReserve * p.quoteReserve ≤ p'.baseReserve * p'.quoteReserve := by
  obtain ⟨asset, gross, minimum, q, hq, rfl⟩ := h
  obtain ⟨side, rfl⟩ := exists_side hq
  obtain ⟨-, hready, -, -, -, hafter⟩ := quoteExactInput_eq_ok hq
  refine ⟨⟨hready.checked, hready.idle, hready.locked⟩, ?_, ?_⟩
  · rw [hafter]
    cases side <;> rfl
  · simp only [quoteExactInput, ok_rules] at hq
    obtain ⟨_, -, -, _, -, _, -, _, -, _, -, _, -, -, _, -, -, _, -, -, _, -, -, _, -, hproduct, rfl⟩ := hq
    exact hproduct

lemma swaps_run (h : Relation.ReflTransGen (Swaps H d) p p') (hp : Permanent H d p) :
    Permanent H d p' ∧ p'.totalShares = p.totalShares ∧
      p.baseReserve * p.quoteReserve ≤ p'.baseReserve * p'.quoteReserve := by
  induction h with
  | refl => exact ⟨hp, rfl, le_rfl⟩
  | tail _ hstep ih =>
    obtain ⟨hpermanent, hshares, hproduct⟩ := hstep.step
    exact ⟨hpermanent, hshares.trans ih.2.1, ih.2.2.trans hproduct⟩

lemma Permanent.bounds (h : Permanent H d p) : 0 < p.baseReserve ∧ 0 < p.quoteReserve ∧
    p.totalShares * p.totalShares ≤ p.baseReserve * p.quoteReserve := by
  obtain ⟨hvalid, -⟩ := PoolState.checkDefinition_eq_ok.mp h.checked
  obtain ⟨-, hbase, hquote, -, hsquare, -⟩ := PoolState.validate_eq_ok.mp hvalid
  omega

/-- What the product keeps: a reserve that has not grown is paid for in the other. -/
theorem le_of_product_le {a b a' b' : ℕ} (ha : 0 < a) (hproduct : a * b ≤ a' * b') (h : a' ≤ a) : b ≤ b' :=
  Nat.le_of_mul_le_mul_left (hproduct.trans (Nat.mul_le_mul_right b' h)) ha

/-- The check of the product never refuses a swap. -/
theorem Permanent.conserves (h : Permanent H d p) (asset : AssetId) (gross minimum : ℕ) :
    quoteExactInput H d p asset gross minimum ≠ .error .conservation := by
  intro herror
  by_cases hnoid : d.baseIsNoid = true
  · have hready : PoolReady H d p := ⟨h.checked, h.idle, hnoid, h.locked⟩
    have hdeclined : ∀ side, asset = d.inputAsset side → False := by
      rintro side rfl
      rcases quoteExactInput_failsOnly hready side gross minimum _ herror with he | he | he <;> cases he
    have hother : swapSide d asset = .error .pool := by
      exact (if_neg (hdeclined .buy)).trans (if_neg (hdeclined .sell))
    have hfails : FailsOnly (· ≠ .conservation) (quoteExactInput H d p asset gross minimum) := by
      refine .bind_ok h.checked (.bind_ok (require_of _ ⟨h.idle, hnoid, h.locked⟩) ?_)
      refine .bind (.require fun _ => by decide) fun _ _ => .bind (.require fun _ => by decide) fun _ _ => ?_
      rw [hother]
      exact .error (by decide)
    exact hfails _ herror rfl
  · have hfails : FailsOnly (· ≠ .conservation) (quoteExactInput H d p asset gross minimum) :=
      .bind_ok h.checked (.bind (.require fun _ => by decide) fun _ hphase => absurd (require_eq_ok.mp hphase).2.1 hnoid)
    exact hfails _ herror rfl

/-- **Swaps extract nothing**: the product of the reserves never falls, and a reserve that ends no higher than it
began leaves the other no lower. -/
theorem swaps_extract_nothing (hp : Permanent H d p) (hrun : Relation.ReflTransGen (Swaps H d) p p') :
    p.baseReserve * p.quoteReserve ≤ p'.baseReserve * p'.quoteReserve ∧
      (p'.totalShares = p.totalShares ∧ p'.totalShares * p'.totalShares ≤ p'.baseReserve * p'.quoteReserve) ∧
      (p'.baseReserve ≤ p.baseReserve → p.quoteReserve ≤ p'.quoteReserve) ∧
      (p'.quoteReserve ≤ p.quoteReserve → p.baseReserve ≤ p'.baseReserve) ∧
      ∀ asset gross minimum, quoteExactInput H d p' asset gross minimum ≠ .error .conservation := by
  obtain ⟨hpermanent, hshares, hproduct⟩ := swaps_run hrun hp
  obtain ⟨hbase, hquote, -⟩ := hp.bounds
  refine ⟨hproduct, ⟨hshares, hpermanent.bounds.2.2⟩, le_of_product_le hbase hproduct, ?_, hpermanent.conserves⟩
  rw [Nat.mul_comm p.baseReserve, Nat.mul_comm p'.baseReserve] at hproduct
  exact le_of_product_le hquote hproduct

/-- A market with a pool of equal reserves. -/
def evenDefinition : MarketDefinition := { genesis := 1, base := NOID_ASSET, quote := 1, profile := MARKET_PROFILE }

def evenPool : PoolState := permanentPool 1000000 1000000 0

/-- A swap and the swap of all its output back. -/
theorem evenPool_swaps_extract_nothing :
    Permanent NativeHash.plain evenDefinition evenPool ∧ ∃ p',
      Relation.ReflTransGen (Swaps NativeHash.plain evenDefinition) evenPool p' ∧ p'.quoteReserve = 1000000 ∧
        p'.baseReserve = 1000061 ∧ evenPool.baseReserve * evenPool.quoteReserve ≤ p'.baseReserve * p'.quoteReserve ∧
        evenPool.baseReserve ≤ p'.baseReserve ∧
        quoteExactInput NativeHash.plain evenDefinition p' NOID_ASSET 10000 1 ≠ .error .conservation := by
  have hp : Permanent plain evenDefinition evenPool := ⟨by decide +kernel, rfl, rfl⟩
  have hthere : Swaps plain evenDefinition evenPool (permanentPool 1010000 990129 0) :=
    ⟨NOID_ASSET, 10000, 1, ⟨NOID_ASSET, 1, 10000, 9970, 9871, _⟩, by decide +kernel, rfl⟩
  have hback : Swaps plain evenDefinition (permanentPool 1010000 990129 0) (permanentPool 1000061 1000000 0) :=
    ⟨1, 9871, 1, ⟨1, NOID_ASSET, 9871, 9841, 9939, _⟩, by decide +kernel, rfl⟩
  have hrun := Relation.ReflTransGen.tail (.single hthere) hback
  obtain ⟨hproduct, -, -, hbase, hquote⟩ := swaps_extract_nothing hp hrun
  exact ⟨hp, _, hrun, rfl, rfl, hproduct, hbase le_rfl, hquote _ _ _⟩

/-! ### Splitting a swap -/

/-- What is left of an input after the fee. -/
def netInput (gross : ℕ) : ℕ := gross - divCeil (gross * MARKET_FEE_BPS) 10000

lemma netInput_add_le (a b : ℕ) : netInput a + netInput b ≤ netInput (a + b) := by
  unfold netInput divCeil MARKET_FEE_BPS
  omega

lemma quoteExactInput_output {side : LaunchSide}
    (h : quoteExactInput H d p (d.inputAsset side) gross minimum = .ok q) :
    q.output = p.outputReserve side * netInput gross / (p.inputReserve side + netInput gross) := by
  obtain ⟨hready, -⟩ := quoteExactInput_eq_ok h
  simp only [quoteExactInput, ok_rules, checked_eq_ok, checkedSub_eq_ok, swapSide_inputAsset hready.quote_ne] at h
  obtain ⟨-, -, -, -, -, -, -, b, hb, fee, ⟨-, rfl⟩, effective, ⟨-, rfl⟩, -, -, -, -, output, ⟨-, rfl⟩, -, -, -, -, -, -, -,
    rfl⟩ := h
  obtain rfl := Except.ok.inj hb
  rw [inputReserve_eq, outputReserve_eq]
  rfl

/-- Two swaps, the second from what the first left, against one with at least their net input. -/
theorem split_output_le {x y a e1 e2 e out1 out2 : ℕ} (hx : 0 < x) (hnet : e1 ≤ a) (hsum : e1 + e2 ≤ e)
    (h1 : out1 = y * e1 / (x + e1)) (h2 : out2 = (y - out1) * e2 / (x + a + e2)) :
    out1 + out2 ≤ y * e / (x + e) := by
  have hle1 : out1 * (x + e1) ≤ y * e1 := h1 ▸ Nat.div_mul_le_self _ _
  have hle2 : out2 * (x + e1 + e2) ≤ (y - out1) * e2 := by
    refine (Nat.mul_le_mul_left out2 (by omega)).trans (?_ : out2 * (x + a + e2) ≤ _)
    exact h2 ▸ Nat.div_mul_le_self _ _
  have hout1 : out1 ≤ y := by
    by_contra hgt
    nlinarith
  obtain ⟨rest, rfl⟩ := Nat.exists_eq_add_of_le hout1
  rw [Nat.add_sub_cancel_left] at hle2
  rw [Nat.le_div_iff_mul_le (by omega)]
  -- over the common denominator both outputs together stay below the output for their joint net input
  have hout : out1 + out2 ≤ out1 + rest := by
    by_contra hgt
    nlinarith
  nlinarith

/-- **Splitting a swap never helps**: `a` and then `b` pay out at most what `a + b` pays. -/
theorem split_swap_le {a b m1 m2 m : ℕ} {q1 q2 : SwapQuote}
    (h1 : quoteExactInput H d p asset a m1 = .ok q1) (h2 : quoteExactInput H d q1.after asset b m2 = .ok q2)
    (h : quoteExactInput H d p asset (a + b) m = .ok q) : q1.output + q2.output ≤ q.output := by
  obtain ⟨side, rfl⟩ := exists_side h
  obtain ⟨hready, -, -, -, -, hafter⟩ := quoteExactInput_eq_ok h1
  have hin : q1.after.inputReserve side = p.inputReserve side + a := by
    rw [hafter]
    cases side <;> rfl
  have hout : q1.after.outputReserve side = p.outputReserve side - q1.output := by
    rw [hafter]
    cases side <;> rfl
  have hsecond := quoteExactInput_output h2
  rw [hin, hout] at hsecond
  rw [quoteExactInput_output h]
  exact split_output_le (hready.reserves side).1 (Nat.sub_le _ _) (netInput_add_le a b) (quoteExactInput_output h1)
    hsecond

theorem evenPool_split_swap_le :
    ∃ q1 q2 q : SwapQuote, quoteExactInput NativeHash.plain evenDefinition evenPool NOID_ASSET 5000 1 = .ok q1 ∧
      quoteExactInput NativeHash.plain evenDefinition q1.after NOID_ASSET 5000 1 = .ok q2 ∧
      quoteExactInput NativeHash.plain evenDefinition evenPool NOID_ASSET (5000 + 5000) 1 = .ok q ∧
      q1.output + q2.output ≤ q.output := by
  have h1 : quoteExactInput plain evenDefinition evenPool NOID_ASSET 5000 1 = .ok ⟨NOID_ASSET, 1, 5000, 4985,
      4960, permanentPool 1005000 995040 0⟩ := by decide +kernel
  have h2 : quoteExactInput plain evenDefinition
      (permanentPool 1005000 995040 0) NOID_ASSET 5000 1 = .ok ⟨NOID_ASSET, 1, 5000, 4985,
      4911, permanentPool 1010000 990129 0⟩ := by decide +kernel
  have h : quoteExactInput plain evenDefinition evenPool NOID_ASSET (5000 + 5000) 1 = .ok ⟨NOID_ASSET, 1, 10000,
      9970, 9871, permanentPool 1010000 990129 0⟩ := by decide +kernel
  exact ⟨_, _, _, h1, h2, h, split_swap_le h1 h2 h⟩

end

/-! ### Buying on the curve -/

section
variable {d : LaunchDefinition} {before : LaunchState} {gross minimum : ℕ} {q : TradeQuote}

lemma cashOf_succ_le {n : ℕ} (hS : 0 < d.initialSupply) (h : n < d.saleUnits) : d.cashOf (n + 1) ≤ d.cashOf n + 1 := by
  have hstep : curveNumerator d.initialSupply (n + 1) ≤ curveNumerator d.initialSupply n + 900 * d.initialSupply := by
    have hn : 10 * n + 5 ≤ 6 * d.initialSupply := by
      unfold LaunchDefinition.saleUnits at h
      omega
    unfold curveNumerator
    linarith
  calc d.cashOf (n + 1) ≤ divCeil (curveNumerator d.initialSupply n + 900 * d.initialSupply) (900 * d.initialSupply) :=
        Nat.div_le_div_right (by omega)
    _ = d.cashOf n + 1 := by
        unfold LaunchDefinition.cashOf divCeil
        rw [show curveNumerator d.initialSupply n + 900 * d.initialSupply + 900 * d.initialSupply - 1 =
          curveNumerator d.initialSupply n + 900 * d.initialSupply - 1 + 900 * d.initialSupply by omega]
        exact Nat.add_div_right _ (by omega)

/-- What follows the curve part of a buy leaves it alone, and nothing follows while the sale lasts. -/
theorem graduationTail_curve {remaining : ℕ} {curve : TradeQuote} (h : graduationTail H d remaining curve = .ok q) :
    (q.curveOutput = curve.curveOutput ∧ q.curveSpent = curve.curveSpent) ∧ ∀ s, curve.after = .curve s → q = curve := by
  unfold graduationTail at h
  split at h
  · obtain rfl := Except.ok.inj h
    exact ⟨⟨rfl, rfl⟩, fun _ _ => rfl⟩
  · rename_i pool hpool
    refine ⟨?_, fun s hs => by rw [hpool] at hs; cases hs⟩
    split_ifs at h
    · obtain rfl := Except.ok.inj h
      exact ⟨rfl, rfl⟩
    · split at h
      · simp only [ok_rules] at h
        obtain ⟨-, -, -, -, rfl⟩ := h
        exact ⟨rfl, rfl⟩
      · obtain rfl := Except.ok.inj h
        exact ⟨rfl, rfl⟩
      · obtain rfl := Except.ok.inj h
        exact ⟨rfl, rfl⟩
      · cases h

/-- **A buy on the curve is exact**: the most units its input pays for, to the last unit of the input. -/
theorem buy_exact (h : quoteCurveExactInput H d before .buy gross minimum = .ok q) :
    IsGreatest {n | d.initialSupply - before.inventoryUnits + n ≤ d.saleUnits ∧
        ∃ cash, d.curveCash (d.initialSupply - before.inventoryUnits + n) = .ok cash ∧
          cash ≤ before.marketNoid + gross} q.curveOutput ∧
      (d.initialSupply - before.inventoryUnits + q.curveOutput < d.saleUnits →
        q.curveSpent = gross ∧ q.refundInput = 0) := by
  simp only [quoteCurveExactInput, ok_rules, Prod.exists, afterCurve, checkedSub_eq_ok] at h
  obtain ⟨⟨⟩, hchecked, hidle, ⟨⟩, -, ⟨⟩, -, nextSold, spent, output, hmove, after, hafter, quote,
    ⟨_, ⟨hspent, rfl⟩, htail⟩, -, rfl⟩ := h
  have hready : CurveReady H d before := ⟨hchecked, hidle⟩
  have hd := checkDefinition_definition hchecked
  obtain ⟨units, hunits, ⟨hsale, hlimit⟩, hgreatest⟩ := hready.affordable gross
  simp only [curveMove, hunits, ok_rules, checkedSub_eq_ok, Except.ok.injEq, Prod.mk.injEq] at hmove
  obtain ⟨_, rfl, -, cash, hcash, _, ⟨hpaid, rfl⟩, rfl, rfl, rfl⟩ := hmove
  obtain ⟨⟨houtput, hcurve⟩, hlast⟩ := graduationTail_curve htail
  obtain rfl : d.cashOf _ = cash := Except.ok.inj ((curveCash_ok hd hsale).1.symm.trans hcash)
  rw [houtput, hcurve]
  refine ⟨⟨⟨hsale, _, hcash, hlimit⟩, ?_⟩, fun hlt => ?_⟩
  · rintro n ⟨hn, cash, hcash', hle⟩
    obtain rfl := Except.ok.inj ((curveCash_ok hd hn).1.symm.trans hcash')
    exact hgreatest ⟨hn, hle⟩
  · -- one more unit is out of reach, and it would cost at most one
    simp only at hlt hspent
    have hnext : before.marketNoid + gross < d.cashOf (d.initialSupply - before.inventoryUnits + units + 1) := by
      by_contra hle
      have := hgreatest ⟨(by omega : d.initialSupply - before.inventoryUnits + (units + 1) ≤ d.saleUnits), not_lt.mp hle⟩
      omega
    have hexact := hnext.trans_le (cashOf_succ_le (definition_supply hd).pos hlt)
    have hgross : d.cashOf (d.initialSupply - before.inventoryUnits + units) - before.marketNoid = gross := by omega
    refine ⟨hgross, ?_⟩
    obtain ⟨s, rfl⟩ : ∃ s, after = .curve s := by
      rw [curveAfter, bind_of_ok hcash, if_neg hlt.ne] at hafter
      simp only [ok_rules] at hafter
      obtain ⟨-, -, rfl⟩ := hafter
      exact ⟨_, rfl⟩
    rw [hlast s rfl]
    exact Nat.sub_eq_zero_of_le hgross.ge

theorem halfSold_buy_exact :
    ∃ q, quoteCurveExactInput NativeHash.plain smallLaunch halfSold .buy 1000 1 = .ok q ∧
      q.curveSpent = 1000 ∧ q.refundInput = 0 := by
  have hbuy : quoteCurveExactInput plain smallLaunch halfSold .buy 1000 1 =
      .ok ⟨.buy, 1000, 1000, 149999, 0, 1000, 149999, .curve { halfSold with
        inventoryUnits := 7 * 10 ^ 10 - 149999, marketNoid := 150001000 }⟩ := by decide +kernel
  exact ⟨_, hbuy, (buy_exact hbuy).2 (by decide)⟩

/-! ### Graduation -/

/-- **Graduation is seamless**: the sold out curve holds the cash of the pool, which starts at its last price. -/
theorem graduation_seamless (hd : d.validate = .ok ()) (hid : d.marketDefinition.id H ≠ 0) :
    d.curveCash d.saleUnits = .ok d.graduationCash ∧
      (∃ p price, d.graduationPool H = .ok p ∧ p.baseReserve = d.initialSupply / 250 ∧
        p.quoteReserve = d.initialSupply - d.saleUnits ∧ p.totalShares = d.initialSupply / 25 ∧
        p.lockedShares = p.totalShares ∧ d.marginalPrice d.saleUnits = .ok price ∧
        p.baseReserve * price.denominator = price.numerator * p.quoteReserve) ∧
      ∀ sold sold', sold ≤ d.saleUnits → sold' ≤ d.saleUnits → ∃ price, d.averagePrice sold sold' = .ok price ∧
        price.denominator < U64 ∧ price.numerator < U64 := by
  obtain ⟨hdex, -, -⟩ := graduation_numbers hd
  have hS := definition_supply hd
  have hwhole := hS.whole
  have hmax := hS.le_max
  have hsaleEq : d.saleUnits = d.initialSupply / 5 * 3 := rfl
  have hcashEq : d.graduationCash = d.initialSupply / 250 := rfl
  unfold TOKEN_UNITS at hwhole
  unfold LAUNCH_MAX_SUPPLY MARKET_QUANTITY_MAX at hmax
  have hprice : ∀ sold sold', sold ≤ d.saleUnits → sold' ≤ d.saleUnits → d.averagePrice sold sold' =
      .ok ⟨3 * d.initialSupply + 5 * (sold + sold'), 900 * d.initialSupply⟩ := by
    intro sold sold' hsold hsold'
    exact (bind_of_ok hd).trans ((require_bind ⟨hsold, hsold'⟩).trans rfl)
  refine ⟨by rw [← graduation_cash_eq hd, (curveCash_ok hd le_rfl).1], ?_, fun sold sold' hsold hsold' => ?_⟩
  · refine ⟨_, _, graduationPool_eq hid hd, rfl, rfl, ?_, rfl, hprice _ _ le_rfl le_rfl, ?_⟩
    · change 10 * d.graduationCash = _
      omega
    · change d.graduationCash * (900 * d.initialSupply) =
        (3 * d.initialSupply + 5 * (d.saleUnits + d.saleUnits)) * d.dexUnits
      rw [hdex, show 3 * d.initialSupply + 5 * (d.saleUnits + d.saleUnits) = 9 * d.initialSupply by omega]
      ring
  · refine ⟨_, hprice sold sold' hsold hsold', ?_⟩
    simp only [U64]
    omega

theorem smallLaunch_seamless : smallLaunch.curveCash smallLaunch.saleUnits = .ok smallLaunch.graduationCash ∧
    (∃ p price, smallLaunch.graduationPool plain = .ok p ∧ p.baseReserve = 4 * 10 ^ 8 ∧ p.quoteReserve = 4 * 10 ^ 10 ∧
      p.lockedShares = p.totalShares ∧ smallLaunch.marginalPrice smallLaunch.saleUnits = .ok price ∧
      p.baseReserve * price.denominator = price.numerator * p.quoteReserve) ∧
    ∃ price, smallLaunch.averagePrice 0 smallLaunch.saleUnits = .ok price ∧ price.denominator < U64 ∧
      price.numerator < U64 := by
  obtain ⟨hcash, ⟨p, price, hpool, hbase, hquote, -, hlocked, hprice, hseamless⟩, hprices⟩ :=
    graduation_seamless (H := plain) (d := smallLaunch) (by decide +kernel) (by decide)
  exact ⟨hcash, ⟨p, price, hpool, hbase, hquote, hlocked, hprice, hseamless⟩,
    hprices 0 _ (Nat.zero_le _) le_rfl⟩

end

end

end Noid.Tx
