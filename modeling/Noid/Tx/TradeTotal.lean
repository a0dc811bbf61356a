import Noid.Tx.TradeFlow

/-! # Which trades fail

A trade on a market in order fails for three reasons only: it is out of range, it asks for more than it gets, or the
market has no room for it. -/

namespace Noid.Tx

open Noid.Lib PoolState

section
variable {H : NativeHash}

/-- The failures of a swap that leave the market as it was. -/
def SwapDeclined (e : MarketError) : Prop := e = .minimum ∨ e = .quantity ∨ e = .capacity

/-- The failures of a trade on a launch that leave it as it was. -/
def TradeDeclined : LaunchTradeError → Prop
  | .minimum => True
  | .market e => SwapDeclined e
  | .launch e => e = .quantity ∨ e = .capacity

/-! ### Pools -/

lemma swap_output_lt {input output effective : ℕ} (hin : 0 < input) (hout : 0 < output) :
    output * effective / (input + effective) < output := by
  rw [Nat.div_lt_iff_lt_mul (by omega)]
  exact Nat.mul_lt_mul_of_pos_left (by omega) hout

lemma swap_product_le {input output effective gross : ℕ} (h : effective ≤ gross) :
    input * output ≤ (input + gross) * (output - output * effective / (input + effective)) := by
  set taken := output * effective / (input + effective) with htaken
  have hle : taken * (input + effective) ≤ output * effective := Nat.div_mul_le_self _ _
  have hrest : input * output ≤ (input + effective) * (output - taken) := by
    rw [Nat.mul_sub, Nat.add_mul, Nat.mul_comm effective output, Nat.mul_comm (input + effective) taken]
    omega
  exact hrest.trans (Nat.mul_le_mul_right _ (by omega))

variable {d : MarketDefinition} {p : PoolState}

/-- The reserve a swap pays into. -/
def PoolState.inputReserve (p : PoolState) : LaunchSide → ℕ
  | .buy => p.baseReserve
  | .sell => p.quoteReserve

lemma PoolReady.reserves (h : PoolReady H d p) (side : LaunchSide) :
    0 < p.inputReserve side ∧ 0 < p.outputReserve side ∧ p.outputReserve side ≤ MARKET_QUANTITY_MAX := by
  obtain ⟨hvalid, -⟩ := checkDefinition_eq_ok.mp h.checked
  obtain ⟨-, ⟨hbase, hbase'⟩, ⟨hquote, hquote'⟩, -⟩ := validate_eq_ok.mp hvalid
  cases side <;> simp only [inputReserve, outputReserve] <;> omega

lemma inputReserve_eq (p : PoolState) (side : LaunchSide) :
    (if decide (side = .buy) = true then p.baseReserve else p.quoteReserve) = p.inputReserve side := by
  cases side <;> rfl

lemma outputReserve_eq (p : PoolState) (side : LaunchSide) :
    (if decide (side = .buy) = true then p.quoteReserve else p.baseReserve) = p.outputReserve side := by
  cases side <;> rfl

lemma swapped_eq (p : PoolState) (side : LaunchSide) (gross output : ℕ) : (if decide (side = .buy) = true then
        { p with baseReserve := p.inputReserve side + gross, quoteReserve := p.outputReserve side - output }
      else { p with quoteReserve := p.inputReserve side + gross, baseReserve := p.outputReserve side - output }) =
      p.swapped side gross output := by
  cases side <;> rfl

lemma fee_le (gross : ℕ) : divCeil (gross * MARKET_FEE_BPS) 10000 ≤ gross := by
  refine divCeil_le (by norm_num) ?_
  unfold MARKET_FEE_BPS
  omega

/-- A pool is in order after a swap that fits and does not lower the product of the reserves. -/
theorem PoolReady.swapped (h : PoolReady H d p) {side : LaunchSide} {gross output : ℕ}
    (hcap : p.inputReserve side + gross ≤ MARKET_QUANTITY_MAX) (hout : output < p.outputReserve side)
    (hproduct : p.inputReserve side * p.outputReserve side ≤
      (p.inputReserve side + gross) * (p.outputReserve side - output)) :
    (p.swapped side gross output).checkDefinition H d = .ok () ∧ p.baseReserve * p.quoteReserve ≤
        (p.swapped side gross output).baseReserve * (p.swapped side gross output).quoteReserve := by
  obtain ⟨hvalid, hd, hid⟩ := checkDefinition_eq_ok.mp h.checked
  obtain ⟨hpool, hbase, hquote, hshares, hsquare, hlocked, hphase⟩ := validate_eq_ok.mp hvalid
  cases side with
  | buy =>
    simp only [inputReserve, outputReserve] at hcap hout hproduct
    refine ⟨checkDefinition_eq_ok.mpr ⟨validate_eq_ok.mpr ⟨hpool, ?_, ?_, hshares,
      hsquare.trans hproduct, hlocked, hphase⟩, hd, hid⟩, hproduct⟩
    · exact ⟨by simp only [PoolState.swapped]; omega, hcap⟩
    · simp only [PoolState.swapped]
      omega
  | sell =>
    simp only [inputReserve, outputReserve] at hcap hout hproduct
    rw [Nat.mul_comm, Nat.mul_comm (_ + _)] at hproduct
    refine ⟨checkDefinition_eq_ok.mpr ⟨validate_eq_ok.mpr ⟨hpool, ?_, ?_, hshares,
      hsquare.trans hproduct, hlocked, hphase⟩, hd, hid⟩, hproduct⟩
    · simp only [PoolState.swapped]
      omega
    · exact ⟨by simp only [PoolState.swapped]; omega, hcap⟩

/-- **A swap on a pool in order is only ever declined.** -/
theorem quoteExactInput_failsOnly (h : PoolReady H d p) (side : LaunchSide) (gross minimum : ℕ) :
    FailsOnly SwapDeclined (quoteExactInput H d p (d.inputAsset side) gross minimum) := by
  obtain ⟨hin, hout, hmax⟩ := h.reserves side
  refine .bind_ok h.checked (.bind_ok (require_of _ ⟨h.idle, h.noid, h.locked⟩) ?_)
  refine .bind (.require fun _ => .inr (.inl rfl)) fun _ hgross => ?_
  obtain ⟨-, hgross⟩ := require_eq_ok.mp hgross
  refine .bind (.require fun _ => .inr (.inl rfl)) fun _ _ => .bind_ok (swapSide_inputAsset h.quote_ne side) ?_
  rw [inputReserve_eq, outputReserve_eq]
  refine .bind (.checked fun hbig => ?_) fun fee _ => ?_
  · have := fee_le gross
    unfold MARKET_QUANTITY_MAX U64 at *
    omega
  refine .bind (.checkedSub fun _ => .inr (.inl rfl)) fun effective heffective => ?_
  obtain ⟨-, rfl⟩ := checkedSub_eq_ok.mp heffective
  refine .bind (.require fun _ => .inr (.inl rfl)) fun _ _ => ?_
  refine .bind (.checked fun _ => .inr (.inr rfl)) fun afterInput hafterInput => ?_
  obtain ⟨-, rfl⟩ := checked_eq_ok.mp hafterInput
  refine .bind (.require fun _ => .inr (.inr rfl)) fun _ hcap => ?_
  rw [require_eq_ok] at hcap
  have hlt : p.outputReserve side * (gross - fee) / (p.inputReserve side + (gross - fee)) < p.outputReserve side :=
    swap_output_lt hin hout
  refine .bind_ok (checked_of_lt _ (by unfold MARKET_QUANTITY_MAX U64 at *; omega)) ?_
  refine .bind (.require fun _ => .inl rfl) fun _ _ => ?_
  refine .bind_ok (checkedSub_eq_ok.mpr ⟨hlt.le, rfl⟩) (.bind_ok (require_of _ (by omega)) ?_)
  obtain ⟨hcheck, hproduct⟩ := h.swapped hcap hlt (swap_product_le (Nat.sub_le gross fee))
  rw [swapped_eq]
  exact .bind_ok hcheck (.bind_ok (require_of _ hproduct) .pure)

/-! ### The curve -/

section
variable {d : LaunchDefinition} {before : LaunchState}

lemma cashOf_mono {m n : ℕ} (h : m ≤ n) : d.cashOf m ≤ d.cashOf n := by
  refine Nat.div_le_div_right ?_
  have hnum : curveNumerator d.initialSupply m ≤ curveNumerator d.initialSupply n := by
    unfold curveNumerator
    gcongr
  omega

lemma affordableUnits_ok (hd : d.validate = .ok ()) (sold limit : ℕ) :
    ∀ (fuel low high : ℕ), low ≤ high → high < low + 2 ^ fuel → sold + high ≤ d.saleUnits →
      d.cashOf (sold + low) ≤ limit → (∀ n, sold + n ≤ d.saleUnits → d.cashOf (sold + n) ≤ limit → n ≤ high) →
      ∃ units, affordableUnits d sold limit fuel low high = .ok units ∧
        IsGreatest {n | sold + n ≤ d.saleUnits ∧ d.cashOf (sold + n) ≤ limit} units
  | 0, low, high, hle, hfuel, hsale, hcash, hmax => by
    obtain rfl : low = high := by omega
    exact ⟨low, rfl, ⟨hsale, hcash⟩, fun n hn => hmax n hn.1 hn.2⟩
  | fuel + 1, low, high, hle, hfuel, hsale, hcash, hmax => by
    unfold affordableUnits
    split_ifs with hlt
    · have hmiddle : low + divCeil (high - low) 2 ≤ high ∧ 0 < divCeil (high - low) 2 ∧
          high ≤ low + 2 * divCeil (high - low) 2 ∧ 2 * divCeil (high - low) 2 ≤ high - low + 1 := by
        unfold divCeil
        omega
      obtain ⟨hok, -⟩ := curveCash_ok hd (show sold + (low + divCeil (high - low) 2) ≤ d.saleUnits by omega)
      simp only [bind_of_ok hok]
      split_ifs with hpays
      · exact affordableUnits_ok hd sold limit fuel _ high hmiddle.1 (by omega) hsale hpays hmax
      · refine affordableUnits_ok hd sold limit fuel low _ (by omega) (by omega) (by omega) hcash fun n hn hlimit => ?_
        by_contra hgt
        refine hpays ((cashOf_mono ?_).trans hlimit)
        omega
    · obtain rfl : low = high := by omega
      exact ⟨low, rfl, ⟨hsale, hcash⟩, fun n hn => hmax n hn.1 hn.2⟩

/-- A launch that trades. -/
structure CurveReady (H : NativeHash) (d : LaunchDefinition) (s : LaunchState) : Prop where
  checked : s.checkDefinition H d = .ok ()
  idle : s.phase = .idle

lemma CurveReady.cash_eq (h : CurveReady H d before) :
    before.marketNoid = d.cashOf (d.initialSupply - before.inventoryUnits) :=
  (checkDefinition_inv h.checked).cash_eq

lemma CurveReady.sold_lt (h : CurveReady H d before) :
    d.initialSupply - before.inventoryUnits < d.saleUnits :=
  (checkDefinition_inv h.checked).sold_lt

/-- A buy gets the most units that it pays for. -/
theorem CurveReady.affordable (h : CurveReady H d before) (gross : ℕ) :
    ∃ units, affordableUnits d (d.initialSupply - before.inventoryUnits) (before.marketNoid + gross) 64 0
        (d.saleUnits - (d.initialSupply - before.inventoryUnits)) = .ok units ∧
      IsGreatest {n | d.initialSupply - before.inventoryUnits + n ≤ d.saleUnits ∧
        d.cashOf (d.initialSupply - before.inventoryUnits + n) ≤ before.marketNoid + gross} units := by
  have hd := checkDefinition_definition h.checked
  have hsold := h.sold_lt
  have hmax := (definition_supply hd).le_max
  have hsale : d.saleUnits ≤ d.initialSupply := by
    unfold LaunchDefinition.saleUnits
    omega
  refine affordableUnits_ok hd _ _ 64 0 _ (Nat.zero_le _) ?_ (by omega) ?_ (fun n hn _ => by omega)
  · unfold LAUNCH_MAX_SUPPLY MARKET_QUANTITY_MAX at hmax
    omega
  · rw [Nat.add_zero, ← h.cash_eq]
    exact Nat.le_add_right _ _

/-- A trade on the curve is declined or sells at most the sale; a buy pays at most its input. -/
theorem curveMove_failsOnly (h : CurveReady H d before) (gross : ℕ) (side : LaunchSide) :
    FailsOnly (fun e => e = .quantity ∨ e = .capacity) (curveMove d before gross side) ∧
      ∀ nextSold spent output, curveMove d before gross side = .ok (nextSold, spent, output) →
        nextSold ≤ d.saleUnits ∧ (side = .buy → spent ≤ gross) := by
  have hd := checkDefinition_definition h.checked
  have hcash := h.cash_eq
  have hsold := h.sold_lt
  cases side with
  | buy =>
    obtain ⟨units, hunits, ⟨hmax, hlimit⟩, -⟩ := h.affordable gross
    have hmono := cashOf_mono (d := d) (Nat.le_add_right (d.initialSupply - before.inventoryUnits) units)
    have hok := (curveCash_ok hd hmax).1
    constructor
    · refine .bind_ok hunits (.bind (.require fun _ => .inl rfl) fun _ _ => .bind_ok hok ?_)
      refine .bind_ok (checkedSub_eq_ok.mpr ⟨?_, rfl⟩) .pure
      rw [hcash]
      exact hmono
    · intro nextSold spent output hmove
      simp only [curveMove, hunits, ok_rules, checkedSub_eq_ok, Except.ok.injEq, Prod.mk.injEq] at hmove
      obtain ⟨_, rfl, -, cash, hpaid, paid, ⟨-, rfl⟩, rfl, rfl, rfl⟩ := hmove
      obtain rfl := Except.ok.inj (hok.symm.trans hpaid)
      refine ⟨hmax, fun _ => ?_⟩
      omega
  | sell =>
    constructor
    · refine .bind (.checkedSub fun _ => .inl rfl) fun next hnext => ?_
      obtain ⟨hle, rfl⟩ := checkedSub_eq_ok.mp hnext
      refine .bind_ok (curveCash_ok hd (by omega)).1 (.bind_ok (checkedSub_eq_ok.mpr ⟨?_, rfl⟩) .pure)
      rw [hcash]
      exact cashOf_mono (Nat.sub_le _ _)
    · intro nextSold spent output hmove
      obtain ⟨-, -, hnext, -⟩ := curveMove_eq_ok hmove
      exact ⟨by omega, by simp⟩

/-- A launch goes on, or graduates, from any number of units sold. -/
theorem curveAfter_ok (hid : d.marketDefinition.id H ≠ 0) (h : CurveReady H d before) {nextSold : ℕ} (hle : nextSold ≤ d.saleUnits) :
    ∃ after, curveAfter H d before nextSold = .ok after := by
  have hd := checkDefinition_definition h.checked
  obtain ⟨hcash, hcashle⟩ := curveCash_ok hd hle
  rw [curveAfter, bind_of_ok hcash]
  split_ifs with hsale
  · obtain ⟨pool, hpool, hbase, -⟩ := graduationPool_ok hid hd
    refine ⟨.market pool, ?_⟩
    rw [bind_of_ok hpool, require_bind ?_]
    · rfl
    · rw [hsale, graduation_cash_eq hd, ← hbase, noidValue]
      obtain ⟨-, -, -, hnoid⟩ := checkDefinition_eq_ok.mp (graduationPool_ready hpool).checked
      rw [hnoid, (graduationPool_ready hpool).noid, if_pos rfl]
  · have hstate := checkDefinition_inv h.checked
    have hphase : before.PhaseOk := by
      have hcheck := h.checked
      simp only [LaunchState.checkDefinition, bind_eq_ok, LaunchState.validate_eq_ok] at hcheck
      obtain ⟨-, ⟨-, hphase⟩, -⟩ := hcheck
      exact hphase
    exact ⟨_, bind_of_ok (checkDefinition_of_sold hd hstate.launch_eq hstate.launch_ne hphase
      (lt_of_le_of_ne hle hsale) rfl rfl)⟩

lemma marketQuote_failsOnly {p : PoolState} (h : PoolReady H d.marketDefinition p) (side : LaunchSide)
    (gross minimum : ℕ) : FailsOnly TradeDeclined (marketQuote H d p side gross minimum) := by
  refine .bind (.mapError ?_) fun _ _ => .pure
  exact quoteExactInput_failsOnly h side gross minimum

lemma graduationTail_failsOnly {q : TradeQuote} {remaining : ℕ} (hside : q.side = .buy)
    (hfollows : q.after.Follows H d before) (hspent : q.spentInput + remaining < U64)
    (houtput : q.after.tokens + q.output < U64) : FailsOnly TradeDeclined (graduationTail H d remaining q) := by
  unfold graduationTail
  split
  · exact .ok
  · rename_i pool hpool
    rw [hpool] at hfollows houtput
    split_ifs
    · exact .ok
    · have hfails := marketQuote_failsOnly hfollows q.side remaining 1
      split
      · rename_i swap hswap
        rw [hside] at hswap
        obtain ⟨htrades, hall, -⟩ := marketQuote_moves hswap
        have htokens := htrades.moves.2
        refine .bind_ok (checked_of_lt _ (by omega)) (.bind_ok (checked_of_lt _ ?_) .pure)
        omega
      · exact .ok
      · exact .ok
      · rename_i e _ _ he
        exact .error (hfails e he)

/-- **A trade on a launch in order is only ever declined.** -/
theorem quoteCurveExactInput_failsOnly (hid : d.marketDefinition.id H ≠ 0) (h : CurveReady H d before) (side : LaunchSide)
    (gross minimum : ℕ) : FailsOnly TradeDeclined (quoteCurveExactInput H d before side gross minimum) := by
  have hstate := checkDefinition_inv h.checked
  refine .bind_ok (mapError_eq_ok.mpr h.checked) (.bind_ok (require_of _ h.idle) ?_)
  refine .bind (.mapError (.require fun _ => .inl rfl)) fun _ hgross => ?_
  obtain ⟨-, hgross⟩ := require_eq_ok.mp (mapError_eq_ok.mp hgross)
  refine .bind (.mapError (.require fun _ => .inl rfl)) fun _ _ => ?_
  obtain ⟨hfails, hbounds⟩ := curveMove_failsOnly h gross side
  refine .bind (.mapError hfails) ?_
  rintro ⟨nextSold, spent, output⟩ hmove
  rw [mapError_eq_ok] at hmove
  obtain ⟨hle, hspent⟩ := hbounds nextSold spent output hmove
  obtain ⟨after, hafter⟩ := curveAfter_ok hid h hle
  refine .bind_ok (mapError_eq_ok.mpr hafter) (.bind ?_ fun _ _ => .bind (.require fun _ => trivial) fun _ _ => .pure)
  have hmoves := curve_moves hstate.inventory_le hmove hafter
  cases side with
  | sell => exact .ok
  | buy =>
    refine .bind_ok (checkedSub_eq_ok.mpr ⟨hspent rfl, rfl⟩) ?_
    refine graduationTail_failsOnly rfl (curveAfter_eq_ok hafter).2.2 ?_ ?_
    · have := hspent rfl
      simp only
      unfold MARKET_QUANTITY_MAX U64 at *
      omega
    · have hsupply := (definition_supply (checkDefinition_definition h.checked)).le_max
      have hle := hstate.inventory_le
      have htokens := hmoves.2
      simp only [TradeState.tokens] at htokens ⊢
      unfold LAUNCH_MAX_SUPPLY MARKET_QUANTITY_MAX U64 at *
      omega

/-- A control of a launch that trades. -/
def TradeState.Ready (H : NativeHash) (d : LaunchDefinition) : TradeState → Prop
  | .curve s => CurveReady H d s
  | .market p => PoolReady H d.marketDefinition p

lemma TradeState.quote_failsOnly (hid : d.marketDefinition.id H ≠ 0) {t : TradeState} (h : t.Ready H d)
    (side : LaunchSide) (gross minimum : ℕ) : FailsOnly TradeDeclined (t.quote H d side gross minimum) := by
  cases t with
  | curve s => exact quoteCurveExactInput_failsOnly hid h side gross minimum
  | market p => exact marketQuote_failsOnly h side gross minimum

end

end

end Noid.Tx
