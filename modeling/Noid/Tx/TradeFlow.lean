import Noid.Tx.LaunchPayout
import Noid.Tx.Sequential

/-! # What a trade moves

A trade takes its input into the market and its output out of it, whichever part of the market it goes through: the curve,
the pool, or both.  Along any sequence of trades, failed ones included, nothing is created or lost, and the curve only
knows how many units were sold, not in which trades. -/

namespace Noid.Tx

open Noid.Lib

section
variable {H : NativeHash}

/-- The NOID a control holds for its market. -/
def TradeState.noid : TradeState → ℕ
  | .curve s => s.marketNoid
  | .market p => p.baseReserve

/-- The tokens a control holds for its market. -/
def TradeState.tokens : TradeState → ℕ
  | .curve s => s.inventoryUnits
  | .market p => p.quoteReserve

/-- A trade takes its input in and its output out. -/
def Moves (before after : TradeState) (spent output : ℕ) : LaunchSide → Prop
  | .buy => after.noid = before.noid + spent ∧ after.tokens + output = before.tokens
  | .sell => after.noid + output = before.noid ∧ after.tokens = before.tokens + spent

/-- Two buys, one after the other. -/
theorem Moves.trans_buy {a b c : TradeState} {spent spent' output output' : ℕ}
    (h : Moves a b spent output .buy) (h' : Moves b c spent' output' .buy) :
    Moves a c (spent + spent') (output + output') .buy := by
  unfold Moves at *
  omega

/-- A trade that spends at most its input. -/
structure Trades (before : TradeState) (side : LaunchSide) (gross minimum : ℕ) (q : TradeQuote) : Prop where
  moves : Moves before q.after q.spentInput q.output side
  side_eq : q.side = side
  spent_le : q.spentInput ≤ gross
  minimum_le : minimum ≤ q.output

/-! ### Pools -/

/-- A pool that trades: checked against its definition, idle, over NOID, with permanent liquidity. -/
structure PoolReady (H : NativeHash) (d : MarketDefinition) (p : PoolState) : Prop where
  checked : p.checkDefinition H d = .ok ()
  idle : p.phase = .idle
  noid : d.baseIsNoid = true
  locked : p.lockedShares = p.totalShares

variable {p : PoolState} {d : MarketDefinition} {side : LaunchSide}

lemma PoolState.checkDefinition_eq_ok {u : Unit} :
    p.checkDefinition H d = .ok u ↔
      p.validate = .ok () ∧ d.validate = .ok () ∧ p.pool = d.id H ∧ p.baseIsNoid = d.baseIsNoid := by
  simp only [checkDefinition, ok_rules]
  constructor
  · rintro ⟨⟨⟩, hp, ⟨⟩, hd, h⟩
    exact ⟨hp, hd, h⟩
  · rintro ⟨hp, hd, h⟩
    exact ⟨(), hp, (), hd, h⟩

lemma PoolReady.base_eq (h : PoolReady H d p) : d.base = NOID_ASSET := by
  simpa [MarketDefinition.baseIsNoid] using h.noid

lemma PoolReady.quote_ne (h : PoolReady H d p) : d.quote ≠ d.base := by
  obtain ⟨-, hd, -⟩ := PoolState.checkDefinition_eq_ok.mp h.checked
  simp only [MarketDefinition.validate, ok_rules] at hd
  obtain ⟨⟨-, hlt⟩, -⟩ := hd
  exact hlt.ne'

def PoolState.swapped (p : PoolState) (side : LaunchSide) (gross output : ℕ) : PoolState :=
  match side with
  | .buy => { p with baseReserve := p.baseReserve + gross, quoteReserve := p.quoteReserve - output }
  | .sell => { p with quoteReserve := p.quoteReserve + gross, baseReserve := p.baseReserve - output }

/-- The reserve a swap takes its output from. -/
def PoolState.outputReserve (p : PoolState) : LaunchSide → ℕ
  | .buy => p.quoteReserve
  | .sell => p.baseReserve

def MarketDefinition.inputAsset (d : MarketDefinition) : LaunchSide → AssetId
  | .buy => d.base
  | .sell => d.quote

lemma swapSide_inputAsset (hne : d.quote ≠ d.base) (side : LaunchSide) :
    swapSide d (d.inputAsset side) = .ok (decide (side = .buy)) := by
  cases side <;> simp [swapSide, MarketDefinition.inputAsset, hne]

lemma quoteExactInput_eq_ok {before : PoolState} {gross minimum : ℕ} {q : SwapQuote}
    (h : quoteExactInput H d before (d.inputAsset side) gross minimum = .ok q) :
    PoolReady H d before ∧ PoolReady H d q.after ∧ q.grossInput = gross ∧ minimum ≤ q.output ∧
      q.output ≤ before.outputReserve side ∧ q.after = before.swapped side gross q.output := by
  simp only [quoteExactInput, ok_rules, checked_eq_ok, checkedSub_eq_ok] at h
  obtain ⟨⟨⟩, hcheck, ⟨hidle, hnoid, hlocked⟩, ⟨⟩, -, ⟨⟩, -, b, hb, fee, -, effective, -, -, afterInput, ⟨-, rfl⟩,
    -, output, -, hmin, afterOutput, ⟨hle, rfl⟩, -, ⟨⟩, hafter, -, rfl⟩ := h
  have hready : PoolReady H d before := ⟨hcheck, hidle, hnoid, hlocked⟩
  rw [swapSide_inputAsset hready.quote_ne] at hb
  obtain rfl := Except.ok.inj hb
  cases side with
  | buy =>
    simp only [decide_true, if_true] at hle hafter ⊢
    exact ⟨hready, ⟨hafter, hidle, hnoid, hlocked⟩, trivial, hmin, hle, rfl⟩
  | sell =>
    simp only [reduceCtorEq, decide_false, Bool.false_eq_true, if_false] at hle hafter ⊢
    exact ⟨hready, ⟨hafter, hidle, hnoid, hlocked⟩, trivial, hmin, hle, rfl⟩

lemma swapped_moves {gross output : ℕ} (h : output ≤ p.outputReserve side) :
    Moves (.market p) (.market (p.swapped side gross output)) gross output side := by
  cases side with
  | buy => exact ⟨rfl, Nat.sub_add_cancel h⟩
  | sell => exact ⟨Nat.sub_add_cancel h, rfl⟩

/-- A control that `start` can come to: with another inventory and cash, or the pool it graduates into. -/
def TradeState.Follows (H : NativeHash) (d : LaunchDefinition) (start : LaunchState) : TradeState → Prop
  | .curve s => s.checkDefinition H d = .ok () ∧
      s = { start with inventoryUnits := s.inventoryUnits, marketNoid := s.marketNoid }
  | .market p => PoolReady H d.marketDefinition p

lemma TradeState.Follows.trans {d : LaunchDefinition} {start s : LaunchState} {t : TradeState}
    (h : (TradeState.curve s).Follows H d start) (ht : t.Follows H d s) : t.Follows H d start := by
  cases t with
  | market p => exact ht
  | curve s' =>
    refine ⟨ht.1, ?_⟩
    have heq := ht.2
    rw [h.2] at heq
    exact heq

lemma marketQuote_moves {d : LaunchDefinition} {gross minimum : ℕ}
    {q : TradeQuote} (h : marketQuote H d p side gross minimum = .ok q) :
    Trades (.market p) side gross minimum q ∧ q.spentInput = gross ∧
      ∃ p', q.after = .market p' ∧ PoolReady H d.marketDefinition p' := by
  simp only [marketQuote, ok_rules] at h
  obtain ⟨swap, hswap, rfl⟩ := h
  obtain ⟨-, hready, -, hmin, hle, hafter⟩ := quoteExactInput_eq_ok hswap
  refine ⟨⟨?_, rfl, le_rfl, hmin⟩, rfl, swap.after, rfl, hready⟩
  rw [hafter]
  exact swapped_moves hle

/-! ### The curve -/

section
variable {d : LaunchDefinition} {before : LaunchState}
variable {side : LaunchSide} {gross minimum : ℕ} {t : TradeState} {q : TradeQuote}

lemma curveMove_eq_ok {nextSold spent output : ℕ}
    (h : curveMove d before gross side = .ok (nextSold, spent, output)) :
    ∃ cash, d.curveCash nextSold = .ok cash ∧ match side with
      | .buy => nextSold = d.initialSupply - before.inventoryUnits + output ∧ cash = before.marketNoid + spent
      | .sell => nextSold + spent = d.initialSupply - before.inventoryUnits ∧ spent = gross ∧
          cash + output = before.marketNoid := by
  cases side with
  | buy =>
    simp only [curveMove, ok_rules, checkedSub_eq_ok, Prod.mk.injEq] at h
    obtain ⟨units, -, -, cash, hcash, paid, ⟨hle, rfl⟩, rfl, rfl, rfl⟩ := h
    exact ⟨cash, hcash, rfl, (Nat.add_sub_of_le hle).symm⟩
  | sell =>
    simp only [curveMove, ok_rules, checkedSub_eq_ok, Prod.mk.injEq] at h
    obtain ⟨next, ⟨hle, rfl⟩, cash, hcash, paid, ⟨hle', rfl⟩, rfl, rfl, rfl⟩ := h
    exact ⟨cash, hcash, Nat.sub_add_cancel hle, rfl, Nat.add_sub_of_le hle'⟩

lemma graduationPool_ready {p : PoolState} (h : d.graduationPool H = .ok p) :
    PoolReady H d.marketDefinition p := by
  simp only [LaunchDefinition.graduationPool, PoolState.bootstrapPermanent, PoolState.bootstrap, ok_rules] at h
  obtain ⟨-, -, value, ⟨⟨⟩, hd, -, -, -, -, -, -, -, rfl⟩, ⟨⟩, hvalid, rfl⟩ := h
  exact ⟨PoolState.checkDefinition_eq_ok.mpr ⟨hvalid, hd, rfl, rfl⟩, rfl, rfl, rfl⟩

lemma curveAfter_eq_ok {nextSold : ℕ} {after : TradeState} (h : curveAfter H d before nextSold = .ok after) :
    d.curveCash nextSold = .ok after.noid ∧ after.tokens = d.initialSupply - nextSold ∧ after.Follows H d before := by
  simp only [curveAfter, bind_eq_ok] at h
  obtain ⟨cash, hcash, h⟩ := h
  split_ifs at h with hsale
  · simp only [ok_rules] at h
    obtain ⟨pool, hpool, hbase, rfl⟩ := h
    refine ⟨by rw [hcash, ← hbase]; rfl, ?_, graduationPool_ready hpool⟩
    subst hsale
    exact (graduationPool_eq_ok hpool).2
  · simp only [ok_rules] at h
    obtain ⟨⟨⟩, hcheck, rfl⟩ := h
    exact ⟨hcash, rfl, hcheck, rfl⟩

lemma curve_moves {nextSold spent output : ℕ} {after : TradeState} (hle : before.inventoryUnits ≤ d.initialSupply)
    (hmove : curveMove d before gross side = .ok (nextSold, spent, output))
    (hafter : curveAfter H d before nextSold = .ok after) :
    Moves (.curve before) after spent output side := by
  obtain ⟨cash, hcash, hside⟩ := curveMove_eq_ok hmove
  obtain ⟨hnoid, htokens, -⟩ := curveAfter_eq_ok hafter
  obtain rfl : cash = after.noid := Except.ok.inj (hcash.symm.trans hnoid)
  have hsold : nextSold ≤ d.initialSupply := by
    have := curveCash_units_le hcash
    unfold LaunchDefinition.saleUnits at this
    omega
  cases side with
  | buy =>
    obtain ⟨rfl, hpaid⟩ := hside
    refine ⟨hpaid, ?_⟩
    change _ = before.inventoryUnits
    omega
  | sell =>
    obtain ⟨hnext, -, hpaid⟩ := hside
    refine ⟨hpaid, ?_⟩
    change _ = before.inventoryUnits + spent
    omega

/-- The rest of a buy goes on in the pool. -/
theorem graduationTail_moves {remaining : ℕ} {q' : TradeQuote} (hside : q.side = .buy)
    (hq : Moves t q.after q.spentInput q.output .buy) (hfollows : q.after.Follows H d before)
    (h : graduationTail H d remaining q = .ok q') :
    Moves t q'.after q'.spentInput q'.output .buy ∧ q'.side = .buy ∧
      (q'.spentInput = q.spentInput ∨ q'.spentInput = q.spentInput + remaining) ∧
      q'.after.Follows H d before := by
  unfold graduationTail at h
  split at h
  · obtain rfl := Except.ok.inj h
    exact ⟨hq, hside, .inl rfl, hfollows⟩
  · rename_i pool hpool
    rw [hpool] at hq
    split_ifs at h with hzero
    · obtain rfl := Except.ok.inj h
      exact ⟨hpool ▸ hq, hside, .inl rfl, hfollows⟩
    · split at h
      · rename_i swap hswap
        rw [hside] at hswap
        obtain ⟨htrades, hspent, p', hp', hready⟩ := marketQuote_moves hswap
        simp only [ok_rules, checked_eq_ok] at h
        obtain ⟨spent, ⟨-, rfl⟩, output, ⟨-, rfl⟩, rfl⟩ := h
        refine ⟨hq.trans_buy htrades.moves, hside, .inr (by rw [← hspent]), ?_⟩
        simp only [hp']
        exact hready
      · obtain rfl := Except.ok.inj h
        exact ⟨hpool ▸ hq, hside, .inl rfl, hfollows⟩
      · obtain rfl := Except.ok.inj h
        exact ⟨hpool ▸ hq, hside, .inl rfl, hfollows⟩
      · cases h

lemma LaunchState.cash_of_checkDefinition {s : LaunchState} {u : Unit} (h : s.checkDefinition H d = .ok u) :
    d.curveCash (d.initialSupply - s.inventoryUnits) = .ok s.marketNoid := by
  simp only [checkDefinition, ok_rules] at h
  obtain ⟨-, -, -, -, -, cash, hcash, rfl⟩ := h
  exact hcash

/-- A trade that starts on the curve; a buy may end in the pool. -/
theorem quoteCurveExactInput_trades (h : quoteCurveExactInput H d before side gross minimum = .ok q) :
    Trades (.curve before) side gross minimum q ∧ q.after.Follows H d before := by
  simp only [quoteCurveExactInput, ok_rules, Prod.exists] at h
  obtain ⟨⟨⟩, hcheck, -, -, -, -, -, nextSold, spent, output, hmove, after, hafter, q', hq', hmin, rfl⟩ := h
  have hmoves := curve_moves (checkDefinition_inv hcheck).inventory_le hmove hafter
  have hfollows := (curveAfter_eq_ok hafter).2.2
  cases side with
  | buy =>
    simp only [afterCurve, bind_eq_ok, checkedSub_eq_ok] at hq'
    obtain ⟨remaining, ⟨hle, rfl⟩, htail⟩ := hq'
    obtain ⟨hmoves', hside, hspent, hnext⟩ := graduationTail_moves rfl hmoves hfollows htail
    simp only at hspent
    exact ⟨⟨hmoves', hside, by omega, hmin⟩, hnext⟩
  | sell =>
    obtain rfl := Except.ok.inj hq'
    obtain ⟨-, -, -, hspent, -⟩ := curveMove_eq_ok hmove
    exact ⟨⟨hmoves, rfl, hspent.le, hmin⟩, hfollows⟩

/-- **A trade on a launch moves its input in and its output out**, within the limits of its order. -/
theorem TradeState.quote_trades (h : t.quote H d side gross minimum = .ok q) : Trades t side gross minimum q := by
  cases t with
  | curve s => exact (quoteCurveExactInput_trades h).1
  | market p => exact (marketQuote_moves h).1

lemma TradeState.Follows.quote {start : LaunchState} (ht : t.Follows H d start) (h : t.quote H d side gross minimum = .ok q) :
    q.after.Follows H d start := by
  cases t with
  | curve s => exact ht.trans (quoteCurveExactInput_trades h).2
  | market p =>
    obtain ⟨-, -, p', hp', hready⟩ := marketQuote_moves h
    rw [hp']
    exact hready

/-! ### Sequences of trades -/

structure TradeCall where
  side : LaunchSide
  grossInput : ℕ
  minimumOutput : ℕ
deriving DecidableEq, Repr

/-- The trades of a sequence that succeed, and the group after it; a failed trade changes nothing. -/
def SequentialLaunch.applyAll (H : NativeHash) :
    SequentialLaunch → List TradeCall → List TradeQuote × SequentialLaunch
  | g, [] => ([], g)
  | g, c :: calls =>
    match g.apply H c.side c.grossInput c.minimumOutput with
    | .ok (q, g) =>
      let (quotes, g) := applyAll H g calls
      (q :: quotes, g)
    | .error _ => applyAll H g calls

/-- A quantity summed over the trades of one side. -/
def volume (side : LaunchSide) (f : TradeQuote → ℕ) (quotes : List TradeQuote) : ℕ :=
  ((quotes.filter fun q => q.side = side).map f).sum

/-- The units that the trades have taken out of the market, less those they have returned. -/
def netUnitsSold (quotes : List TradeQuote) : ℤ :=
  volume .buy TradeQuote.output quotes - volume .sell TradeQuote.spentInput quotes

@[simp] lemma volume_nil (side : LaunchSide) (f : TradeQuote → ℕ) : volume side f [] = 0 := rfl

lemma volume_append (side : LaunchSide) (f : TradeQuote → ℕ) (quotes : List TradeQuote) (q : TradeQuote) :
    volume side f (quotes ++ [q]) = volume side f quotes + if q.side = side then f q else 0 := by
  unfold volume
  split_ifs with h <;> simp [h]

/-- The market after the trades `quotes` from the state `start`. -/
structure Traded (H : NativeHash) (d : LaunchDefinition) (start : LaunchState) (quotes : List TradeQuote)
    (t : TradeState) : Prop where
  noid : start.marketNoid + volume .buy TradeQuote.spentInput quotes = t.noid + volume .sell TradeQuote.output quotes
  tokens : start.inventoryUnits + volume .sell TradeQuote.spentInput quotes =
    t.tokens + volume .buy TradeQuote.output quotes
  follows : t.Follows H d start

lemma Traded.step {start : LaunchState} {quotes : List TradeQuote} (h : Traded H d start quotes t)
    (hq : t.quote H d side gross minimum = .ok q) : Traded H d start (quotes ++ [q]) q.after := by
  have htrades := TradeState.quote_trades hq
  have hmoves := htrades.moves
  have hnoid := h.noid
  have htokens := h.tokens
  refine ⟨?_, ?_, ?_⟩
  · rw [volume_append, volume_append, htrades.side_eq]
    cases side <;> simp only [Moves, reduceCtorEq, if_true, if_false] at hmoves ⊢ <;> omega
  · rw [volume_append, volume_append, htrades.side_eq]
    cases side <;> simp only [Moves, reduceCtorEq, if_true, if_false] at hmoves ⊢ <;> omega
  · exact h.follows.quote hq

namespace SequentialLaunch

lemma applyAll_traded {start : LaunchState} :
    ∀ (calls : List TradeCall) {done : List TradeQuote} {g : SequentialLaunch}, g.definition = d →
      Traded H d start done g.current →
      Traded H d start (done ++ (g.applyAll H calls).1) (g.applyAll H calls).2.current
  | [], done, g, _, h => by simpa [applyAll] using h
  | c :: calls, done, g, hd, h => by
    unfold applyAll
    cases happly : g.apply H c.side c.grossInput c.minimumOutput with
    | error e => exact applyAll_traded calls hd h
    | ok x =>
      have hg' := apply_definition happly
      simp only [apply, ok_rules] at happly
      obtain ⟨-, q', hq, rfl, rfl⟩ := happly
      rw [hd] at hq
      have hrest := applyAll_traded calls (hg'.trans hd) (h.step hq)
      simpa using hrest

lemma new_traded {start : LaunchState} {g : SequentialLaunch} (h : new H d start = .ok g) :
    g.definition = d ∧ Traded H d start [] g.current := by
  simp only [new, ok_rules] at h
  obtain ⟨⟨⟩, hcheck, -, rfl⟩ := h
  exact ⟨rfl, rfl, rfl, hcheck, rfl⟩

/-- **Sequences of trades conserve** NOID and tokens, and the state of the curve is determined by the net units sold.
-/
theorem applyAll_conserves {start : LaunchState} {g : SequentialLaunch} (h : new H d start = .ok g)
    (calls : List TradeCall) :
    (∀ s, (g.applyAll H calls).2.current = .curve s →
        d.curveCash (d.initialSupply - s.inventoryUnits) = .ok s.marketNoid) ∧
      (start.marketNoid : ℤ) + volume .buy TradeQuote.spentInput (g.applyAll H calls).1 -
          volume .sell TradeQuote.output (g.applyAll H calls).1 = (g.applyAll H calls).2.current.noid ∧
      (start.inventoryUnits : ℤ) - volume .buy TradeQuote.output (g.applyAll H calls).1 +
          volume .sell TradeQuote.spentInput (g.applyAll H calls).1 = (g.applyAll H calls).2.current.tokens ∧
      ∀ calls' s s', (g.applyAll H calls).2.current = .curve s → (g.applyAll H calls').2.current = .curve s' →
        netUnitsSold (g.applyAll H calls).1 = netUnitsSold (g.applyAll H calls').1 → s = s' := by
  obtain ⟨hd, hnew⟩ := new_traded h
  have hrun : ∀ calls, Traded H d start (g.applyAll H calls).1 (g.applyAll H calls).2.current := by
    intro calls
    simpa using applyAll_traded calls hd hnew
  have hnoid := (hrun calls).noid
  have htokens := (hrun calls).tokens
  refine ⟨?_, by omega, by omega, ?_⟩
  · intro s hs
    have hfollows := (hrun calls).follows
    rw [hs] at hfollows
    exact LaunchState.cash_of_checkDefinition hfollows.1
  · intro calls' s s' hs hs' hnet
    have hfollows := (hrun calls).follows
    have hfollows' := (hrun calls').follows
    have htokens' := (hrun calls').tokens
    rw [hs] at hfollows htokens
    rw [hs'] at hfollows' htokens'
    obtain ⟨hcheck, heq⟩ := hfollows
    obtain ⟨hcheck', heq'⟩ := hfollows'
    unfold netUnitsSold at hnet
    have hinventory : s.inventoryUnits = s'.inventoryUnits := by
      simp only [TradeState.tokens] at htokens htokens'
      omega
    have hcash : s.marketNoid = s'.marketNoid := by
      have h1 := LaunchState.cash_of_checkDefinition hcheck
      rw [hinventory, LaunchState.cash_of_checkDefinition hcheck'] at h1
      exact (Except.ok.inj h1).symm
    rw [heq, heq', hinventory, hcash]

/-- A new group of a launch that has sold half of its sale. -/
def halfSoldGroup : SequentialLaunch :=
  { definition := smallLaunch, before := halfSold, current := .curve halfSold, steps := [] }

/-- A buy that takes the rest of the sale and goes on in the pool, and two sells. -/
def graduatingCalls : List TradeCall := [⟨.buy, 10 ^ 9, 1⟩, ⟨.sell, 10 ^ 9, 10 ^ 18⟩, ⟨.sell, 10 ^ 9, 1⟩]

theorem graduatingCalls_conserve : (halfSold.marketNoid : ℤ) +
        volume .buy TradeQuote.spentInput (halfSoldGroup.applyAll NativeHash.plain graduatingCalls).1 -
        volume .sell TradeQuote.output (halfSoldGroup.applyAll NativeHash.plain graduatingCalls).1 =
      (halfSoldGroup.applyAll NativeHash.plain graduatingCalls).2.current.noid := by
  have hnew : new NativeHash.plain smallLaunch halfSold = .ok halfSoldGroup := by decide +kernel
  exact (applyAll_conserves hnew graduatingCalls).2.1

end SequentialLaunch

end

end

end Noid.Tx
