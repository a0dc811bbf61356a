import Noid.Tx.LaunchSettle

/-! # Sequential trades

Trades of one group run one after the other.  On a pool a trade is an exact-input swap; on a launch it moves along the
curve, and a buy that exhausts the sale continues in the pool the launch graduates into. -/

namespace Noid.Tx

open Noid.Lib

/-- The control of an asset: still on its curve, or graduated. -/
inductive TradeState where
  | curve (s : LaunchState)
  | market (p : PoolState)
deriving DecidableEq, Repr

def TradeState.opening : TradeState → NativeOpening
  | .curve s => .launch (.state s)
  | .market p => .market (.pool p)

def LaunchDefinition.marginalPrice (d : LaunchDefinition) (sold : ℕ) : Except LaunchError LaunchPrice :=
  d.averagePrice sold sold

lemma graduationPool_eq_ok {H : NativeHash} {d : LaunchDefinition} {p : PoolState} (h : d.graduationPool H = .ok p) :
    p.pool = d.marketDefinition.id H ∧ p.quoteReserve = d.dexUnits := by
  simp only [LaunchDefinition.graduationPool, PoolState.bootstrapPermanent, PoolState.bootstrap, ok_rules] at h
  obtain ⟨-, -, pool, ⟨-, -, -, -, -, -, -, -, -, -, rfl⟩, -, -, rfl⟩ := h
  exact ⟨rfl, rfl⟩

lemma curveCash_units_le {d : LaunchDefinition} {units cash : ℕ} (h : d.curveCash units = .ok cash) :
    units ≤ d.saleUnits := by
  simp only [LaunchDefinition.curveCash, curveCashForSupply, ok_rules] at h
  obtain ⟨-, -, -, -, hle, -⟩ := h
  exact hle

def MAX_SEQUENTIAL_TRADES : ℕ := 64

section
variable (H : NativeHash)

/-! ### Pools -/

structure SwapQuote where
  inputAsset : AssetId
  outputAsset : AssetId
  grossInput : ℕ
  effectiveInput : ℕ
  output : ℕ
  after : PoolState
deriving DecidableEq, Repr

def SwapQuote.fee (q : SwapQuote) : ℕ := q.grossInput - q.effectiveInput

def swapSide (d : MarketDefinition) (inputAsset : AssetId) : Except MarketError Bool :=
  if inputAsset = d.base then .ok true
  else if inputAsset = d.quote then .ok false
  else .error .pool

/-- Swap an exact input in a pool. -/
def quoteExactInput (d : MarketDefinition) (before : PoolState) (inputAsset : AssetId)
    (grossInput minimumOutput : ℕ) : Except MarketError SwapQuote := do
  before.checkDefinition H d
  require (before.phase = .idle ∧ d.baseIsNoid = true ∧ before.lockedShares = before.totalShares) .phase
  quantity grossInput
  quantity minimumOutput
  let baseInput ← swapSide d inputAsset
  let fee ← checked .arithmetic (divCeil (grossInput * MARKET_FEE_BPS) 10000)
  let effectiveInput ← checkedSub .quantity grossInput fee
  require (effectiveInput ≠ 0) .quantity
  let inputReserve := if baseInput then before.baseReserve else before.quoteReserve
  let outputReserve := if baseInput then before.quoteReserve else before.baseReserve
  let afterInput ← checked .capacity (inputReserve + grossInput)
  require (afterInput ≤ MARKET_QUANTITY_MAX) .capacity
  let output ← checked .arithmetic (outputReserve * effectiveInput / (inputReserve + effectiveInput))
  require (minimumOutput ≤ output) .minimum
  let afterOutput ← checkedSub .conservation outputReserve output
  require (afterOutput ≠ 0) .conservation
  let after :=
    if baseInput then { before with baseReserve := afterInput, quoteReserve := afterOutput }
    else { before with quoteReserve := afterInput, baseReserve := afterOutput }
  after.checkDefinition H d
  require (before.baseReserve * before.quoteReserve ≤ after.baseReserve * after.quoteReserve) .conservation
  return { inputAsset := inputAsset, outputAsset := if baseInput then d.quote else d.base
           grossInput := grossInput, effectiveInput := effectiveInput, output := output, after := after }

/-- The swaps of one group on a pool. -/
structure SequentialMarket where
  definition : MarketDefinition
  before : PoolState
  current : PoolState
  steps : List SwapQuote
deriving DecidableEq, Repr

structure MarketExecution where
  before : PoolState
  after : PoolState
  steps : List SwapQuote
deriving DecidableEq, Repr

namespace SequentialMarket

def new (d : MarketDefinition) (before : PoolState) : Except MarketError SequentialMarket := do
  before.checkDefinition H d
  require (before.phase = .idle ∧ before.generation ≠ U64_MAX ∧ d.baseIsNoid = true ∧
    before.lockedShares = before.totalShares) .phase
  return { definition := d, before := before, current := before, steps := [] }

def apply (g : SequentialMarket) (inputAsset : AssetId) (grossInput minimumOutput : ℕ) :
    Except MarketError (SwapQuote × SequentialMarket) := do
  require (g.steps.length ≠ MAX_SEQUENTIAL_TRADES) .capacity
  let quote ← quoteExactInput H g.definition g.current inputAsset grossInput minimumOutput
  return (quote, { g with current := quote.after, steps := g.steps ++ [quote] })

/-- Advance the persisted generation once for the complete logical group. -/
def finish (g : SequentialMarket) : Except MarketError MarketExecution := do
  require (g.steps ≠ []) .capacity
  let generation ← checked .generation (g.current.generation + 1)
  let after := { g.current with generation := generation }
  after.checkDefinition H g.definition
  return { before := g.before, after := after, steps := g.steps }

end SequentialMarket

/-! ### Launches -/

inductive LaunchTradeError where
  | launch (e : LaunchError)
  | market (e : MarketError)
  | minimum
deriving DecidableEq, Repr

structure TradeQuote where
  side : LaunchSide
  grossInput : ℕ
  spentInput : ℕ
  output : ℕ
  marketFee : ℕ
  curveSpent : ℕ
  curveOutput : ℕ
  after : TradeState
deriving DecidableEq, Repr

def TradeQuote.refundInput (q : TradeQuote) : ℕ := q.grossInput - q.spentInput

def bounded (value : ℕ) : Except LaunchError Unit :=
  require (value ≠ 0 ∧ value ≤ MARKET_QUANTITY_MAX) .quantity

/-- A trade in the pool a launch has graduated into. -/
def marketQuote (d : LaunchDefinition) (before : PoolState) (side : LaunchSide)
    (grossInput minimumOutput : ℕ) : Except LaunchTradeError TradeQuote := do
  let inputAsset := match side with
    | .buy => NOID_ASSET
    | .sell => d.asset
  let quote ← (quoteExactInput H d.marketDefinition before inputAsset grossInput minimumOutput).mapError
    .market
  return { side := side, grossInput := grossInput, spentInput := grossInput, output := quote.output
           marketFee := quote.fee, curveSpent := 0, curveOutput := 0, after := .market quote.after }

/-- The binary search for the most units that `cashLimit` pays for; the sale is below `2 ^ 64`. -/
def affordableUnits (d : LaunchDefinition) (sold cashLimit : ℕ) : ℕ → ℕ → ℕ → Except LaunchError ℕ
  | 0, low, _ => .ok low
  | fuel + 1, low, high =>
    if low < high then do
      let middle := low + divCeil (high - low) 2
      let cash ← d.curveCash (sold + middle)
      if cash ≤ cashLimit then affordableUnits d sold cashLimit fuel middle high
      else affordableUnits d sold cashLimit fuel low (middle - 1)
    else .ok low

/-- The units sold after a trade on the curve, what it spends and what it receives. -/
def curveMove (d : LaunchDefinition) (before : LaunchState) (grossInput : ℕ) :
    LaunchSide → Except LaunchError (ℕ × ℕ × ℕ)
  | .buy => do
    let sold := d.initialSupply - before.inventoryUnits
    let units ← affordableUnits d sold (before.marketNoid + grossInput) 64 0 (d.saleUnits - sold)
    require (units ≠ 0) .quantity
    let cash ← d.curveCash (sold + units)
    let spent ← checkedSub .conservation cash before.marketNoid
    return (sold + units, spent, units)
  | .sell => do
    let sold := d.initialSupply - before.inventoryUnits
    let nextSold ← checkedSub .quantity sold grossInput
    let cash ← d.curveCash nextSold
    let output ← checkedSub .conservation before.marketNoid cash
    return (nextSold, grossInput, output)

/-- The control once the curve has sold `nextSold` units. -/
def curveAfter (d : LaunchDefinition) (before : LaunchState) (nextSold : ℕ) :
    Except LaunchError TradeState := do
  let nextCash ← d.curveCash nextSold
  if nextSold = d.saleUnits then
    let pool ← d.graduationPool H
    require (pool.baseReserve = nextCash) .conservation
    return .market pool
  else
    let next := { before with inventoryUnits := d.initialSupply - nextSold, marketNoid := nextCash }
    next.checkDefinition H d
    return .curve next

/-- The rest of a buy that exhausted the sale is swapped in the pool, if that buys anything. -/
def graduationTail (d : LaunchDefinition) (remaining : ℕ) (q : TradeQuote) :
    Except LaunchTradeError TradeQuote :=
  match q.after with
  | .curve _ => .ok q
  | .market pool =>
    if remaining = 0 then .ok q
    else
      match marketQuote H d pool q.side remaining 1 with
      | .ok quote => do
        let spent ← checked (.launch .arithmetic) (q.spentInput + quote.spentInput)
        let output ← checked (.launch .arithmetic) (q.output + quote.output)
        return { q with spentInput := spent, output := output, marketFee := quote.marketFee
                        after := quote.after }
      | .error (.market .quantity) => .ok q
      | .error (.market .minimum) => .ok q
      | .error e => .error e

/-- What a trade does after its curve part: a buy goes on with what it has left. -/
def afterCurve (d : LaunchDefinition) (curve : TradeQuote) : Except LaunchTradeError TradeQuote :=
  match curve.side with
  | .buy => do
    let remaining ← checkedSub (.launch .conservation) curve.grossInput curve.curveSpent
    graduationTail H d remaining curve
  | .sell => .ok curve

/-- Trade an exact input on the curve. -/
def quoteCurveExactInput (d : LaunchDefinition) (before : LaunchState) (side : LaunchSide)
    (grossInput minimumOutput : ℕ) : Except LaunchTradeError TradeQuote := do
  (before.checkDefinition H d).mapError .launch
  require (before.phase = .idle) (.launch .phase)
  (bounded grossInput).mapError .launch
  (bounded minimumOutput).mapError .launch
  let (nextSold, curveSpent, curveOutput) ← (curveMove d before grossInput side).mapError .launch
  let after ← (curveAfter H d before nextSold).mapError .launch
  let curve : TradeQuote :=
    { side := side, grossInput := grossInput, spentInput := curveSpent, output := curveOutput
      marketFee := 0, curveSpent := curveSpent, curveOutput := curveOutput, after := after }
  let quote ← afterCurve H d curve
  require (minimumOutput ≤ quote.output) .minimum
  return quote

/-- Trade an exact input with a control. -/
def TradeState.quote (d : LaunchDefinition) (side : LaunchSide) (grossInput minimumOutput : ℕ) :
    TradeState → Except LaunchTradeError TradeQuote
  | .curve s => quoteCurveExactInput H d s side grossInput minimumOutput
  | .market p => marketQuote H d p side grossInput minimumOutput

/-- The control that a group leaves: a curve advances its generation. -/
def TradeState.close (d : LaunchDefinition) : TradeState → Except LaunchTradeError TradeState
  | .curve s => do
    let generation ← checked (.launch .arithmetic) (s.generation + 1)
    let next := { s with generation := generation }
    (next.checkDefinition H d).mapError .launch
    return .curve next
  | .market p => do
    (p.checkDefinition H d.marketDefinition).mapError .market
    return .market p

/-- The trades of one group on a launch. -/
structure SequentialLaunch where
  definition : LaunchDefinition
  before : LaunchState
  current : TradeState
  steps : List TradeQuote
deriving DecidableEq, Repr

structure SequentialLaunchExecution where
  before : LaunchState
  after : TradeState
  steps : List TradeQuote
deriving DecidableEq, Repr

namespace SequentialLaunch

def new (d : LaunchDefinition) (before : LaunchState) : Except LaunchTradeError SequentialLaunch := do
  (before.checkDefinition H d).mapError .launch
  require (before.phase = .idle ∧ before.generation ≠ U64_MAX) (.launch .phase)
  return { definition := d, before := before, current := .curve before, steps := [] }

def apply (g : SequentialLaunch) (side : LaunchSide) (grossInput minimumOutput : ℕ) :
    Except LaunchTradeError (TradeQuote × SequentialLaunch) := do
  require (g.steps.length ≠ MAX_SEQUENTIAL_TRADES) (.launch .capacity)
  let quote ← g.current.quote H g.definition side grossInput minimumOutput
  return (quote, { g with current := quote.after, steps := g.steps ++ [quote] })

def finish (g : SequentialLaunch) : Except LaunchTradeError SequentialLaunchExecution := do
  require (g.steps ≠ []) (.launch .capacity)
  let after ← g.current.close H g.definition
  return { before := g.before, after := after, steps := g.steps }

end SequentialLaunch

/-! ### What a finished group guarantees -/

variable {H}

lemma PoolState.id_of_checkDefinition {p : PoolState} {d : MarketDefinition} {u : Unit}
    (h : p.checkDefinition H d = .ok u) : p.pool = d.id H := by
  simp only [PoolState.checkDefinition, ok_rules] at h
  obtain ⟨-, -, -, -, hid, -⟩ := h
  exact hid

lemma LaunchState.id_of_checkDefinition {s : LaunchState} {d : LaunchDefinition} {u : Unit}
    (h : s.checkDefinition H d = .ok u) : s.launch = d.id H := by
  simp only [LaunchState.checkDefinition, ok_rules] at h
  obtain ⟨-, -, -, -, ⟨hid, -⟩, -⟩ := h
  exact hid

namespace SequentialMarket

lemma new_eq_ok {d : MarketDefinition} {before : PoolState} {g : SequentialMarket} (h : new H d before = .ok g) :
    g.definition = d ∧ before.checkDefinition H d = .ok () ∧ d.baseIsNoid = true := by
  simp only [new, ok_rules] at h
  obtain ⟨u, hcheck, ⟨-, -, hbase, -⟩, rfl⟩ := h
  exact ⟨rfl, hcheck, hbase⟩

lemma apply_definition {g g' : SequentialMarket} {asset : AssetId} {gross minimum : ℕ} {q : SwapQuote}
    (h : g.apply H asset gross minimum = .ok (q, g')) : g'.definition = g.definition := by
  simp only [apply, ok_rules, Prod.mk.injEq] at h
  obtain ⟨-, q', -, rfl, rfl⟩ := h
  rfl

lemma finish_eq_ok {g : SequentialMarket} {e : MarketExecution} (h : g.finish H = .ok e) :
    e.after.checkDefinition H g.definition = .ok () := by
  simp only [finish, ok_rules] at h
  obtain ⟨-, generation, -, u, hcheck, rfl⟩ := h
  exact hcheck

end SequentialMarket

/-- A control of a launch that passed the check against its definition. -/
def TradeState.Checked (H : NativeHash) (d : LaunchDefinition) : TradeState → Prop
  | .curve s => s.checkDefinition H d = .ok ()
  | .market p => p.checkDefinition H d.marketDefinition = .ok ()

lemma TradeState.checked_close {d : LaunchDefinition} {t after : TradeState} (h : t.close H d = .ok after) :
    after.Checked H d := by
  cases t with
  | curve s =>
    simp only [close, ok_rules] at h
    obtain ⟨generation, -, u, hcheck, rfl⟩ := h
    exact hcheck
  | market p =>
    simp only [close, ok_rules] at h
    obtain ⟨u, hcheck, rfl⟩ := h
    exact hcheck

namespace SequentialLaunch

lemma new_eq_ok {d : LaunchDefinition} {before : LaunchState} {g : SequentialLaunch}
    (h : new H d before = .ok g) : g.definition = d ∧ before.checkDefinition H d = .ok () := by
  simp only [new, ok_rules] at h
  obtain ⟨u, hcheck, -, rfl⟩ := h
  exact ⟨rfl, hcheck⟩

lemma apply_definition {g g' : SequentialLaunch} {side : LaunchSide} {gross minimum : ℕ}
    {q : TradeQuote} (h : g.apply H side gross minimum = .ok (q, g')) : g'.definition = g.definition := by
  simp only [apply, ok_rules, Prod.mk.injEq] at h
  obtain ⟨-, q', -, rfl, rfl⟩ := h
  rfl

lemma finish_eq_ok {g : SequentialLaunch} {e : SequentialLaunchExecution} (h : g.finish H = .ok e) :
    e.after.Checked H g.definition := by
  simp only [finish, ok_rules] at h
  obtain ⟨-, after, hafter, rfl⟩ := h
  exact TradeState.checked_close hafter

end SequentialLaunch

end

end Noid.Tx
