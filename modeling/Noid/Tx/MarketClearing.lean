import Noid.Tx.LaunchClearing

/-! # Rounds of a pool

A pool freezes over a complete set of funded swap requests and settles them at one rate, searched for as the price of a
launch round is.  The enabled profile has no liquidity requests, so the liquidity stage leaves the settled pool as it is. -/

namespace Noid.Tx

open Noid.Lib Noid.Lib.Crossing

section
variable (H : NativeHash)

/-! ### Queues -/

/-- A swap request and the carrier that funds it. -/
structure FundedRequestRef where
  slotIndex : ℕ
  creationId : ℕ
  request : SwapRequest
deriving DecidableEq, Repr

namespace FundedRequestRef

def validate (r : FundedRequestRef) : Except MarketError Unit := do
  let _ ← orElseThrow .funding (nativeSequence r.creationId)
  r.request.validate

def key (r : FundedRequestRef) : Digest :=
  H.fundedRequestKey (r.request.root H) r.slotIndex r.creationId

end FundedRequestRef

/-- What a request brings to the base and the quote side. -/
def SwapRequest.principal (r : SwapRequest) (d : MarketDefinition) : Except MarketError (ℕ × ℕ) :=
  if r.inputAsset = d.base ∧ r.outputAsset = d.quote then .ok (r.grossInput, 0)
  else if r.inputAsset = d.quote ∧ r.outputAsset = d.base then .ok (0, r.grossInput)
  else .error .pool

/-- A frozen round: the idle pool, the frozen pool, and the requests in key order. -/
structure RegisteredBatch where
  before : PoolState
  after : PoolState
  round : Digest
  requests : List FundedRequestRef
deriving DecidableEq, Repr

namespace RegisteredBatch

/-- The loop over the requests: each is valid, and no slot or key occurs twice. -/
def checkRequests : List ℕ → List Digest → List FundedRequestRef → Except MarketError Unit
  | _, _, [] => .ok ()
  | slots, keys, r :: rest => do
    r.validate
    require (r.slotIndex ∉ slots ∧ r.key H ∉ keys) .duplicate
    checkRequests (r.slotIndex :: slots) (r.key H :: keys) rest

/-- The requests of a round in the order of their keys. -/
def canonicalRequests (requests : List FundedRequestRef) : Except MarketError (List FundedRequestRef) := do
  require (requests ≠ [] ∧ requests.length ≤ MAX_ROUND_REQUESTS) .capacity
  checkRequests H [] [] requests
  return requests.insertionSort fun a b => a.key H ≤ b.key H

def roundPrincipal (d : MarketDefinition) (before : PoolState) (height : ℕ) :
    List FundedRequestRef → Except MarketError (ℕ × ℕ)
  | [] => .ok (0, 0)
  | r :: rest => do
    r.request.checkRound H d before height
    let amount ← r.request.principal d
    let sum ← roundPrincipal d before height rest
    return (amount.1 + sum.1, amount.2 + sum.2)

def register (d : MarketDefinition) (before : PoolState) (height : ℕ) (requests : List FundedRequestRef) :
    Except MarketError RegisteredBatch := do
  before.checkDefinition H d
  require (before.phase = .idle) .phase
  let round ← before.roundId H height
  let keyed ← canonicalRequests H requests
  let principal ← roundPrincipal H d before height keyed
  require (before.baseReserve + principal.1 ≤ MARKET_QUANTITY_MAX ∧
    before.quoteReserve + principal.2 ≤ MARKET_QUANTITY_MAX) .capacity
  let queueRoot ← committedQueueRoot H round (keyed.map (·.key H))
  let timeout ← checked .arithmetic (height + MARKET_SETTLEMENT_WINDOW)
  let after : PoolState :=
    { before with
      queueRoot := queueRoot, registeredHeight := height, timeoutHeight := timeout
      requestCount := keyed.length, phase := .frozen }
  after.validate
  return { before := before, after := after, round := round, requests := keyed }

def settlementAllowed (b : RegisteredBatch) (height : ℕ) : Except MarketError Unit := do
  let phase ← b.after.phaseAt height
  require (phase = .settlement) .phase

end RegisteredBatch

/-! ### The rate -/

/-- A rate in quote units per base unit. -/
abbrev ClearingRate := LaunchPrice

inductive MarketSide where
  | base | quote
deriving DecidableEq, Repr

structure MarketOrder where
  side : MarketSide
  capacity : ℕ
  limit : ClearingRate
deriving DecidableEq, Repr

def classifyOrder (o : MarketOrder) (price : ClearingRate) : OrderClass :=
  match comparePrice price o.limit, o.side with
  | .eq, _ => .marginal
  | .gt, .base => .full
  | .lt, .quote => .full
  | _, _ => .outside

/-- One round of clearing over the orders of `activeMask`. -/
structure ClearingStep where
  price : ClearingRate
  activeMask : Finset ℕ
  dustMask : Finset ℕ
  partialSide : Option MarketSide
  fractionNumerator : ℕ
  fractionDenominator : ℕ
deriving DecidableEq

def activeOrders (orders : List MarketOrder) (mask : Finset ℕ) : List MarketOrder :=
  (orders.zipIdx.filter fun x => decide (x.2 ∈ mask)).map (·.1)

/-- The total capacity of the orders that satisfy `p`. -/
def capacityWhere (os : List MarketOrder) (p : MarketOrder → Bool) : Except MarketError ℕ :=
  checkedSum .arithmetic ((os.filter p).map (·.capacity))

/-- The distinct limits in increasing order. -/
def rateBoundaries (os : List MarketOrder) : List ClearingRate :=
  ((os.map (·.limit)).insertionSort fun a b => comparePrice a b ≠ .gt).destutter
    fun a b => comparePrice a b ≠ .eq

def twicePlus (reserve input : ℕ) : Except MarketError ℕ := checked .arithmetic (input * 2 + reserve)

/-- A rate strictly inside a gap, at which no order is marginal. -/
def rateInGap (pool : PoolState) (os : List MarketOrder) (mask : Finset ℕ)
    (gap : Option ClearingRate × Option ClearingRate) : Except MarketError (Option ClearingStep) := do
  let base ← capacityWhere os fun o =>
    decide (o.side = .base) && gap.1.any fun p => decide (comparePrice o.limit p ≠ .gt)
  let quote ← capacityWhere os fun o =>
    decide (o.side = .quote) && gap.2.any fun p => decide (comparePrice o.limit p ≠ .lt)
  let numerator ← twicePlus pool.quoteReserve quote
  let denominator ← twicePlus pool.baseReserve base
  let price : ClearingRate := { numerator := numerator, denominator := denominator }
  if (gap.1.all fun p => decide (comparePrice price p = .gt)) = true ∧
      (gap.2.all fun p => decide (comparePrice price p = .lt)) = true then
    return some
      { price := price, activeMask := mask, dustMask := ∅, partialSide := none
        fractionNumerator := 0, fractionDenominator := 1 }
  else return none

/-- The side filled in part at a limit, and its fraction; none when nothing is. -/
def ratePartial (price : ClearingRate) (left right leftMax rightMax marginalBase marginalQuote : ℕ) :
    Except MarketError (Option MarketSide × ℕ × ℕ) := do
  let raw := if rightMax ≤ leftMax then
      (some MarketSide.base, rightMax - left, 2 * price.numerator * marginalBase)
    else (some MarketSide.quote, leftMax - right, 2 * price.denominator * marginalQuote)
  let fill ← if raw.2.2 = 0 then do
      require (raw.2.1 = 0) MarketError.clearing
      pure (none, 0, 1)
    else pure raw
  require (fill.2.1 ≤ fill.2.2) MarketError.clearing
  return fill

/-- A limit at which the marginal orders can balance the pool. -/
def rateAtLimit (pool : PoolState) (os : List MarketOrder) (mask : Finset ℕ) (price : ClearingRate) :
    Except MarketError (Option ClearingStep) := do
  let fullBase ← capacityWhere os fun o =>
    decide (o.side = .base) && decide (classifyOrder o price = .full)
  let fullQuote ← capacityWhere os fun o =>
    decide (o.side = .quote) && decide (classifyOrder o price = .full)
  let marginalBase ← capacityWhere os fun o =>
    decide (o.side = .base) && decide (classifyOrder o price = .marginal)
  let marginalQuote ← capacityWhere os fun o =>
    decide (o.side = .quote) && decide (classifyOrder o price = .marginal)
  let left ← twicePlus pool.baseReserve fullBase
  let right ← twicePlus pool.quoteReserve fullQuote
  let maxBase ← checked .arithmetic (fullBase + marginalBase)
  let leftMax ← twicePlus pool.baseReserve maxBase
  let maxQuote ← checked .arithmetic (fullQuote + marginalQuote)
  let rightMax ← twicePlus pool.quoteReserve maxQuote
  let left := price.numerator * left
  let right := price.denominator * right
  let leftMax := price.numerator * leftMax
  let rightMax := price.denominator * rightMax
  if rightMax < left ∨ leftMax < right then return none
  else do
    let fill ← ratePartial price left right leftMax rightMax marginalBase marginalQuote
    return some
      { price := price, activeMask := mask, dustMask := ∅, partialSide := fill.1
        fractionNumerator := fill.2.1, fractionDenominator := fill.2.2 }

/-- The only rate that balances the orders: gaps first, then limits. -/
def marketStep (pool : PoolState) (orders : List MarketOrder) (mask : Finset ℕ) :
    Except MarketError ClearingStep := do
  let os := activeOrders orders mask
  let bs := rateBoundaries os
  let candidate ← scan .clearing (rateInGap pool os mask) none (gaps none bs)
  let candidate ← scan .clearing (rateAtLimit pool os mask) candidate bs
  orElseThrow .clearing candidate

end

end Noid.Tx
