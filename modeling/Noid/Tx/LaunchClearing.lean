import Noid.Lib.Crossing
import Noid.Tx.Launch
import Noid.Tx.MarketLimits

/-! # Clearing a launch round

A registered round is settled at one price.  `continuousStep` looks for the price at which the orders move the curve by
their net demand: at the cap, where the round sells the curve out, then in every gap between neighbouring order limits,
then at every limit itself, where orders are filled in part. -/

namespace Noid.Tx

open Noid.Lib Noid.Lib.Crossing

/-! ### Orders -/

structure Order where
  side : LaunchSide
  quantity : ℕ
  limit : LaunchPrice
deriving DecidableEq, Repr

/-- How an order stands to a price. -/
inductive OrderClass where
  | outside | full | marginal
deriving DecidableEq, Repr

def comparePrice (a b : LaunchPrice) : Ordering :=
  compare (a.numerator * b.denominator) (b.numerator * a.denominator)

def classify (o : Order) (price : LaunchPrice) : OrderClass :=
  match comparePrice price o.limit, o.side with
  | .eq, _ => .marginal
  | .lt, .buy => .full
  | .gt, .sell => .full
  | _, _ => .outside

/-- One round of clearing over `activeMask`; orders of `partialSide` at the price are filled by the fraction. -/
structure LaunchStep where
  price : LaunchPrice
  activeMask : Finset ℕ
  dustMask : Finset ℕ
  partialSide : Option LaunchSide
  fractionNumerator : ℕ
  fractionDenominator : ℕ
  atCap : Bool
deriving DecidableEq

def isPartial (o : Order) (step : LaunchStep) : Bool :=
  decide (some o.side = step.partialSide) &&
    if step.atCap then decide (classify o step.price ≠ .outside)
    else decide (classify o step.price = .marginal)

def actives (orders : List Order) (mask : Finset ℕ) : List Order :=
  (orders.zipIdx.filter fun x => decide (x.2 ∈ mask)).map (·.1)

/-- The total quantity of the orders that satisfy `p`. -/
def quantityWhere (os : List Order) (p : Order → Bool) : Except LaunchError ℕ :=
  checkedSum .arithmetic ((os.filter p).map (·.quantity))

/-- The distinct limits in increasing order. -/
def boundaries (os : List Order) : List LaunchPrice :=
  (((os.map (·.limit)).insertionSort fun a b => comparePrice a b ≠ .gt)).destutter
    fun a b => comparePrice a b ≠ .eq

/-! ### One step -/

/-- The data of a step: supply, units sold before the round, units left to sell, orders. -/
structure StepContext where
  initialSupply : ℕ
  sold : ℕ
  remaining : ℕ
  os : List Order
  mask : Finset ℕ

namespace StepContext

/-- Five times the units the curve moves by at price `p` is `denominator * p - center`. -/
def center (c : StepContext) : ℤ := 3 * c.initialSupply + 10 * c.sold

def denominator (c : StepContext) : ℕ := 900 * c.initialSupply

/-- A price strictly inside the gap at which no order is marginal. -/
def intervalStep (c : StepContext) (gap : Option LaunchPrice × Option LaunchPrice) :
    Except LaunchError (Option LaunchStep) := do
  let buys ← quantityWhere c.os fun o =>
    decide (o.side = .buy) && gap.2.any fun p => decide (comparePrice o.limit p ≠ .lt)
  let sells ← quantityWhere c.os fun o =>
    decide (o.side = .sell) && gap.1.any fun p => decide (comparePrice o.limit p ≠ .gt)
  let delta : ℤ := (buys : ℤ) - sells
  if delta < -(c.sold : ℤ) ∨ (c.remaining : ℤ) ≤ delta then return none
  else do
    let numerator ← checkedInt .arithmetic (c.center + 5 * delta)
    let price : LaunchPrice := { numerator := numerator, denominator := c.denominator }
    if (gap.1.all fun p => decide (comparePrice price p = .gt)) = true ∧
        (gap.2.all fun p => decide (comparePrice price p = .lt)) = true then
      return some
        { price := price, activeMask := c.mask, dustMask := ∅, partialSide := none
          fractionNumerator := 0, fractionDenominator := 1, atCap := false }
    else return none

/-- The side that is filled in part at a limit, and the fraction; none when nothing is. -/
def partialFill (target maxBuy maxSell : ℤ) : Except LaunchError (Option LaunchSide × ℤ × ℤ) := do
  let raw := if maxBuy ≤ maxSell + target then (some LaunchSide.sell, maxBuy - target, maxSell)
    else (some LaunchSide.buy, maxSell + target, maxBuy)
  let fill ← if raw.2.2 = 0 then do
      require (raw.2.1 = 0) LaunchError.clearing
      pure (none, 0, 1)
    else pure raw
  require (0 ≤ fill.2.1 ∧ fill.2.1 ≤ fill.2.2) LaunchError.clearing
  return fill

/-- A limit at which the marginal orders can balance the curve. -/
def boundaryStep (c : StepContext) (price : LaunchPrice) : Except LaunchError (Option LaunchStep) :=
  if price.numerator = 0 then return none
  else
    let d : ℤ := price.denominator
    let targetNumerator : ℤ := c.denominator * price.numerator - c.center * d
    let targetDenominator : ℤ := 5 * d
    if targetNumerator < -(c.sold : ℤ) * targetDenominator ∨
        (c.remaining : ℤ) * targetDenominator ≤ targetNumerator then return none
    else do
      let fullBuys ← quantityWhere c.os fun o =>
        decide (o.side = .buy) && decide (classify o price = .full)
      let fullSells ← quantityWhere c.os fun o =>
        decide (o.side = .sell) && decide (classify o price = .full)
      let marginalBuys ← quantityWhere c.os fun o =>
        decide (o.side = .buy) && decide (classify o price = .marginal)
      let marginalSells ← quantityWhere c.os fun o =>
        decide (o.side = .sell) && decide (classify o price = .marginal)
      let target : ℤ := targetNumerator - ((fullBuys : ℤ) - fullSells) * targetDenominator
      let maxBuy : ℤ := marginalBuys * targetDenominator
      let maxSell : ℤ := marginalSells * targetDenominator
      if target < -maxSell ∨ maxBuy < target then return none
      else do
        let fill ← partialFill target maxBuy maxSell
        return some
          { price := price, activeMask := c.mask, dustMask := ∅, partialSide := fill.1
            fractionNumerator := fill.2.1.toNat, fractionDenominator := fill.2.2.toNat
            atCap := false }

/-- The only price below the cap that balances the orders: gaps first, then limits. -/
def uncappedStep (c : StepContext) : Except LaunchError LaunchStep := do
  let bs := boundaries c.os
  let candidate ← scan .clearing c.intervalStep none (gaps none bs)
  let candidate ← scan .clearing c.boundaryStep candidate bs
  orElseThrow .clearing candidate

end StepContext

def stepContext (d : LaunchDefinition) (batch : LaunchRegisteredBatch) (orders : List Order)
    (mask : Finset ℕ) : StepContext :=
  let sold := d.initialSupply - batch.before.inventoryUnits
  { initialSupply := d.initialSupply, sold := sold, remaining := d.saleUnits - sold
    os := actives orders mask, mask := mask }

def continuousStep (d : LaunchDefinition) (batch : LaunchRegisteredBatch) (orders : List Order)
    (mask : Finset ℕ) : Except LaunchError LaunchStep := do
  let c := stepContext d batch orders mask
  let capPrice ← d.averagePrice c.sold d.saleUnits
  let capBuys ← quantityWhere c.os fun o =>
    decide (o.side = .buy) && decide (classify o capPrice ≠ .outside)
  let capSells ← quantityWhere c.os fun o =>
    decide (o.side = .sell) && decide (classify o capPrice ≠ .outside)
  let needed ← checked .arithmetic (capSells + c.remaining)
  if needed ≤ capBuys ∧ capBuys ≠ 0 then
    return { price := capPrice, activeMask := mask, dustMask := ∅, partialSide := some .buy
             fractionNumerator := needed, fractionDenominator := capBuys, atCap := true }
  else c.uncappedStep

/-! ### Rounding and dust -/

/-- Quantities per order, the orders that round to nothing, and the running totals. -/
structure Allocation where
  quantities : List ℕ
  dust : Finset ℕ
  seen : ℕ
  allocated : ℕ

/-- Whether a filled order leaves nothing for its owner. -/
def isDust (o : Order) (price : LaunchPrice) (quantity : ℕ) : Except LaunchError Bool :=
  if quantity = 0 then return true
  else if o.side = .sell then do
    let proceeds ← price.proceeds quantity
    return decide (proceeds = 0)
  else return false

/-- Dust in the partial group: nothing is when its target is zero. -/
def shareIsDust (step : LaunchStep) (o : Order) (quantity : ℕ) : Except LaunchError Bool :=
  if step.fractionNumerator ≠ 0 then isDust o step.price quantity else pure false

/-- The loop that fills the orders; `seen` and `allocated` are the totals of the partial group. -/
def allocateLoop (step : LaunchStep) (partialTotal marginalTotal : ℕ) :
    ℕ → ℕ → List (Order × ℕ) → Except LaunchError Allocation
  | seen, allocated, [] =>
    .ok { quantities := [], dust := ∅, seen := seen, allocated := allocated }
  | seen, allocated, (o, i) :: rest =>
    if i ∉ step.activeMask ∨ classify o step.price = .outside then do
      let a ← allocateLoop step partialTotal marginalTotal seen allocated rest
      return { a with quantities := 0 :: a.quantities }
    else if isPartial o step then do
      let seen ← checked .arithmetic (seen + o.quantity)
      let cumulative ← checked .arithmetic (partialTotal * seen / marginalTotal)
      let quantity ← checkedSub .arithmetic cumulative allocated
      require (quantity ≤ o.quantity) LaunchError.conservation
      let dusty ← shareIsDust step o quantity
      let a ← allocateLoop step partialTotal marginalTotal seen cumulative rest
      return { a with quantities := quantity :: a.quantities
                      dust := if dusty then insert i a.dust else a.dust }
    else do
      let dusty ← isDust o step.price o.quantity
      let a ← allocateLoop step partialTotal marginalTotal seen allocated rest
      return { a with quantities := o.quantity :: a.quantities
                      dust := if dusty then insert i a.dust else a.dust }

/-- The rounded-down fill of the partial group. -/
def partialUnits (step : LaunchStep) (marginalTotal : ℕ) : Except LaunchError ℕ :=
  if step.partialSide ≠ none then
    (floorRatio step.fractionNumerator marginalTotal step.fractionDenominator).mapError
      fun _ => LaunchError.arithmetic
  else pure 0

def allocate (orders : List Order) (step : LaunchStep) : Except LaunchError Allocation := do
  let marginalTotal ← quantityWhere (actives orders step.activeMask) fun o => isPartial o step
  let partialTotal ← partialUnits step marginalTotal
  let a ← allocateLoop step partialTotal marginalTotal 0 0 orders.zipIdx
  require (a.allocated = partialTotal ∧ a.seen = marginalTotal) .conservation
  return a

def soldAfter (d : LaunchDefinition) (batch : LaunchRegisteredBatch) (quantities : List ℕ) :
    Except LaunchError ℕ :=
  checkedInt .conservation
    (((d.initialSupply - batch.before.inventoryUnits : ℕ) : ℤ) + ((batch.requests.zip quantities).map fun x =>
        if x.1.request.side = .buy then (x.2 : ℤ) else -(x.2 : ℤ)).sum)

structure LaunchSolution where
  price : LaunchPrice
  quantities : List ℕ
  steps : List LaunchStep
deriving DecidableEq

/-- The rounds of clearing: each one drops the dust of the one before. -/
def solveLoop (d : LaunchDefinition) (batch : LaunchRegisteredBatch) (orders : List Order) :
    ℕ → Finset ℕ → Except LaunchError LaunchSolution
  | 0, _ => .error .clearing
  | fuel + 1, mask => do
    let step ← continuousStep d batch orders mask
    let a ← allocate orders step
    let step := { step with dustMask := a.dust }
    if a.dust = ∅ then do
      let sold ← soldAfter d batch a.quantities
      require (sold ≤ d.saleUnits) .clearing
      return { price := step.price, quantities := a.quantities, steps := [step] }
    else do
      let s ← solveLoop d batch orders fuel (mask \ a.dust)
      return { s with steps := step :: s.steps }

def launchOrders (requests : List LaunchRequestRef) : List Order :=
  requests.map fun r =>
    { side := r.request.side, quantity := r.request.quantity
      limit := { numerator := r.request.noidLimit, denominator := r.request.quantity } }

section
variable (H : NativeHash)

def solve (d : LaunchDefinition) (batch : LaunchRegisteredBatch) :
    Except LaunchError LaunchSolution := do
  batch.before.checkDefinition H d
  let orders := launchOrders batch.requests
  solveLoop d batch orders (orders.length + 1) (Finset.range orders.length)

/-! ### Settlement -/

inductive LaunchOutcome where
  | continue (state : LaunchState)
  | graduate (pool : PoolState)
deriving DecidableEq, Repr

namespace LaunchOutcome

def noidValue : LaunchOutcome → ℕ
  | .continue s => s.marketNoid
  | .graduate p => p.noidValue

def inventoryUnits : LaunchOutcome → ℕ
  | .continue s => s.inventoryUnits
  | .graduate p => p.quoteReserve

end LaunchOutcome

structure LaunchExecution where
  filledQuantity : ℕ
  noidCost : ℕ
  noidProceeds : ℕ
deriving DecidableEq, Repr

structure LaunchSettlement where
  outcome : LaunchOutcome
  solution : LaunchSolution
  execution : List LaunchExecution
  claims : List SwapClaim
  protocolFee : ℕ
  roundingFee : ℕ
  roundingCredit : ℕ
deriving DecidableEq

def executeRequest (price : LaunchPrice) (r : LaunchRequest) (filled : ℕ) :
    Except LaunchError LaunchExecution := do
  let minimum ← checked .arithmetic (r.noidLimit * filled / r.quantity)
  if r.side = .buy then do
    let cost ← price.cost filled
    let maximum ← checked .arithmetic (divCeil (r.noidLimit * filled) r.quantity)
    require (cost ≤ maximum ∧ cost ≤ r.noidLimit) LaunchError.conservation
    return { filledQuantity := filled, noidCost := cost, noidProceeds := 0 }
  else do
    let proceeds ← price.proceeds filled
    require (minimum ≤ proceeds ∧ ¬(filled ≠ 0 ∧ proceeds = 0)) LaunchError.conservation
    return { filledQuantity := filled, noidCost := 0, noidProceeds := proceeds }

/-- A claim with what its request brought in and what it carries. -/
structure ClaimRow where
  claim : SwapClaim
  requestNoid : ℕ
  claimNoid : ℕ

/-- The fee charged to the `i`-th of `count` requests. -/
def chargedFee (count protocolFee roundingCredit i : ℕ) : ℕ :=
  protocolFee / count + (if i < protocolFee % count then 1 else 0) + if i = 0 then roundingCredit else 0

def launchClaim (d : LaunchDefinition) (r : LaunchRequestRef) (e : LaunchExecution) (credit : ℕ) :
    SwapClaim :=
  let buy := r.request.side = .buy
  { request := r.key H
    inputAsset := if buy then NOID_ASSET else d.asset
    outputAsset := if buy then d.asset else NOID_ASSET
    refundOwner := r.request.owner
    recipient := r.request.recipient
    refundUnits :=
      if buy then r.request.noidLimit - e.noidCost else r.request.quantity - e.filledQuantity
    outputUnits := if buy then e.filledQuantity else e.noidProceeds
    feeCredit := credit }

/-- The claim of the `i`-th request, charged its share of the fee. -/
def settleRequest (d : LaunchDefinition) (count protocolFee roundingCredit : ℕ) (i : ℕ)
    (r : LaunchRequestRef) (e : LaunchExecution) : Except LaunchError ClaimRow := do
  let credit ← checkedSub .fee MARKET_REQUEST_FEE_CREDIT
    (chargedFee count protocolFee roundingCredit i)
  let c := launchClaim H d r e credit
  c.validate.mapError fun _ => LaunchError.conservation
  let requestNoid ← r.request.noidValue
  let claimNoid ← c.noidValue.mapError fun _ => LaunchError.conservation
  return { claim := c, requestNoid := requestNoid, claimNoid := claimNoid }

/-- The state the launch moves to: the next curve state, or the pool when it is sold out. -/
def launchOutcome (d : LaunchDefinition) (before : LaunchState) (sold cash : ℕ) :
    Except LaunchError LaunchOutcome :=
  if sold = d.saleUnits then do
    let pool ← d.graduationPool H
    return .graduate pool
  else do
    let generation ← checked .arithmetic (before.generation + 1)
    let state : LaunchState :=
      { before.idleView with
        inventoryUnits := d.initialSupply - sold, marketNoid := cash, generation := generation }
    state.checkDefinition H d
    return .continue state

/-- Currency and token units are the same before and after the settlement. -/
def Conserves (batch : LaunchRegisteredBatch) (outcome : LaunchOutcome) (rows : List ClaimRow) (fee : ℕ) : Prop :=
  batch.before.marketNoid + (rows.map (·.requestNoid)).sum = outcome.noidValue + fee + (rows.map (·.claimNoid)).sum ∧
    batch.before.inventoryUnits + LaunchRegisteredBatch.sellQuantities batch.requests =
      outcome.inventoryUnits + ((batch.requests.zip rows).map fun x =>
        if x.1.request.side = .buy then x.2.claim.outputUnits else x.2.claim.refundUnits).sum

instance (batch : LaunchRegisteredBatch) (outcome : LaunchOutcome) (rows : List ClaimRow)
    (fee : ℕ) : Decidable (Conserves batch outcome rows fee) := by
  unfold Conserves; infer_instance

namespace LaunchSettlement

def calculate (d : LaunchDefinition) (batch : LaunchRegisteredBatch) (height protocolFee : ℕ) :
    Except LaunchError LaunchSettlement := do
  batch.settlementAllowed height
  let count := batch.requests.length
  require (protocolFee ≤ count * MAX_SETTLEMENT_FEE_PER_REQUEST) LaunchError.fee
  let solution ← solve H d batch
  let sold ← soldAfter d batch solution.quantities
  let cash ← d.curveCash sold
  let execution ← (batch.requests.zip solution.quantities).mapM fun x =>
    executeRequest solution.price x.1.request x.2
  let rounding : ℤ := batch.before.marketNoid + (execution.map fun e => (e.noidCost : ℤ)).sum -
    (execution.map fun e => (e.noidProceeds : ℤ)).sum - cash
  require (-1 ≤ rounding ∧ rounding ≤ count + 1) LaunchError.conservation
  let roundingFee := (max rounding 0).toNat
  let roundingCredit := (max (-rounding) 0).toNat
  let outcome ← launchOutcome H d batch.before sold cash
  let rows ← (batch.requests.zip execution).zipIdx.mapM fun x =>
    settleRequest H d count protocolFee roundingCredit x.2 x.1.1 x.1.2
  require (Conserves batch outcome rows (protocolFee + roundingFee)) LaunchError.conservation
  return { outcome := outcome, solution := solution, execution := execution
           claims := rows.map (·.claim), protocolFee := protocolFee, roundingFee := roundingFee
           roundingCredit := roundingCredit }

end LaunchSettlement

end

end Noid.Tx
