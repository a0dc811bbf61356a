import Noid.Lib.SortedMap
import Noid.Tx.MarketClearing

/-! # Settlement of a pool round

`solveMarket` rounds the partial fills of a rate, removes the orders that round to nothing and repeats.
`BatchSettlement.calculate` turns the fills into claims. -/

namespace Noid.Tx

open Noid.Lib Noid.Lib.Crossing

/-! ### Rounding and dust -/

/-- The output of an effective input at a rate. -/
def payout (effective : ℕ) (side : MarketSide) (price : ClearingRate) : Except MarketError ℕ := do
  let (n, d) := match side with
    | .base => (price.numerator, price.denominator)
    | .quote => (price.denominator, price.numerator)
  require (d ≠ 0) .arithmetic
  checked .arithmetic (effective * n / d)

/-- Inputs per order, the orders that round to nothing, and the running totals. -/
structure MarketAllocation where
  effective : List ℕ
  dust : Finset ℕ
  seen : ℕ
  allocated : ℕ

/-- One order of the loop: its input, whether it must come to something, and the totals. -/
def allocateOrder (step : ClearingStep) (partialTotal marginalTotal seen allocated : ℕ) (o : MarketOrder) :
    Except MarketError (ℕ × Bool × ℕ × ℕ) :=
  match classifyOrder o step.price with
  | .outside => .ok (0, false, seen, allocated)
  | .full => .ok (o.capacity, true, seen, allocated)
  | .marginal =>
    if some o.side ≠ step.partialSide then .ok (o.capacity, true, seen, allocated)
    else do
      let seen ← checked .arithmetic (seen + o.capacity)
      let cumulative ← checked .arithmetic (partialTotal * seen / marginalTotal)
      let effective ← checkedSub .arithmetic cumulative allocated
      return (effective, decide (step.fractionNumerator ≠ 0), seen, cumulative)

def allocateMarket (step : ClearingStep) (partialTotal marginalTotal : ℕ) :
    ℕ → ℕ → List (MarketOrder × ℕ) → Except MarketError MarketAllocation
  | seen, allocated, [] => .ok { effective := [], dust := ∅, seen := seen, allocated := allocated }
  | seen, allocated, (o, i) :: rest =>
    if i ∉ step.activeMask then do
      let a ← allocateMarket step partialTotal marginalTotal seen allocated rest
      return { a with effective := 0 :: a.effective }
    else do
      let (effective, positive, seen, allocated) ←
        allocateOrder step partialTotal marginalTotal seen allocated o
      let output ← payout effective o.side step.price
      let a ← allocateMarket step partialTotal marginalTotal seen allocated rest
      return { a with effective := effective :: a.effective
                      dust := if positive ∧ (effective = 0 ∨ output = 0) then insert i a.dust else a.dust }

structure LimitSolution where
  price : ClearingRate
  effective : List ℕ
  steps : List ClearingStep
deriving DecidableEq

/-- The rounds of clearing: each one drops the dust of the one before. -/
def solveMarketLoop (pool : PoolState) (orders : List MarketOrder) :
    ℕ → Finset ℕ → Except MarketError LimitSolution
  | 0, _ => .error .clearing
  | fuel + 1, mask => do
    let step ← marketStep pool orders mask
    let marginalTotal ← capacityWhere (activeOrders orders mask) fun o =>
      decide (some o.side = step.partialSide) && decide (classifyOrder o step.price = .marginal)
    let partialTotal ← floorRatio step.fractionNumerator marginalTotal step.fractionDenominator
    let a ← allocateMarket step partialTotal marginalTotal 0 0 orders.zipIdx
    require (a.seen = marginalTotal ∧ a.allocated = partialTotal) .conservation
    let step := { step with dustMask := a.dust }
    if a.dust = ∅ then
      return { price := step.price, effective := a.effective, steps := [step] }
    else do
      let s ← solveMarketLoop pool orders fuel (mask \ a.dust)
      return { s with steps := step :: s.steps }

def SwapRequest.side (r : SwapRequest) (d : MarketDefinition) : MarketSide :=
  if r.inputAsset = d.base then .base else .quote

def marketOrder (d : MarketDefinition) (r : FundedRequestRef) : Except MarketError MarketOrder := do
  let capacity ← r.request.effectiveInput
  let side := r.request.side d
  let limit : ClearingRate := match side with
    | .base => { numerator := r.request.minimumOutput, denominator := capacity }
    | .quote => { numerator := capacity, denominator := r.request.minimumOutput }
  return { side := side, capacity := capacity, limit := limit }

section
variable (H : NativeHash)

def solveMarket (d : MarketDefinition) (batch : RegisteredBatch) : Except MarketError LimitSolution := do
  batch.before.checkDefinition H d
  let orders ← batch.requests.mapM (marketOrder d)
  solveMarketLoop batch.before orders (orders.length + 1) (Finset.range orders.length)

/-! ### Claims -/

structure SwapExecution where
  effectiveInput : ℕ
  spentInput : ℕ
  refundInput : ℕ
  output : ℕ
deriving DecidableEq, Repr

/-- What the swaps of a round paid in and were paid, per side. -/
structure SwapFlow where
  grossBase : ℕ
  grossQuote : ℕ
  paidBase : ℕ
  paidQuote : ℕ
deriving DecidableEq, Repr

def SwapFlow.add (f : SwapFlow) (side : MarketSide) (spent output : ℕ) : Except MarketError SwapFlow :=
  match side with
  | .base => do
    let gross ← checked .arithmetic (f.grossBase + spent)
    let paid ← checked .arithmetic (f.paidQuote + output)
    return { f with grossBase := gross, paidQuote := paid }
  | .quote => do
    let gross ← checked .arithmetic (f.grossQuote + spent)
    let paid ← checked .arithmetic (f.paidBase + output)
    return { f with grossQuote := gross, paidBase := paid }

/-- The gross input behind an effective one. -/
def spentInput (r : SwapRequest) (effective capacity : ℕ) : Except MarketError ℕ :=
  if effective = 0 then .ok 0
  else if effective = capacity then .ok r.grossInput
  else checked .arithmetic (divCeil (effective * 10000) (10000 - MARKET_FEE_BPS))

/-- Fill one request at the rate and check its limit. -/
def executeSwap (d : MarketDefinition) (price : ClearingRate) (r : SwapRequest) (effective : ℕ) :
    Except MarketError SwapExecution := do
  let capacity ← r.effectiveInput
  let spent ← spentInput r effective capacity
  require (spent ≤ r.grossInput) .conservation
  let output ← payout effective (r.side d) price
  let minimum ← checked .arithmetic (r.minimumOutput * effective / capacity)
  require (minimum ≤ output ∧ ¬(spent ≠ 0 ∧ output = 0)) .minimum
  return { effectiveInput := effective, spentInput := spent, refundInput := r.grossInput - spent, output := output }

/-- The share of a fee that the `i`-th of `count` requests pays. -/
def feeShare (fee count i : ℕ) : ℕ := fee / count + if i < fee % count then 1 else 0

def swapClaim (entry : FundedRequestRef) (e : SwapExecution) (charged : ℕ) : Except MarketError SwapClaim := do
  let credit ← checkedSub .fee MARKET_REQUEST_FEE_CREDIT charged
  let claim : SwapClaim :=
    { request := entry.key H, inputAsset := entry.request.inputAsset, outputAsset := entry.request.outputAsset
      refundOwner := entry.request.owner, recipient := entry.request.recipient
      refundUnits := e.refundInput, outputUnits := e.output, feeCredit := credit }
  claim.validate
  return claim

/-- The loop over the requests, with the flows so far and the index of the next request. -/
def settleLoop (d : MarketDefinition) (price : ClearingRate) (fee count : ℕ) :
    SwapFlow → ℕ → List (FundedRequestRef × ℕ) → Except MarketError (SwapFlow × List (SwapClaim × SwapExecution))
  | flow, _, [] => .ok (flow, [])
  | flow, i, (entry, effective) :: rest => do
    let e ← executeSwap d price entry.request effective
    let flow ← flow.add (entry.request.side d) e.spentInput e.output
    let claim ← swapClaim H entry e (feeShare fee count i)
    let (flow, rows) ← settleLoop d price fee count flow (i + 1) rest
    return (flow, (claim, e) :: rows)

def reserveAfter (reserve gross paid : ℕ) : Except MarketError ℕ := do
  let sum ← checked .arithmetic (reserve + gross)
  let rest ← checkedSub .arithmetic sum paid
  require (rest ≤ MARKET_QUANTITY_MAX) .arithmetic
  return rest

structure BatchSettlement where
  after : PoolState
  rate : ClearingRate
  claims : List SwapClaim
  fee : ℕ
  execution : List SwapExecution
  steps : List ClearingStep
deriving DecidableEq

namespace BatchSettlement

def calculate (d : MarketDefinition) (batch : RegisteredBatch) (height fee : ℕ) :
    Except MarketError BatchSettlement := do
  batch.settlementAllowed height
  batch.before.checkDefinition H d
  let count := batch.requests.length
  require (fee ≤ count * MAX_SETTLEMENT_FEE_PER_REQUEST) .fee
  let solution ← solveMarket H d batch
  let (flow, rows) ← settleLoop H d solution.price fee count ⟨0, 0, 0, 0⟩ 0
    (batch.requests.zip solution.effective)
  let before := batch.before
  let generation ← checked .arithmetic (before.generation + 1)
  let baseReserve ← reserveAfter before.baseReserve flow.grossBase flow.paidBase
  let quoteReserve ← reserveAfter before.quoteReserve flow.grossQuote flow.paidQuote
  let after := { before.idleView with
    generation := generation, baseReserve := baseReserve, quoteReserve := quoteReserve }
  after.validate
  require (before.baseReserve * before.quoteReserve ≤ after.baseReserve * after.quoteReserve) .conservation
  let claims := rows.map (·.1)
  let incoming ← batch.requests.mapM (·.request.noidValue)
  let outgoing ← claims.mapM SwapClaim.noidValue
  require (before.noidValue + incoming.sum = after.noidValue + fee + outgoing.sum) .conservation
  return { after := after, rate := solution.price, claims := claims, fee := fee
           execution := rows.map (·.2), steps := solution.steps }

end BatchSettlement

/-! ### Conservation -/

variable {H} {d : MarketDefinition}

def SwapRequest.OfMarket (r : SwapRequest) (d : MarketDefinition) : Prop :=
  r.inputAsset = d.base ∧ r.outputAsset = d.quote ∨ r.inputAsset = d.quote ∧ r.outputAsset = d.base

lemma checkRound_ofMarket {r : SwapRequest} {p : PoolState} {height : ℕ} {u : Unit}
    (h : r.checkRound H d p height = .ok u) : r.OfMarket d := by
  simp only [SwapRequest.checkRound, ok_rules] at h
  obtain ⟨-, -, -, -, -, -, -, -, hm⟩ := h
  exact hm

lemma roundPrincipal_ofMarket {before : PoolState} {height : ℕ} :
    ∀ {l : List FundedRequestRef} {sum : ℕ × ℕ},
      RegisteredBatch.roundPrincipal H d before height l = .ok sum → ∀ r ∈ l, r.request.OfMarket d := by
  intro l
  induction l with
  | nil => simp
  | cons r rest ih =>
    intro sum h x hx
    simp only [RegisteredBatch.roundPrincipal, bind_eq_ok] at h
    obtain ⟨⟨⟩, hround, -, -, sum', hrest, -⟩ := h
    rcases List.mem_cons.mp hx with rfl | hx
    · exact checkRound_ofMarket hround
    · exact ih hrest x hx

lemma register_eq_ok {before : PoolState} {height : ℕ} {requests : List FundedRequestRef}
    {batch : RegisteredBatch} (h : RegisteredBatch.register H d before height requests = .ok batch) :
    before.pool = d.id H ∧ batch.before = before ∧ batch.after.pool = before.pool ∧
      batch.after.quoteReserve = before.quoteReserve ∧ batch.requests.Perm requests ∧
      ∀ r ∈ batch.requests, r.request.OfMarket d := by
  simp only [RegisteredBatch.register, RegisteredBatch.canonicalRequests, PoolState.checkDefinition, ok_rules] at h
  obtain ⟨⟨-, -, -, -, hid, -⟩, -, round, -, keyed, ⟨-, -, -, rfl⟩, sum, hsum, -, -, -, -, -, -, -, rfl⟩ := h
  exact ⟨hid, rfl, rfl, rfl, List.perm_insertionSort _ _, roundPrincipal_ofMarket hsum⟩

end

end Noid.Tx
