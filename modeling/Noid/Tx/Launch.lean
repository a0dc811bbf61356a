import Noid.Tx.Market
import Mathlib.Data.List.Sort

/-! # Launches

A launch sells three fifths of a fixed supply along a linear curve and then graduates into a permanent pool.
`LaunchRegisteredBatch.register` freezes it over a complete set of funded buy and sell requests. -/

namespace Noid.Tx

open Noid.Lib

inductive LaunchError where
  | encoding | kind | padding | identity | definition | quantity | arithmetic | height | phase
  | round | funding | fee | queue | capacity | duplicate | clearing | conservation
deriving DecidableEq, Repr

def TOKEN_UNITS : ℕ := 10 ^ 6

def LAUNCH_PROFILE : ℕ := 1

def LAUNCH_MIN_SUPPLY : ℕ := 100000 * TOKEN_UNITS

def LAUNCH_MAX_SUPPLY : ℕ := MARKET_QUANTITY_MAX / 900

def validateSupplyUnits (units : ℕ) : Except LaunchError Unit :=
  require ((LAUNCH_MIN_SUPPLY ≤ units ∧ units ≤ LAUNCH_MAX_SUPPLY) ∧ units % TOKEN_UNITS = 0)
    .quantity

/-- A price in base currency per token unit. -/
structure LaunchPrice where
  numerator : ℕ
  denominator : ℕ
deriving DecidableEq, Repr

namespace LaunchPrice

def cost (p : LaunchPrice) (units : ℕ) : Except LaunchError ℕ := do
  require (p.denominator ≠ 0) .arithmetic
  checked .arithmetic (divCeil (units * p.numerator) p.denominator)

def proceeds (p : LaunchPrice) (units : ℕ) : Except LaunchError ℕ := do
  require (p.denominator ≠ 0) .arithmetic
  checked .arithmetic (units * p.numerator / p.denominator)

end LaunchPrice

section
variable (H : NativeHash)

/-! ### Definitions -/

/-- What the curve of a supply holds after selling `sold` units, rounded up. -/
def curveCashForSupply (initialSupply sold : ℕ) : Except LaunchError ℕ := do
  validateSupplyUnits initialSupply
  require (sold ≤ initialSupply / 5 * 3) .quantity
  checked .arithmetic
    (divCeil (3 * initialSupply * sold + 5 * sold * sold) (900 * initialSupply))

namespace LaunchDefinition

def validate (d : LaunchDefinition) : Except LaunchError Unit := do
  require (d.asset ≠ 0 ∧ d.marketGenesis ≠ 0 ∧ d.definitionRoot ≠ 0 ∧ d.profile = LAUNCH_PROFILE)
    .definition
  validateSupplyUnits d.initialSupply

def id (d : LaunchDefinition) : LaunchId := H.root (.launch (.definition d))

def marketDefinition (d : LaunchDefinition) : MarketDefinition :=
  { genesis := d.marketGenesis, base := NOID_ASSET, quote := d.asset, profile := MARKET_PROFILE }

def saleUnits (d : LaunchDefinition) : ℕ := d.initialSupply / 5 * 3

def dexUnits (d : LaunchDefinition) : ℕ := d.initialSupply - d.saleUnits

def graduationCash (d : LaunchDefinition) : ℕ := d.initialSupply / 250

/-- The pool that a sold-out launch becomes. -/
def graduationPool (d : LaunchDefinition) : Except LaunchError PoolState := do
  d.validate
  (PoolState.bootstrapPermanent H d.marketDefinition d.graduationCash d.dexUnits).mapError
    fun _ => .definition

/-- The cash of the curve after selling so much. -/
def curveCash (d : LaunchDefinition) (sold : ℕ) : Except LaunchError ℕ := do
  d.validate
  curveCashForSupply d.initialSupply sold

def averagePrice (d : LaunchDefinition) (beforeSold afterSold : ℕ) :
    Except LaunchError LaunchPrice := do
  d.validate
  require (beforeSold ≤ d.saleUnits ∧ afterSold ≤ d.saleUnits) .quantity
  return { numerator := 3 * d.initialSupply + 5 * (beforeSold + afterSold)
           denominator := 900 * d.initialSupply }

end LaunchDefinition

/-- The height at which a round registered at `height` times out. -/
def expiry (height : ℕ) : Except LaunchError ℕ := do
  require (height ≠ 0) .height
  checked .height (height + MARKET_SETTLEMENT_WINDOW)

/-! ### States -/

namespace LaunchState

/-- The round fields are clear while idle and consistent while frozen. -/
def PhaseOk (s : LaunchState) : Prop :=
  match s.phase with
  | .idle => s.queueRoot = 0 ∧ s.registeredHeight = 0 ∧ s.timeoutHeight = 0 ∧ s.requestCount = 0
  | .frozen =>
    s.queueRoot ≠ 0 ∧ s.registeredHeight ≠ 0 ∧ (s.registeredHeight + MARKET_SETTLEMENT_WINDOW < U64 ∧
        s.registeredHeight + MARKET_SETTLEMENT_WINDOW = s.timeoutHeight) ∧
      s.requestCount ≠ 0 ∧ s.requestCount ≤ MAX_ROUND_REQUESTS

instance (s : LaunchState) : Decidable s.PhaseOk := by
  unfold PhaseOk
  cases s.phase <;> infer_instance

def validate (s : LaunchState) : Except LaunchError Unit := do
  require (s.launch ≠ 0 ∧ s.inventoryUnits ≠ 0 ∧ s.inventoryUnits ≤ LAUNCH_MAX_SUPPLY ∧
    s.marketNoid ≤ MARKET_QUANTITY_MAX) .quantity
  require s.PhaseOk .phase

lemma validate_eq_ok {s : LaunchState} {u : Unit} :
    s.validate = .ok u ↔ (s.launch ≠ 0 ∧ s.inventoryUnits ≠ 0 ∧ s.inventoryUnits ≤ LAUNCH_MAX_SUPPLY ∧
        s.marketNoid ≤ MARKET_QUANTITY_MAX) ∧ s.PhaseOk := by
  simp only [validate, ok_rules]

def checkDefinition (s : LaunchState) (d : LaunchDefinition) : Except LaunchError Unit := do
  s.validate
  d.validate
  require (s.launch = d.id H ∧ s.inventoryUnits ≤ d.initialSupply ∧ d.dexUnits < s.inventoryUnits)
    .definition
  let cash ← d.curveCash (d.initialSupply - s.inventoryUnits)
  require (s.marketNoid = cash) .definition

def root (s : LaunchState) : Address := H.root (.launch (.state s))

def roundId (s : LaunchState) (height : ℕ) : Except LaunchError Digest := do
  s.validate
  require (s.phase = .idle ∧ s.generation ≠ U64_MAX) .phase
  let _ ← expiry height
  return H.launchRound s.launch (s.root H) height

def idleView (s : LaunchState) : LaunchState :=
  { s with queueRoot := 0, registeredHeight := 0, timeoutHeight := 0, requestCount := 0, phase := .idle }

def phaseAt (s : LaunchState) (height : ℕ) : Except LaunchError RoundPhase := do
  s.validate
  match s.phase with
  | .idle => return .open
  | .frozen =>
    require (s.registeredHeight ≤ height) .height
    if height = s.registeredHeight then return .registered
    else if height < s.timeoutHeight then return .settlement
    else return .refund

end LaunchState

/-! ### Requests -/

namespace LaunchRequest

def noidValue (r : LaunchRequest) : Except LaunchError ℕ :=
  checked .arithmetic (MARKET_REQUEST_FEE_CREDIT + if r.side = .buy then r.noidLimit else 0)

def validate (r : LaunchRequest) : Except LaunchError Unit := do
  require (r.round ≠ 0 ∧ r.asset ≠ 0 ∧ r.owner ≠ 0 ∧ r.recipient ≠ 0 ∧ r.profile = LAUNCH_PROFILE)
    .identity
  require (r.quantity ≠ 0 ∧ r.quantity ≤ LAUNCH_MAX_SUPPLY ∧ r.noidLimit ≤ MARKET_QUANTITY_MAX ∧
    ¬(r.side = .buy ∧ r.noidLimit = 0)) .quantity
  let _ ← expiry r.registeredHeight
  let _ ← r.noidValue
  return ()

def root (r : LaunchRequest) : Address := H.root (.launch (.request r))

def checkRound (r : LaunchRequest) (d : LaunchDefinition) (before : LaunchState) (height : ℕ) :
    Except LaunchError Unit := do
  r.validate
  before.checkDefinition H d
  require (r.asset = d.asset ∧ r.quantity ≤ d.initialSupply) .round
  let round ← before.roundId H height
  require (r.round = round ∧ r.registeredHeight = height) .round

end LaunchRequest

/-- A request and the carrier that funds it. -/
structure LaunchRequestRef where
  slotIndex : ℕ
  creationId : ℕ
  request : LaunchRequest
deriving DecidableEq, Repr

namespace LaunchRequestRef

def validate (r : LaunchRequestRef) : Except LaunchError Unit := do
  let _ ← orElseThrow .funding (nativeSequence r.creationId)
  r.request.validate

def key (r : LaunchRequestRef) : Digest :=
  H.fundedRequestKey (r.request.root H) r.slotIndex r.creationId

end LaunchRequestRef

/-! ### Registration -/

/-- A frozen round: the idle state, the frozen state, and the requests in key order. -/
structure LaunchRegisteredBatch where
  before : LaunchState
  after : LaunchState
  round : Digest
  requests : List LaunchRequestRef
deriving DecidableEq, Repr

namespace LaunchRegisteredBatch

def buyLimits (requests : List LaunchRequestRef) : ℕ :=
  (requests.map fun r => if r.request.side = .buy then r.request.noidLimit else 0).sum

def sellQuantities (requests : List LaunchRequestRef) : ℕ :=
  (requests.map fun r => if r.request.side = .sell then r.request.quantity else 0).sum

/-- The loop over the requests: each is valid for the round and no slot is named twice. -/
def checkRequests (d : LaunchDefinition) (before : LaunchState) (height : ℕ) :
    List ℕ → List LaunchRequestRef → Except LaunchError Unit
  | _, [] => .ok ()
  | slots, r :: rest => do
    r.validate
    r.request.checkRound H d before height
    require (r.slotIndex ∉ slots) .duplicate
    checkRequests d before height (r.slotIndex :: slots) rest

def sortByKey (requests : List LaunchRequestRef) : List LaunchRequestRef :=
  requests.insertionSort fun a b => a.key H ≤ b.key H

/-- Freeze a round of requests. -/
def register (d : LaunchDefinition) (before : LaunchState) (height : ℕ)
    (requests : List LaunchRequestRef) : Except LaunchError LaunchRegisteredBatch := do
  before.checkDefinition H d
  require (requests ≠ [] ∧ requests.length ≤ MAX_ROUND_REQUESTS) .capacity
  let round ← before.roundId H height
  checkRequests H d before height [] requests
  require (before.marketNoid + buyLimits requests ≤ MARKET_QUANTITY_MAX ∧
    sellQuantities requests ≤ d.initialSupply - before.inventoryUnits) .capacity
  let sorted := sortByKey H requests
  let keys : List Digest := sorted.map (·.key H)
  require (keys.IsChain fun a b => a ≠ b) .duplicate
  let queueRoot ← (committedQueueRoot H round keys).mapError fun _ => LaunchError.queue
  let timeout ← expiry height
  let after : LaunchState :=
    { before with
      queueRoot := queueRoot, registeredHeight := height, timeoutHeight := timeout
      requestCount := requests.length, phase := .frozen }
  after.checkDefinition H d
  return { before := before, after := after, round := round, requests := sorted }

def settlementAllowed (b : LaunchRegisteredBatch) (height : ℕ) : Except LaunchError Unit := do
  let phase ← b.after.phaseAt height
  require (phase = .settlement) .phase

end LaunchRegisteredBatch

end

end Noid.Tx
