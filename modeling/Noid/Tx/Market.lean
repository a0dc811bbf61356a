import Noid.Tx.Openings

/-! # Pools, swap requests and claims

A constant-product pool is idle or frozen over a registered queue of requests; a settled request becomes a claim that pays
out its refund, its output and its remaining fee credit. -/

namespace Noid.Tx

open Noid.Lib

inductive MarketError where
  | encoding | kind | padding | identifier | owner | quantity | profile | anchor | pool | phase
  | height | generation | queue | duplicate | funding | capacity | arithmetic | minimum
  | conservation | fee | clearing
deriving DecidableEq, Repr

def MARKET_PROFILE : ℕ := 1

def MARKET_FEE_BPS : ℕ := 30

def MARKET_REQUEST_FEE_CREDIT : ℕ := 100000

def MARKET_SETTLEMENT_WINDOW : ℕ := 4

def MARKET_MIN_LOCKED_SHARES : ℕ := 1000

def MARKET_QUANTITY_MAX : ℕ := 2 ^ 63 - 1

def MAX_ROUND_REQUESTS : ℕ := 16

def MAX_SETTLEMENT_FEE_PER_REQUEST : ℕ := 20000

def NATIVE_CREATION_TAG : ℕ := 2 ^ 62

def COINBASE_CREATION_TAG : ℕ := 2 ^ 63

/-- The native sequence number of a creation id: tag bits `01`, nonzero sequence. -/
def nativeSequence (creationId : ℕ) : Option ℕ :=
  if creationId / NATIVE_CREATION_TAG = 1 ∧ creationId % NATIVE_CREATION_TAG ≠ 0 then
    some (creationId % NATIVE_CREATION_TAG)
  else none

/-- A nonzero quantity within the market range. -/
def quantity (n : ℕ) : Except MarketError Unit :=
  require (n ≠ 0 ∧ n ≤ MARKET_QUANTITY_MAX) .quantity

def owner (a : Address) : Except MarketError Unit := require (a ≠ 0) .owner

/-! ### Square roots -/

/-- The bisection of `integer_sqrt`. -/
def integerSqrtLoop (n : ℕ) : ℕ → ℕ → ℕ → ℕ
  | 0, lo, _ => lo
  | fuel + 1, lo, hi =>
    if lo + 1 < hi then
      let m := (lo + hi) / 2
      if m * m ≤ n then integerSqrtLoop n fuel m hi else integerSqrtLoop n fuel lo m
    else lo

def integerSqrt (n : ℕ) : ℕ := integerSqrtLoop n 64 0 (2 ^ 64)

lemma integerSqrtLoop_spec (n : ℕ) :
    ∀ (fuel lo hi : ℕ), lo * lo ≤ n → n < hi * hi → hi ≤ lo + 2 ^ fuel →
      integerSqrtLoop n fuel lo hi * integerSqrtLoop n fuel lo hi ≤ n ∧
        n < (integerSqrtLoop n fuel lo hi + 1) * (integerSqrtLoop n fuel lo hi + 1)
  | 0, lo, hi, h1, h2, h3 => by
    refine ⟨h1, lt_of_lt_of_le h2 ?_⟩
    have : hi ≤ lo + 1 := by simpa using h3
    exact Nat.mul_le_mul this this
  | fuel + 1, lo, hi, h1, h2, h3 => by
    unfold integerSqrtLoop
    simp only
    split_ifs with hlt hm
    · exact integerSqrtLoop_spec n fuel _ hi hm h2 (by omega)
    · exact integerSqrtLoop_spec n fuel lo _ h1 (by omega) (by omega)
    · refine ⟨h1, lt_of_lt_of_le h2 ?_⟩
      have : hi ≤ lo + 1 := by omega
      exact Nat.mul_le_mul this this

lemma integerSqrt_spec {n : ℕ} (h : n < 2 ^ 128) :
    integerSqrt n * integerSqrt n ≤ n ∧ n < (integerSqrt n + 1) * (integerSqrt n + 1) :=
  integerSqrtLoop_spec n 64 0 (2 ^ 64) (Nat.zero_le _) h (Nat.le_add_left _ _)

/-! ### Definitions and pools -/

section
variable (H : NativeHash)

namespace MarketDefinition

def validate (d : MarketDefinition) : Except MarketError Unit := do
  require (d.genesis ≠ 0 ∧ d.base < d.quote) .identifier
  require (d.profile = MARKET_PROFILE) .profile

def id (d : MarketDefinition) : PoolId := H.root (.market (.definition d))

def baseIsNoid (d : MarketDefinition) : Bool := d.base == NOID_ASSET

end MarketDefinition

namespace PoolState

/-- The round fields are clear while idle and consistent while frozen. -/
def PhaseOk (p : PoolState) : Prop :=
  match p.phase with
  | .idle => p.queueRoot = 0 ∧ p.requestCount = 0 ∧ p.registeredHeight = 0 ∧ p.timeoutHeight = 0
  | .frozen =>
    p.queueRoot ≠ 0 ∧ p.requestCount ≠ 0 ∧ p.requestCount ≤ MAX_ROUND_REQUESTS ∧
      p.registeredHeight ≠ 0 ∧ p.registeredHeight + MARKET_SETTLEMENT_WINDOW < U64 ∧
      p.registeredHeight + MARKET_SETTLEMENT_WINDOW = p.timeoutHeight

instance (p : PoolState) : Decidable p.PhaseOk := by
  unfold PhaseOk
  cases p.phase <;> infer_instance

def validate (p : PoolState) : Except MarketError Unit := do
  require (p.pool ≠ 0) .identifier
  quantity p.baseReserve
  quantity p.quoteReserve
  quantity p.totalShares
  require (p.totalShares * p.totalShares ≤ p.baseReserve * p.quoteReserve) .pool
  require (MARKET_MIN_LOCKED_SHARES ≤ p.lockedShares ∧ p.lockedShares ≤ p.totalShares) .pool
  require p.PhaseOk .phase

lemma validate_eq_ok {p : PoolState} {u : Unit} :
    p.validate = .ok u ↔ p.pool ≠ 0 ∧ (p.baseReserve ≠ 0 ∧ p.baseReserve ≤ MARKET_QUANTITY_MAX) ∧
      (p.quoteReserve ≠ 0 ∧ p.quoteReserve ≤ MARKET_QUANTITY_MAX) ∧
      (p.totalShares ≠ 0 ∧ p.totalShares ≤ MARKET_QUANTITY_MAX) ∧
      p.totalShares * p.totalShares ≤ p.baseReserve * p.quoteReserve ∧
      (MARKET_MIN_LOCKED_SHARES ≤ p.lockedShares ∧ p.lockedShares ≤ p.totalShares) ∧ p.PhaseOk := by
  simp only [validate, quantity, ok_rules]

/-- Open a pool with its first reserves. -/
def bootstrap (d : MarketDefinition) (base quote : ℕ) : Except MarketError PoolState := do
  d.validate
  quantity base
  quantity quote
  let totalShares := integerSqrt (base * quote)
  require (MARKET_MIN_LOCKED_SHARES < totalShares) .quantity
  let value : PoolState :=
    { pool := d.id H, baseReserve := base, quoteReserve := quote, totalShares := totalShares
      lockedShares := MARKET_MIN_LOCKED_SHARES, queueRoot := 0, generation := 0
      registeredHeight := 0, timeoutHeight := 0, requestCount := 0, phase := .idle
      baseIsNoid := d.baseIsNoid }
  value.validate
  return value

/-- Permanent liquidity without an owner withdrawal right. -/
def bootstrapPermanent (d : MarketDefinition) (base quote : ℕ) : Except MarketError PoolState := do
  let value ← bootstrap H d base quote
  let value := { value with lockedShares := value.totalShares }
  value.validate
  return value

def checkDefinition (p : PoolState) (d : MarketDefinition) : Except MarketError Unit := do
  p.validate
  d.validate
  require (p.pool = d.id H ∧ p.baseIsNoid = d.baseIsNoid) .pool

def root (p : PoolState) : Address := H.root (.market (.pool p))

def noidValue (p : PoolState) : ℕ := if p.baseIsNoid then p.baseReserve else 0

def phaseAt (p : PoolState) (height : ℕ) : Except MarketError RoundPhase := do
  p.validate
  match p.phase with
  | .idle => return .open
  | .frozen =>
    require (p.registeredHeight ≤ height) .height
    if height = p.registeredHeight then return .registered
    else if height < p.timeoutHeight then return .settlement
    else return .refund

def idleView (p : PoolState) : PoolState :=
  { p with queueRoot := 0, registeredHeight := 0, timeoutHeight := 0, requestCount := 0, phase := .idle }

def roundId (p : PoolState) (height : ℕ) : Except MarketError Digest := do
  p.validate
  require (p.phase = .idle ∧ p.generation ≠ U64_MAX ∧ height ≠ 0 ∧ height + MARKET_SETTLEMENT_WINDOW < U64) .phase
  return H.marketRound p.pool (p.root H) height

end PoolState

/-! ### Requests and claims -/

namespace SwapRequest

def noidValue (r : SwapRequest) : Except MarketError ℕ :=
  checked .arithmetic
    (MARKET_REQUEST_FEE_CREDIT + if r.inputAsset = NOID_ASSET then r.grossInput else 0)

def timeoutHeight (r : SwapRequest) : Except MarketError ℕ := do
  require (r.registeredHeight ≠ 0) .height
  checked .arithmetic (r.registeredHeight + MARKET_SETTLEMENT_WINDOW)

/-- The input net of the trading fee, which is rounded up. -/
def effectiveInput (r : SwapRequest) : Except MarketError ℕ :=
  checkedSub .arithmetic r.grossInput ((r.grossInput * MARKET_FEE_BPS + 9999) / 10000)

def validate (r : SwapRequest) : Except MarketError Unit := do
  require (r.round ≠ 0 ∧ r.inputAsset ≠ r.outputAsset) .identifier
  Tx.owner r.owner
  Tx.owner r.recipient
  quantity r.grossInput
  quantity r.minimumOutput
  require (r.profile = MARKET_PROFILE) .profile
  let _ ← r.timeoutHeight
  let _ ← r.noidValue
  let effective ← r.effectiveInput
  require (effective ≠ 0) .quantity

def root (r : SwapRequest) : Address := H.root (.market (.request r))

def checkRound (r : SwapRequest) (d : MarketDefinition) (p : PoolState) (height : ℕ) :
    Except MarketError Unit := do
  r.validate
  p.checkDefinition H d
  require (r.profile = d.profile ∧ r.registeredHeight = height) .generation
  let round ← p.roundId H height
  require (r.round = round) .generation
  require ((r.inputAsset = d.base ∧ r.outputAsset = d.quote) ∨
    (r.inputAsset = d.quote ∧ r.outputAsset = d.base)) .pool

end SwapRequest

namespace SwapClaim

def noidValue (c : SwapClaim) : Except MarketError ℕ :=
  checked .arithmetic (c.feeCredit + if c.inputAsset = NOID_ASSET then c.refundUnits
    else if c.outputAsset = NOID_ASSET then c.outputUnits
    else 0)

def validate (c : SwapClaim) : Except MarketError Unit := do
  require (c.request ≠ 0 ∧ c.inputAsset ≠ c.outputAsset) .identifier
  Tx.owner c.refundOwner
  Tx.owner c.recipient
  require (c.refundUnits ≤ MARKET_QUANTITY_MAX ∧ c.outputUnits ≤ MARKET_QUANTITY_MAX ∧
    ¬(c.refundUnits = 0 ∧ c.outputUnits = 0) ∧ c.feeCredit ≤ MARKET_REQUEST_FEE_CREDIT) .quantity
  let _ ← c.noidValue
  return ()

lemma noidValue_eq_ok {c : SwapClaim} {n : ℕ} :
    c.noidValue = .ok n ↔ (c.feeCredit + if c.inputAsset = NOID_ASSET then c.refundUnits
      else if c.outputAsset = NOID_ASSET then c.outputUnits else 0) < U64 ∧
      (c.feeCredit + if c.inputAsset = NOID_ASSET then c.refundUnits
      else if c.outputAsset = NOID_ASSET then c.outputUnits else 0) = n := by
  rw [noidValue, checked_eq_ok]

lemma validate_eq_ok {c : SwapClaim} {u : Unit} :
    c.validate = .ok u ↔ (c.request ≠ 0 ∧ c.inputAsset ≠ c.outputAsset) ∧ c.refundOwner ≠ 0 ∧ c.recipient ≠ 0 ∧
      (c.refundUnits ≤ MARKET_QUANTITY_MAX ∧ c.outputUnits ≤ MARKET_QUANTITY_MAX ∧
        ¬(c.refundUnits = 0 ∧ c.outputUnits = 0) ∧ c.feeCredit ≤ MARKET_REQUEST_FEE_CREDIT) ∧
      ∃ n, c.noidValue = .ok n := by
  simp only [validate, Tx.owner, ok_rules, and_true]

end SwapClaim

/-- A pool of NOID against an asset whose shares are all locked. -/
def permanentPool (base quote generation : ℕ) : PoolState :=
  { pool := 1, baseReserve := base, quoteReserve := quote, totalShares := 10 ^ 6, lockedShares := 10 ^ 6
    queueRoot := 0, generation := generation, registeredHeight := 0, timeoutHeight := 0, requestCount := 0
    phase := .idle, baseIsNoid := true }

/-! ### Queues -/

/-- The commitment to a round and the keys of its requests in strictly increasing order. -/
def committedQueueRoot (round : Digest) (keys : List Digest) : Except MarketError Digest := do
  require (round ≠ 0) .identifier
  require (keys ≠ [] ∧ keys.length ≤ MAX_ROUND_REQUESTS) .capacity
  require (keys.IsChain (· < ·)) .duplicate
  return H.queueRoot round keys

end

end Noid.Tx
