import Noid.Lib.SortedMap
import Noid.Tx.Sequential
import Noid.Tx.Financial
import Mathlib.Data.Prod.Lex

/-! # Trade intents, batches and their sequencing

An owner authorises a trade policy over a list of funding claims.  A batch is a market parent with intents in the order of
their authorisations; they run in the order of their funding priority, but buys first while the price is at most the
initial one and sells first while it is above. -/

namespace Noid.Tx

open Noid.Lib List

inductive TradeError where
  | encoding | version | bounds | context | policy | funding | expiry | minimum | fee | arithmetic
deriving DecidableEq, Repr

/-- What an owner has authorised. -/
structure TradePolicy where
  chain : Digest
  epochAnchor : Digest
  owner : Address
  asset : AssetId
  recipient : Address
  side : LaunchSide
  grossInput : ℕ
  minimumOutput : ℕ
  feeLimit : ℕ
  validFrom : ℕ
  validUntil : ℕ
deriving DecidableEq, Repr

/-- The hash functions of trades. -/
structure TradeHash where
  policy : TradePolicy → Address
  /-- Policy root and, for each funding claim, its input and root. -/
  intent : Address → List (TxInput × Address) → Digest
  /-- Parent, asset, and the creation id and slot of the principal input. -/
  order : Digest → AssetId → ℕ → ℕ → Digest
  /-- Parent root, creation id, slot, asset, whether it is a curve, and the authorisations. -/
  batch : Address → ℕ → ℕ → AssetId → Bool → List Digest → Address

namespace TradePolicy

def validate (p : TradePolicy) : Except TradeError Unit :=
  require (p.chain ≠ 0 ∧ p.epochAnchor ≠ 0 ∧ p.owner ≠ 0 ∧ p.asset ≠ NOID_ASSET ∧ p.recipient ≠ 0 ∧
    (∀ n ∈ [p.grossInput, p.minimumOutput, p.feeLimit], n ≠ 0 ∧ n ≤ MARKET_QUANTITY_MAX) ∧
    p.validFrom ≤ p.validUntil) .policy

def checkContext (p : TradePolicy) (chain epochAnchor : Digest) (height : ℕ) : Except TradeError Unit := do
  p.validate
  require (p.chain = chain ∧ p.epochAnchor = epochAnchor) .context
  require (p.validFrom ≤ height ∧ height ≤ p.validUntil) .expiry

def root (T : TradeHash) (p : TradePolicy) : Except TradeError Address := do
  p.validate
  return T.policy p

end TradePolicy

structure FundingTotals where
  noid : ℕ
  tokens : ℕ
deriving DecidableEq, Repr

/-- A policy with the claims that fund it. -/
structure TradeIntent where
  policy : TradePolicy
  funding : List NativeInputClaim
deriving DecidableEq, Repr

structure FundingPriority where
  digest : Digest
  creationId : ℕ
  slotIndex : ℕ
deriving DecidableEq, Repr

/-- Priorities are compared field by field. -/
def FundingPriority.key (p : FundingPriority) : Digest ×ₗ ℕ ×ₗ ℕ :=
  toLex (p.digest, toLex (p.creationId, p.slotIndex))

structure TradePayout where
  asset : AssetId
  owner : Address
  units : ℕ
deriving DecidableEq, Repr

/-- The block in which a batch executes. -/
structure TradeBoundary where
  chain : Digest
  epochAnchor : Digest
  parentId : Digest
  height : ℕ
deriving DecidableEq, Repr

section
variable (H : NativeHash) (T : TradeHash)

namespace TradeIntent

/-- The tokens of one funding claim: an unlocked balance of the owner, or ordinary NOID. -/
def fundingTokens (p : TradePolicy) (height : Option ℕ) (c : NativeInputClaim) : Except TradeError ℕ :=
  match c.opening with
  | some (.tokenBalance b) => do
    ((NativeOpening.tokenBalance b).checkInputBinding H c.input c.root).mapError fun _ => TradeError.funding
    require (p.side = .sell ∧ b.asset = p.asset ∧ b.owner = p.owner ∧ ∀ h ∈ height, b.unlockHeight ≤ h)
      .funding
    return b.units
  | some _ => .error .funding
  | none => do
    require (OrdinaryIncarnation c.input.creationId ∧ c.input.amount ≠ 0 ∧ c.root = p.owner) .funding
    return 0

/-- The loop over the funding claims: slots ascend, and the totals add up. -/
def fundingTotals (p : TradePolicy) (height : Option ℕ) :
    Option ℕ → FundingTotals → List NativeInputClaim → Except TradeError FundingTotals
  | _, totals, [] => .ok totals
  | previous, totals, c :: rest => do
    require (∀ slot ∈ previous, slot < c.input.slotIndex) .funding
    let tokens ← fundingTokens H p height c
    fundingTotals p height (some c.input.slotIndex)
      ⟨totals.noid + c.input.amount, totals.tokens + tokens⟩ rest

def validateFunding (i : TradeIntent) (height : Option ℕ) : Except TradeError FundingTotals := do
  i.policy.validate
  require (i.funding ≠ [] ∧ i.funding.length ≤ MAX_PAGED_SPEND_INPUTS) .bounds
  let totals ← fundingTotals H i.policy height none ⟨0, 0⟩ i.funding
  let principal := if i.policy.side = .buy then i.policy.grossInput else 0
  require (principal + i.policy.feeLimit ≤ totals.noid ∧
    ¬(i.policy.side = .sell ∧ totals.tokens < i.policy.grossInput)) .funding
  return totals

def validateStructure (i : TradeIntent) : Except TradeError FundingTotals := i.validateFunding H none

def checked (i : TradeIntent) (chain epochAnchor : Digest) (height : ℕ) :
    Except TradeError FundingTotals := do
  i.policy.checkContext chain epochAnchor height
  i.validateFunding H (some height)

def authorizationId (i : TradeIntent) : Except TradeError Digest := do
  let _ ← i.validateStructure H
  let root ← i.policy.root T
  return T.intent root (i.funding.map fun c => (c.input, c.root))

/-- The principal of a funding claim: NOID for a buy, tokens for a sell. -/
def principalUnits (side : LaunchSide) (c : NativeInputClaim) : Option ℕ :=
  match side, c.opening with
  | .buy, none => some c.input.amount
  | .sell, some (.tokenBalance b) => some b.units
  | _, _ => none

/-- Larger principals come first, then older ones, then lower slots. -/
def anchorKey (side : LaunchSide) (c : NativeInputClaim) : ℕᵒᵈ ×ₗ ℕ ×ₗ ℕ :=
  toLex (OrderDual.toDual ((principalUnits side c).getD 0), toLex (c.input.creationId, c.input.slotIndex))

/-- Priority uses an immutable principal input and the admitting parent. -/
def fundingPriority (i : TradeIntent) (parentId : Digest) : Except TradeError FundingPriority := do
  let _ ← i.validateStructure H
  require (parentId ≠ 0) .context
  let principals := i.funding.filter fun c => (principalUnits i.policy.side c).isSome
  let anchor ← orElseThrow .funding (principals.argmin (anchorKey i.policy.side))
  return { digest := T.order parentId i.policy.asset anchor.input.creationId anchor.input.slotIndex
           creationId := anchor.input.creationId, slotIndex := anchor.input.slotIndex }

/-- Add the nonzero entries of a list to a map. -/
def collect (entries : List (AssetId × Address × ℕ)) : SortedMap (AssetId ×ₗ Address) ℕ :=
  entries.foldl
    (fun values e => if e.2.2 = 0 then values else values.bump (toLex (e.1, e.2.1)) e.2.2) .empty

/-- What a filled intent pays to whom. -/
def payouts (i : TradeIntent) (boundary : TradeBoundary) (spentInput output protocolFee : ℕ) :
    Except TradeError (List TradePayout) := do
  let totals ← i.checked H boundary.chain boundary.epochAnchor boundary.height
  require (output ≤ MARKET_QUANTITY_MAX) .bounds
  require (spentInput ≤ i.policy.grossInput ∧ i.policy.minimumOutput ≤ output) .minimum
  require (protocolFee ≤ i.policy.feeLimit) .fee
  let (noidSpent, tokenSpent, outputAsset) := match i.policy.side with
    | .buy => (spentInput, 0, i.policy.asset)
    | .sell => (0, spentInput, NOID_ASSET)
  let refundNoid ← checkedSub .arithmetic totals.noid (noidSpent + protocolFee)
  let refundTokens ← checkedSub .arithmetic totals.tokens tokenSpent
  let values := collect [(NOID_ASSET, i.policy.owner, refundNoid),
    (i.policy.asset, i.policy.owner, refundTokens), (outputAsset, i.policy.recipient, output)]
  values.entries.mapM fun e => do
    let units ← Lib.checked .arithmetic e.2
    return { asset := (ofLex e.1).1, owner := (ofLex e.1).2, units := units }

end TradeIntent

/-! ### The engine -/

/-- The venue before a batch. -/
inductive MarketStart where
  | curve (definition : LaunchDefinition) (state : LaunchState)
  | market (definition : MarketDefinition) (state : PoolState)
deriving DecidableEq, Repr

inductive SequencingError where
  | bounds | asset | duplicateFunding
  | policy (e : TradeError)
  | market (e : MarketError)
  | launch (e : LaunchTradeError)
deriving DecidableEq, Repr

/-- A failure that leaves a trade unfilled instead of rejecting the set. -/
def declinable : SequencingError → Bool
  | .market .minimum | .market .quantity | .market .capacity => true
  | .launch .minimum => true
  | .launch (.market .minimum) | .launch (.market .quantity) | .launch (.market .capacity) => true
  | .launch (.launch .quantity) | .launch (.launch .capacity) => true
  | _ => false

structure TradeOutcome where
  side : LaunchSide
  grossInput : ℕ
  spentInput : ℕ
  output : ℕ
  marketFee : ℕ
  curveSpent : ℕ
  curveOutput : ℕ
  after : TradeState
deriving DecidableEq, Repr

structure Price where
  numerator : ℕ
  denominator : ℕ
deriving DecidableEq, Repr

def Price.atMost (p q : Price) : Bool := p.numerator * q.denominator ≤ q.numerator * p.denominator

/-- The venue while a batch is filled. -/
inductive Engine where
  | curve (definition : LaunchDefinition) (group : SequentialLaunch)
  | market (definition : MarketDefinition) (group : SequentialMarket)
deriving DecidableEq, Repr

namespace Engine

def new : MarketStart → Except SequencingError Engine
  | .curve d s => do
    let group ← (SequentialLaunch.new H d s).mapError .launch
    return .curve d group
  | .market d p => do
    let group ← (SequentialMarket.new H d p).mapError .market
    return .market d group

def asset : Engine → AssetId
  | .curve d _ => d.asset
  | .market d _ => d.quote

def poolPrice (p : PoolState) : Price := ⟨p.baseReserve, p.quoteReserve⟩

def price : Engine → Except SequencingError Price
  | .curve d g =>
    match g.current with
    | .curve s => do
      let price ← (d.marginalPrice (d.initialSupply - s.inventoryUnits)).mapError
        fun e => SequencingError.launch (.launch e)
      return ⟨price.numerator, price.denominator⟩
    | .market p => .ok (poolPrice p)
  | .market _ g => .ok (poolPrice g.current)

def apply (side : LaunchSide) (grossInput minimumOutput : ℕ) :
    Engine → Except SequencingError (TradeOutcome × Engine)
  | .curve d g => do
    let (q, g) ← (g.apply H side grossInput minimumOutput).mapError .launch
    return ({ side := side, grossInput := grossInput, spentInput := q.spentInput, output := q.output
              marketFee := q.marketFee, curveSpent := q.curveSpent, curveOutput := q.curveOutput
              after := q.after }, .curve d g)
  | .market d g => do
    let inputAsset := match side with
      | .buy => NOID_ASSET
      | .sell => d.quote
    let (q, g) ← (g.apply H inputAsset grossInput minimumOutput).mapError .market
    return ({ side := side, grossInput := grossInput, spentInput := q.grossInput, output := q.output
              marketFee := q.fee, curveSpent := 0, curveOutput := 0, after := .market q.after }, .market d g)

def finish : Engine → Except SequencingError TradeState
  | .curve _ g => do
    let e ← (g.finish H).mapError .launch
    return e.after
  | .market _ g => do
    let e ← (g.finish H).mapError .market
    return .market e.after

end Engine

/-! ### Sequencing -/

structure SequencedFill where
  sourceIndex : ℕ
  authorizationId : Digest
  outcome : TradeOutcome
deriving DecidableEq, Repr

structure SequencingPlan where
  fills : List SequencedFill
  unfilled : List ℕ
  after : Option TradeState
deriving DecidableEq, Repr

/-- An admitted intent: its index in the set and its priority. -/
structure QueuedIntent where
  index : ℕ
  intent : TradeIntent
  priority : FundingPriority
deriving DecidableEq, Repr

namespace SequencingPlan

/-- The admission loop: every intent is valid at the boundary and no funding slot repeats. -/
def admitAll (boundary : TradeBoundary) (asset : AssetId) :
    ℕ → List ℕ → List TradeIntent → Except SequencingError (List QueuedIntent)
  | _, _, [] => .ok []
  | index, slots, i :: rest => do
    let _ ← (i.checked H boundary.chain boundary.epochAnchor boundary.height).mapError .policy
    require (i.policy.asset = asset) .asset
    let slots ← eachFresh (·.input.slotIndex) .duplicateFunding (fun _ => .ok ()) (fun _ => .ok ())
      slots i.funding
    let priority ← (i.fundingPriority H T boundary.parentId).mapError .policy
    let queued ← admitAll boundary asset (index + 1) slots rest
    return ⟨index, i, priority⟩ :: queued

/-- The first intent on the preferred side, or the first of all, and the others. -/
def pick (preferred : LaunchSide) (remaining : List QueuedIntent) : Option (QueuedIntent × List QueuedIntent) :=
  let position := (remaining.findIdx? (·.intent.policy.side = preferred)).getD 0
  remaining[position]?.map fun q => (q, remaining.eraseIdx position)

/-- The execution loop; each turn takes one intent, so the length of the queue bounds it. -/
def run (initial : Price) : ℕ → Engine → List QueuedIntent → List SequencedFill → List ℕ →
    Except SequencingError (Engine × List SequencedFill × List ℕ)
  | 0, engine, _, fills, unfilled => .ok (engine, fills, unfilled)
  | fuel + 1, engine, remaining, fills, unfilled =>
    if remaining = [] then .ok (engine, fills, unfilled)
    else do
      let current ← engine.price
      match pick (if current.atMost initial then .buy else .sell) remaining with
      | none => .ok (engine, fills, unfilled)
      | some (q, rest) =>
        let p := q.intent.policy
        match engine.apply H p.side p.grossInput p.minimumOutput with
        | .ok (outcome, engine) => do
          let id ← (q.intent.authorizationId H T).mapError .policy
          run initial fuel engine rest (fills ++ [⟨q.index, id, outcome⟩]) unfilled
        | .error e =>
          if declinable e then run initial fuel engine rest fills (unfilled ++ [q.index])
          else .error e

/-- Execute a trade set on a market. -/
def execute (start : MarketStart) (boundary : TradeBoundary) (intents : List TradeIntent) :
    Except SequencingError SequencingPlan := do
  require (intents ≠ [] ∧ intents.length ≤ MAX_SEQUENTIAL_TRADES) .bounds
  let engine ← Engine.new H start
  let initial ← engine.price
  let queued ← admitAll H T boundary engine.asset 0 [] intents
  let remaining := queued.insertionSort fun a b => a.priority.key ≤ b.priority.key
  let (engine, fills, unfilled) ← run H T initial remaining.length engine remaining [] []
  if fills = [] then return ⟨fills, unfilled, none⟩
  else
    let after ← engine.finish H
    return ⟨fills, unfilled, some after⟩

end SequencingPlan

/-! ### Batches -/

inductive BatchError where
  | encoding | bounds | parent
  | policy (e : TradeError)
  | sequence | unfilled
deriving DecidableEq, Repr

structure TradeParent where
  slotIndex : ℕ
  creationId : ℕ
  market : MarketStart
deriving DecidableEq, Repr

namespace TradeParent

def asset (p : TradeParent) : AssetId :=
  match p.market with
  | .curve d _ => d.asset
  | .market d _ => d.quote

def definition (p : TradeParent) : NativeOpening :=
  match p.market with
  | .curve d _ => .launch (.definition d)
  | .market d _ => .market (.definition d)

def opening (p : TradeParent) : NativeOpening :=
  match p.market with
  | .curve _ s => .launch (.state s)
  | .market _ s => .market (.pool s)

def claim (p : TradeParent) : Except BatchError NativeInputClaim := do
  let _ ← (Engine.new H p.market).mapError fun _ => BatchError.parent
  let c : NativeInputClaim :=
    { input := { slotIndex := p.slotIndex, amount := p.opening.amountMicronoid, creationId := p.creationId }
      root := H.root p.opening, opening := some p.opening }
  (p.opening.checkInputBinding H c.input c.root).mapError fun _ => BatchError.parent
  return c

end TradeParent

/-- Intents under the parent that they trade with. -/
structure TradeBatch where
  parent : TradeParent
  policies : List TradeIntent
deriving DecidableEq, Repr

namespace TradeBatch

/-- The loop over the intents: authorisations ascend and no slot is named twice. -/
def checkPolicies (asset : AssetId) : List ℕ → Option Digest → List TradeIntent → Except BatchError (List ℕ)
  | slots, _, [] => .ok slots
  | slots, previous, i :: rest => do
    require (i.policy.asset = asset) .parent
    let key ← (i.authorizationId H T).mapError .policy
    require (∀ old ∈ previous, old < key) .encoding
    let slots ← eachFresh (·.input.slotIndex) (.policy .funding) (fun _ => .ok ()) (fun _ => .ok ())
      slots i.funding
    checkPolicies asset slots (some key) rest

def validateStructure (b : TradeBatch) : Except BatchError Unit := do
  let _ ← b.parent.claim H
  require (b.policies ≠ [] ∧ b.policies.length ≤ MAX_SEQUENTIAL_TRADES) .bounds
  let slots ← checkPolicies H T b.parent.asset [b.parent.slotIndex] none b.policies
  require (slots.length ≤ MAX_PAGED_SPEND_INPUTS) .bounds

def keyed (i : TradeIntent) : Except TradeError (Digest × TradeIntent) := do
  let key ← i.authorizationId H T
  return (key, i)

/-- A batch holds its intents in the order of their authorisations. -/
def new (parent : TradeParent) (policies : List TradeIntent) : Except BatchError TradeBatch := do
  require (policies ≠ [] ∧ policies.length ≤ MAX_SEQUENTIAL_TRADES) .bounds
  let entries ← (policies.mapM (keyed H T)).mapError .policy
  let batch : TradeBatch := ⟨parent, (entries.insertionSort fun a b => a.1 ≤ b.1).map Prod.snd⟩
  batch.validateStructure H T
  return batch

/-- The plan of a batch that fills all its intents. -/
def checked (b : TradeBatch) (boundary : TradeBoundary) : Except BatchError SequencingPlan := do
  b.validateStructure H T
  let plan ← (SequencingPlan.execute H T b.parent.market boundary b.policies).mapError
    fun _ => BatchError.sequence
  require (plan.unfilled = [] ∧ plan.fills.length = b.policies.length) .unfilled
  return plan

/-- Whether the parent is a curve. -/
def isCurve : MarketStart → Bool
  | .curve _ _ => true
  | .market _ _ => false

def root (b : TradeBatch) : Except BatchError Address := do
  b.validateStructure H T
  let ids ← (b.policies.mapM (TradeIntent.authorizationId H T)).mapError .policy
  return T.batch (H.root b.parent.opening) b.parent.creationId b.parent.slotIndex b.parent.asset
    (isCurve b.parent.market) ids

def inputs (b : TradeBatch) : Except BatchError (List NativeInputClaim) := do
  b.validateStructure H T
  let parent ← b.parent.claim H
  return parent :: b.policies.flatMap (·.funding)

end TradeBatch

/-! ### What a plan guarantees -/

variable {H T}

/-- A market whose state passed the check against its definition. -/
def MarketStart.Opened (H : NativeHash) : MarketStart → Prop
  | .curve d s => s.checkDefinition H d = .ok ()
  | .market d p => p.checkDefinition H d = .ok () ∧ d.baseIsNoid = true

/-- A control that passed the check against the definition of a market or of its graduation. -/
def MarketStart.Closes (H : NativeHash) (t : TradeState) : MarketStart → Prop
  | .curve d _ => t.Checked H d
  | .market d _ => ∃ p, t = .market p ∧ p.checkDefinition H d = .ok ()

/-- An engine opened on a market. -/
def Engine.Fits (start : MarketStart) : Engine → Prop
  | .curve d g => g.definition = d ∧ ∃ s, start = .curve d s
  | .market d g => g.definition = d ∧ ∃ p, start = .market d p

namespace Engine

variable {start : MarketStart} {engine engine' : Engine}

lemma new_eq_ok (h : new H start = .ok engine) : engine.Fits start ∧ start.Opened H := by
  cases start with
  | curve d s =>
    simp only [new, ok_rules] at h
    obtain ⟨g, hg, rfl⟩ := h
    obtain ⟨hd, hid⟩ := SequentialLaunch.new_eq_ok hg
    exact ⟨⟨hd, s, rfl⟩, hid⟩
  | market d p =>
    simp only [new, ok_rules] at h
    obtain ⟨g, hg, rfl⟩ := h
    obtain ⟨hd, hid⟩ := SequentialMarket.new_eq_ok hg
    exact ⟨⟨hd, p, rfl⟩, hid⟩

lemma apply_fits {side : LaunchSide} {gross minimum : ℕ} {outcome : TradeOutcome}
    (hfits : engine.Fits start) (h : engine.apply H side gross minimum = .ok (outcome, engine')) :
    engine'.Fits start := by
  cases engine with
  | curve d g =>
    simp only [apply, ok_rules, Prod.exists, Prod.mk.injEq] at h
    obtain ⟨q, g', hg, -, rfl⟩ := h
    exact ⟨(SequentialLaunch.apply_definition hg).trans hfits.1, hfits.2⟩
  | market d g =>
    simp only [apply, ok_rules, Prod.exists, Prod.mk.injEq] at h
    obtain ⟨q, g', hg, -, rfl⟩ := h
    exact ⟨(SequentialMarket.apply_definition hg).trans hfits.1, hfits.2⟩

lemma finish_closes {t : TradeState} (hfits : engine.Fits start) (h : engine.finish H = .ok t) :
    start.Closes H t := by
  cases engine with
  | curve d g =>
    simp only [finish, ok_rules] at h
    obtain ⟨e, he, rfl⟩ := h
    obtain ⟨rfl, s, rfl⟩ := hfits
    exact SequentialLaunch.finish_eq_ok he
  | market d g =>
    simp only [finish, ok_rules] at h
    obtain ⟨e, he, rfl⟩ := h
    obtain ⟨rfl, p, rfl⟩ := hfits
    exact ⟨e.after, rfl, SequentialMarket.finish_eq_ok he⟩

end Engine

namespace SequencingPlan

variable {start : MarketStart}

lemma run_fits {initial : Price} :
    ∀ {fuel : ℕ} {engine engine' : Engine} {remaining : List QueuedIntent}
      {fills fills' : List SequencedFill} {unfilled unfilled' : List ℕ}, engine.Fits start →
      run H T initial fuel engine remaining fills unfilled = .ok (engine', fills', unfilled') →
      engine'.Fits start := by
  intro fuel
  induction fuel with
  | zero =>
    intro engine engine' remaining fills fills' unfilled unfilled' hfits h
    obtain ⟨rfl, -, -⟩ := h
    exact hfits
  | succ fuel ih =>
    intro engine engine' remaining fills fills' unfilled unfilled' hfits h
    unfold run at h
    split_ifs at h with hnil
    · simp only [Except.ok.injEq, Prod.mk.injEq] at h
      obtain ⟨rfl, -, -⟩ := h
      exact hfits
    · simp only [bind_eq_ok] at h
      obtain ⟨current, -, h⟩ := h
      split at h
      · simp only [Except.ok.injEq, Prod.mk.injEq] at h
        obtain ⟨rfl, -, -⟩ := h
        exact hfits
      · split at h
        -- a filled trade moves the engine, a declined one leaves it
        · rename_i happly
          simp only [bind_eq_ok] at h
          obtain ⟨id, -, h⟩ := h
          exact ih (Engine.apply_fits hfits happly) h
        · split_ifs at h with hdecline
          exact ih hfits h

/-- **A plan ends with a control of the asset it started with.** -/
theorem execute_closes {boundary : TradeBoundary} {intents : List TradeIntent} {plan : SequencingPlan}
    {t : TradeState} (h : execute H T start boundary intents = .ok plan) (ht : plan.after = some t) :
    start.Closes H t := by
  simp only [execute, ok_rules, Prod.exists] at h
  obtain ⟨-, engine, hnew, initial, -, queued, -, engine', fills, unfilled, hrun, h⟩ := h
  have hfits := run_fits (Engine.new_eq_ok hnew).1 hrun
  split_ifs at h with hfills
  · simp only [pure_eq_ok] at h
    subst h
    cases ht
  · simp only [ok_rules] at h
    obtain ⟨after, hafter, rfl⟩ := h
    cases ht
    exact Engine.finish_closes hfits hafter

end SequencingPlan

/-! ### What the claims of a batch are -/

/-- A claim that funds trades of an asset: bound NOID, or a bound balance of the asset. -/
def FundsAsset (H : NativeHash) (asset : AssetId) (c : NativeInputClaim) : Prop :=
  InputClaimOk H c ∧ ∀ o, c.opening = some o → ∃ b : TokenBalance, o = .tokenBalance b ∧ b.asset = asset

def NativeInputClaim.tokenUnits (c : NativeInputClaim) : ℕ :=
  match c.opening with
  | some (.tokenBalance b) => b.units
  | _ => 0

namespace TradeIntent

/-- A claim that funds a policy: its owner's NOID, or for a sell an unlocked balance. -/
@[mk_iff]
structure Funds (H : NativeHash) (p : TradePolicy) (height : Option ℕ) (c : NativeInputClaim) : Prop where
  asset : FundsAsset H p.asset c
  ordinary : c.opening = none → c.input.amount ≠ 0 ∧ c.root = p.owner
  balance : ∀ b, c.opening = some (.tokenBalance b) →
    p.side = .sell ∧ b.owner = p.owner ∧ ∀ h ∈ height, b.unlockHeight ≤ h

variable {p : TradePolicy} {height : Option ℕ}

lemma fundingTokens_eq_ok {c : NativeInputClaim} {n : ℕ} :
    fundingTokens H p height c = .ok n ↔ Funds H p height c ∧ c.tokenUnits = n := by
  unfold fundingTokens NativeInputClaim.tokenUnits
  split
  all_goals
    rename_i hb
    simp only [funds_iff, FundsAsset, InputClaimOk, hb, ok_rules]
    simp
  all_goals tauto

/-- **The loop over the funding**: all claims fund the policy, in the order of their slots. -/
theorem fundingTotals_eq_ok {l : List NativeInputClaim} {previous : Option ℕ} {totals r : FundingTotals} :
    fundingTotals H p height previous totals l = .ok r ↔ (∀ c ∈ l, Funds H p height c) ∧
      (previous.toList ++ l.map (·.input.slotIndex)).IsChain (· < ·) ∧
      r = ⟨totals.noid + noidIn l, totals.tokens + (l.map (·.tokenUnits)).sum⟩ := by
  induction l generalizing previous totals with
  | nil => cases previous <;> simp [fundingTotals, noidIn, eq_comm]
  | cons c l ih =>
    simp only [fundingTotals, ok_rules, fundingTokens_eq_ok, ih, forall_mem_cons, noidIn, map_cons, sum_cons,
      ← Nat.add_assoc, and_assoc, existsAndEq]
    cases previous <;> simp
    all_goals tauto

lemma authorizationId_root {i : TradeIntent} {id : Digest} (h : i.authorizationId H T = .ok id) :
    ∀ c ∈ i.funding, c.opening = none → c.root ≠ 0 := by
  simp only [authorizationId, validateStructure, validateFunding, TradePolicy.validate, ok_rules] at h
  obtain ⟨totals, ⟨⟨-, -, howner, -⟩, -, sums, hsums, -⟩, -⟩ := h
  intro c hc hnone
  rw [(((fundingTotals_eq_ok.mp hsums).1 c hc).ordinary hnone).2]
  exact howner

lemma authorizationId_eq_ok {i : TradeIntent} {id : Digest} (h : i.authorizationId H T = .ok id) :
    ∀ c ∈ i.funding, FundsAsset H i.policy.asset c := by
  simp only [authorizationId, validateStructure, validateFunding, ok_rules] at h
  obtain ⟨totals, ⟨-, -, -, sums, hsums, -⟩, -⟩ := h
  exact fun c hc => ((fundingTotals_eq_ok.mp hsums).1 c hc).asset

end TradeIntent

lemma TradeParent.claim_eq_ok {p : TradeParent} {c : NativeInputClaim} (h : p.claim H = .ok c) :
    (∃ engine, Engine.new H p.market = .ok engine) ∧ InputClaimOk H c ∧ c.opening = some p.opening ∧
      c.input.slotIndex = p.slotIndex := by
  simp only [TradeParent.claim, ok_rules] at h
  obtain ⟨engine, hengine, ⟨⟩, hbind, rfl⟩ := h
  exact ⟨⟨engine, hengine⟩, hbind, rfl, rfl⟩

namespace TradeBatch

/-- **The loop over the intents**: authorisations ascend, and funding slots are new. -/
theorem checkPolicies_eq_ok {asset : AssetId} {l : List TradeIntent} {slots r : List ℕ} {previous : Option Digest}
    (h : checkPolicies H T asset slots previous l = .ok r) :
    (∃ ids, l.mapM (TradeIntent.authorizationId H T) = .ok ids ∧ (previous.toList ++ ids).IsChain (· < ·)) ∧
      (∀ i ∈ l, i.policy.asset = asset ∧ ∃ id, i.authorizationId H T = .ok id) ∧
      r = ((l.flatMap (·.funding)).map (·.input.slotIndex)).reverse ++ slots ∧ (slots.Nodup → r.Nodup) := by
  induction l generalizing slots previous with
  | nil =>
    obtain rfl := Except.ok.inj h
    exact ⟨⟨[], rfl, by cases previous <;> simp⟩, by simp, rfl, id⟩
  | cons i l ih =>
    simp only [checkPolicies, ok_rules, eachFresh_eq_ok] at h
    obtain ⟨hasset, key, hkey, hprevious, slots', ⟨hnd, hfresh, -, rfl⟩, hrest⟩ := h
    obtain ⟨⟨ids, hids, hchain⟩, hall, rfl, hnodup⟩ := ih hrest
    refine ⟨⟨key :: ids, ?_, ?_⟩, forall_mem_cons.mpr ⟨⟨hasset, key, hkey⟩, hall⟩, by simp, fun hslots => hnodup ?_⟩
    · rw [mapM_cons, bind_of_ok hkey, bind_of_ok hids]
      rfl
    · cases previous with
      | none => exact hchain
      | some old => exact isChain_cons_cons.mpr ⟨hprevious old rfl, hchain⟩
    · refine nodup_append'.mpr ⟨nodup_reverse.mpr hnd, hslots, ?_⟩
      simpa [disjoint_left] using hfresh

lemma funding_ok {asset : AssetId} {l : List TradeIntent}
    (h : ∀ i ∈ l, i.policy.asset = asset ∧ ∃ id, i.authorizationId H T = .ok id) :
    ∀ c ∈ l.flatMap (·.funding), FundsAsset H asset c ∧ (c.opening = none → c.root ≠ 0) := by
  intro c hc
  obtain ⟨i, hi, hc⟩ := mem_flatMap.mp hc
  obtain ⟨rfl, id, hid⟩ := h i hi
  exact ⟨TradeIntent.authorizationId_eq_ok hid c hc, TradeIntent.authorizationId_root hid c hc⟩

/-- The claims of a batch fit a group, and ordinary ones have an owner. -/
theorem inputs_bounds {b : TradeBatch} {claims : List NativeInputClaim} (h : b.inputs H T = .ok claims) :
    claims.length ≤ MAX_PAGED_SPEND_INPUTS ∧ ∀ c ∈ claims, c.opening = none → c.root ≠ 0 := by
  simp only [inputs, validateStructure, bind_eq_ok, require_eq_ok, pure_eq_ok] at h
  obtain ⟨-, ⟨-, -, -, -, slots, hslots, hle⟩, parent, hparent, rfl⟩ := h
  obtain ⟨-, hall, rfl, -⟩ := checkPolicies_eq_ok hslots
  obtain ⟨-, -, hopening, -⟩ := TradeParent.claim_eq_ok hparent
  refine ⟨by simpa using hle, forall_mem_cons.mpr ⟨fun hnone => ?_, fun c hc => (funding_ok hall c hc).2⟩⟩
  rw [hopening] at hnone
  cases hnone

lemma inputs_eq_ok {b : TradeBatch} {claims : List NativeInputClaim} (h : b.inputs H T = .ok claims) :
    (∃ engine, Engine.new H b.parent.market = .ok engine) ∧ (claims.map (·.input.slotIndex)).Nodup ∧
      ∃ parent funding, claims = parent :: funding ∧ InputClaimOk H parent ∧
        parent.opening = some b.parent.opening ∧ ∀ c ∈ funding, FundsAsset H b.parent.asset c := by
  simp only [inputs, validateStructure, bind_eq_ok, require_eq_ok, pure_eq_ok] at h
  obtain ⟨-, ⟨-, -, -, -, slots, hslots, -⟩, parent, hparent, rfl⟩ := h
  obtain ⟨-, hall, rfl, hnodup⟩ := checkPolicies_eq_ok hslots
  obtain ⟨hengine, hbind, hopening, hslot⟩ := TradeParent.claim_eq_ok hparent
  refine ⟨hengine, nodup_reverse.mp ?_, _, _, rfl, hbind, hopening, fun c hc => (funding_ok hall c hc).1⟩
  simpa [hslot] using hnodup (nodup_singleton _)

lemma mapM_keyed {l : List TradeIntent} {entries : List (Digest × TradeIntent)}
    (h : l.mapM (keyed H T) = .ok entries) :
    entries.map Prod.snd = l ∧ ∀ e ∈ entries, e.2.authorizationId H T = .ok e.1 := by
  have hall := mapM_eq_ok.mp h
  clear h
  induction hall with
  | nil => exact ⟨rfl, fun _ he => by cases he⟩
  | cons hab _ ih =>
    simp only [keyed, ok_rules] at hab
    obtain ⟨key, hkey, rfl⟩ := hab
    exact ⟨by rw [map_cons, ih.1], forall_mem_cons.mpr ⟨hkey, ih.2⟩⟩

lemma new_eq_ok {parent : TradeParent} {policies : List TradeIntent} {b : TradeBatch}
    (h : new H T parent policies = .ok b) :
    b.parent = parent ∧ b.policies.Perm policies ∧ b.validateStructure H T = .ok () := by
  simp only [new, ok_rules] at h
  obtain ⟨-, entries, hentries, ⟨⟩, hstructure, rfl⟩ := h
  refine ⟨rfl, ?_, hstructure⟩
  have hperm := (perm_insertionSort (fun a b : Digest × TradeIntent => a.1 ≤ b.1) entries).map Prod.snd
  rwa [(mapM_keyed hentries).1] at hperm

lemma checked_eq_ok {b : TradeBatch} {boundary : TradeBoundary} {plan : SequencingPlan}
    (h : b.checked H T boundary = .ok plan) :
    (∀ i ∈ b.policies, i.policy.asset = b.parent.asset) ∧ ∀ t, plan.after = some t → b.parent.market.Closes H t := by
  simp only [checked, validateStructure, bind_eq_ok, mapError_eq_ok, require_eq_ok, pure_eq_ok] at h
  obtain ⟨-, ⟨-, -, -, -, slots, hslots, -⟩, plan, hplan, -, -, rfl⟩ := h
  obtain ⟨-, hall, -⟩ := checkPolicies_eq_ok hslots
  exact ⟨fun i hi => (hall i hi).1, fun t ht => SequencingPlan.execute_closes hplan ht⟩

end TradeBatch

end

end Noid.Tx
