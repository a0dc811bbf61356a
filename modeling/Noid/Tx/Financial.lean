import Noid.Tx.Claims

/-! # Financial operations

The operations of the launch, pool and listing families, with the operand each one carries in its header page.  Those that
the enabled profile refuses before it looks at their claims are `FinancialOperation.disabled`. -/

namespace Noid.Tx

open Noid.Lib

inductive FinancialOperationError where
  | code | operand | parent | funding
deriving DecidableEq, Repr

/-- A live carrier of the parent state that an operation reads. -/
structure NativeParentRef where
  slotIndex : ℕ
  creationId : ℕ
  root : Address
deriving DecidableEq, Repr

namespace NativeParentRef

def validate (p : NativeParentRef) : Except FinancialOperationError Unit :=
  require (p.root ≠ 0 ∧ nativeSequence p.creationId ≠ none) .parent

end NativeParentRef

/-- The operations outside the profile. -/
inductive DisabledOperation where
  | bootstrapPool | depositLiquidity | withdrawLiquidity | burnLiquidity | transferLiquidity
  | claimLiquidity | createOffer | acceptOffer | cancelOffer | registerListings | settleListing
  | resetListing | recoverListing | refundPurchase | refundOffer
deriving DecidableEq, Repr

inductive FinancialOperation where
  | swap (parent : NativeParentRef)
  | registerPools | settlePool
  | refundMarket (definition : Address)
  | resetPool | claimSwap
  | createLaunch (fundingInput : ℕ) (definition : Address)
  | launchRequest (parent : NativeParentRef)
  | registerLaunches | settleLaunch | refundLaunch | resetLaunch
  | createListing (definition : Address)
  | purchase (parent : NativeParentRef)
  | cancelListing
  | executeTrades (commitment : Address)
  | disabled (operation : DisabledOperation)
deriving DecidableEq, Repr

def DisabledOperation.code : DisabledOperation → ℕ
  | .bootstrapPool => 32
  | .depositLiquidity => 34
  | .withdrawLiquidity => 35
  | .burnLiquidity => 36
  | .transferLiquidity => 37
  | .claimLiquidity => 42
  | .createOffer => 67
  | .acceptOffer => 68
  | .cancelOffer => 69
  | .registerListings => 70
  | .settleListing => 71
  | .resetListing => 72
  | .recoverListing => 73
  | .refundPurchase => 74
  | .refundOffer => 75

/-- The codes of the native launch, permanent-pool and fixed-price profile. -/
def enabledCodes : List ℕ :=
  [2, 3, 5, 6, 7, 8, 33, 38, 39, 40, 41, 43, 48, 49, 50, 51, 52, 53, 64, 65, 66, 80]

def operationEnabled (code : ℕ) : Bool := enabledCodes.contains code

namespace FinancialOperation

def code : FinancialOperation → ℕ
  | .swap _ => 33
  | .registerPools => 38
  | .settlePool => 39
  | .refundMarket _ => 40
  | .resetPool => 41
  | .claimSwap => 43
  | .createLaunch _ _ => 48
  | .launchRequest _ => 49
  | .registerLaunches => 50
  | .settleLaunch => 51
  | .refundLaunch => 52
  | .resetLaunch => 53
  | .createListing _ => 64
  | .purchase _ => 65
  | .cancelListing => 66
  | .executeTrades _ => 80
  | .disabled operation => operation.code

def requiresOwner : FinancialOperation → Bool
  | .swap _ => true
  | .createLaunch _ _ => true
  | .launchRequest _ => true
  | .createListing _ => true
  | .purchase _ => true
  | .cancelListing => true
  | .disabled .bootstrapPool => true
  | .disabled .depositLiquidity => true
  | .disabled .withdrawLiquidity => true
  | .disabled .burnLiquidity => true
  | .disabled .transferLiquidity => true
  | .disabled .createOffer => true
  | .disabled .acceptOffer => true
  | .disabled .cancelOffer => true
  | _ => false

def parent : FinancialOperation → Option NativeParentRef
  | .swap p => some p
  | .launchRequest p => some p
  | .purchase p => some p
  | _ => none

def definition : FinancialOperation → Option Address
  | .refundMarket d => some d
  | .createLaunch _ d => some d
  | .createListing d => some d
  | _ => none

def fundingInput : FinancialOperation → Option ℕ
  | .createLaunch i _ => some i
  | _ => none

/-- The operand of an operation without a parent: a definition and a funding index. -/
def plainOperand (op : FinancialOperation) : Except FinancialOperationError TxOutput := do
  let owner := op.definition.getD 0
  require (¬(op.definition.isSome ∧ owner = 0)) .operand
  return { slotIndex := 0, amount := op.fundingInput.getD 0, owner := owner }

/-- The canonical header operand. -/
def operand (op : FinancialOperation) : Except FinancialOperationError TxOutput := do
  require (operationEnabled op.code) .code
  match op with
  | .executeTrades commitment =>
    require (commitment ≠ 0) .operand
    return { slotIndex := 0, amount := 0, owner := commitment }
  | _ =>
    require (∀ i ∈ op.fundingInput, i < MAX_PAGED_SPEND_INPUTS) .funding
    match op.parent with
    | some p =>
      p.validate
      return { slotIndex := p.slotIndex, amount := p.creationId, owner := p.root }
    | none => op.plainOperand

/-- The operation under a code, with the fields of an operand. -/
def ofCode (code : ℕ) (operand : TxOutput) : Option FinancialOperation :=
  let parent : NativeParentRef :=
    { slotIndex := operand.slotIndex, creationId := operand.amount, root := operand.owner }
  let fundingInput := if operand.amount < 2 ^ 16 then operand.amount else 2 ^ 16 - 1
  match code with
  | 32 => some (.disabled .bootstrapPool)
  | 33 => some (.swap parent)
  | 34 => some (.disabled .depositLiquidity)
  | 35 => some (.disabled .withdrawLiquidity)
  | 36 => some (.disabled .burnLiquidity)
  | 37 => some (.disabled .transferLiquidity)
  | 38 => some .registerPools
  | 39 => some .settlePool
  | 40 => some (.refundMarket operand.owner)
  | 41 => some .resetPool
  | 42 => some (.disabled .claimLiquidity)
  | 43 => some .claimSwap
  | 48 => some (.createLaunch fundingInput operand.owner)
  | 49 => some (.launchRequest parent)
  | 50 => some .registerLaunches
  | 51 => some .settleLaunch
  | 52 => some .refundLaunch
  | 53 => some .resetLaunch
  | 64 => some (.createListing operand.owner)
  | 65 => some (.purchase parent)
  | 66 => some .cancelListing
  | 67 => some (.disabled .createOffer)
  | 68 => some (.disabled .acceptOffer)
  | 69 => some (.disabled .cancelOffer)
  | 70 => some (.disabled .registerListings)
  | 71 => some (.disabled .settleListing)
  | 72 => some (.disabled .resetListing)
  | 73 => some (.disabled .recoverListing)
  | 74 => some (.disabled .refundPurchase)
  | 75 => some (.disabled .refundOffer)
  | 80 => some (.executeTrades operand.owner)
  | _ => none

def decode (code : ℕ) (operand : TxOutput) : Except FinancialOperationError FinancialOperation := do
  let value ← orElseThrow .code (ofCode code operand)
  let canonical ← value.operand
  require (canonical = operand) .operand
  return value

def withFundingInput (fundingInput : ℕ) : FinancialOperation → Except FinancialOperationError FinancialOperation
  | .createLaunch _ definition => .ok (.createLaunch fundingInput definition)
  | _ => .error .funding

end FinancialOperation

/-! ### Native operations -/

/-- What a native group does. -/
inductive NativeOperation where
  | createToken (fundingInput : ℕ)
  | transferToken (asset : AssetId)
  | redeemToken (asset : AssetId)
  | topUpReserve (asset : AssetId)
  | createCollection (fundingInput : ℕ)
  | mintNft | transferNft | burnNft
  | financial (op : FinancialOperation)
deriving DecidableEq, Repr

namespace NativeOperation

def enabled : NativeOperation → Bool
  | .createToken _ => false
  | .topUpReserve _ => false
  | .financial op => operationEnabled op.code
  | _ => true

def requiresOwner : NativeOperation → Bool
  | .financial op => op.requiresOwner
  | _ => true

def fundingInput : NativeOperation → Option ℕ
  | .createToken i => some i
  | .createCollection i => some i
  | .financial op => op.fundingInput
  | _ => none

end NativeOperation

end Noid.Tx
