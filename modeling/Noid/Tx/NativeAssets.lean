import Noid.Tx.Launch
import Noid.Tx.NftMarket

/-! # Native openings and their slot bindings

An opening is bound to a raw claim by its root and its NOID amount; the amount lane of a slot always measures NOID, also
for token carriers. -/

namespace Noid.Tx

open Noid.Lib

inductive BackingError where
  | unsupportedPrecision | belowMinimum | emptySupplyHasReserve | noOutstandingSupply | zeroAmount
  | excessRedemption | reserveOverflow
deriving DecidableEq, Repr

inductive NativeAssetError where
  | encoding | version | kind | padding | identifier | owner | quantity | supply | provenance
  | anchor | slotBinding | timelock | definition
  | backing (e : BackingError)
  | market (e : MarketError)
  | launch (e : LaunchError)
  | nftMarket (e : NftMarketError)
deriving DecidableEq, Repr

/-! ### Backing -/

def MIN_BACKING_MICRONOID_PER_TOKEN : ℕ := 1000
def MAX_TOKEN_DECIMALS : ℕ := 18
def TOKEN_DECIMALS : ℕ := 6

structure TokenDenomination where
  decimals : ℕ
  unitsPerToken : ℕ
deriving DecidableEq, Repr

def TokenDenomination.new (decimals : ℕ) : Except BackingError TokenDenomination := do
  require (decimals ≤ MAX_TOKEN_DECIMALS) .unsupportedPrecision
  return ⟨decimals, 10 ^ decimals⟩

structure BackingState where
  denomination : TokenDenomination
  reserveMicronoid : ℕ
  supplyUnits : ℕ
  issuanceClosed : Bool
deriving DecidableEq, Repr

def BackingState.new (denomination : TokenDenomination) (reserveMicronoid supplyUnits : ℕ) :
    Except BackingError BackingState := do
  if supplyUnits = 0 then
    require (reserveMicronoid = 0) .emptySupplyHasReserve
  else
    require (MIN_BACKING_MICRONOID_PER_TOKEN * supplyUnits ≤ reserveMicronoid * denomination.unitsPerToken)
      .belowMinimum
  return ⟨denomination, reserveMicronoid, supplyUnits, supplyUnits ≠ 0⟩

section
variable (H : NativeHash)

/-! ### Validation -/

def requireIdentifier (id : Digest) : Except NativeAssetError Unit := require (id ≠ 0) .identifier

def requireOwner (owner : Address) : Except NativeAssetError Unit := require (owner ≠ 0) .owner

def FungibleDefinition.validate (d : FungibleDefinition) : Except NativeAssetError Unit := do
  requireIdentifier d.asset
  requireOwner d.issuer
  require (d.initialSupply ≠ 0) .supply
  require (d.route = .launchpad ∧ (validateSupplyUnits d.initialSupply).isOk) .supply

def FungibleDefinition.root (d : FungibleDefinition) : Address := H.root (.fungibleDefinition d)

namespace TokenReserve

def backing (r : TokenReserve) : Except NativeAssetError BackingState := do
  requireIdentifier r.asset
  require (r.initialSupply ≠ 0 ∧ r.outstandingUnits ≤ r.initialSupply) .supply
  require (r.definitionRoot ≠ 0) .definition
  let denomination ← (TokenDenomination.new TOKEN_DECIMALS).mapError .backing
  (BackingState.new denomination r.reserveMicronoid r.outstandingUnits).mapError .backing

end TokenReserve

def NftCollection.validate (c : NftCollection) : Except NativeAssetError Unit := do
  requireIdentifier c.collection
  requireOwner c.creator
  require (c.maximumItems ≠ 0 ∧ c.issuedItems ≤ c.maximumItems) .supply

namespace MarketOpening

def validate : MarketOpening → Except MarketError Unit
  | .definition d => d.validate
  | .pool p => p.validate
  | .request r => r.validate
  | .claim c => c.validate

def noidValue : MarketOpening → Except MarketError ℕ
  | .definition _ => .ok 0
  | .pool p => .ok p.noidValue
  | .request r => r.noidValue
  | .claim c => c.noidValue

end MarketOpening

namespace LaunchOpening

def validate : LaunchOpening → Except LaunchError Unit
  | .definition d => d.validate
  | .state s => s.validate
  | .request r => r.validate

def noidValue (l : LaunchOpening) : Except LaunchError ℕ := do
  l.validate
  match l with
  | .definition _ => return 0
  | .state s => return s.marketNoid
  | .request r => r.noidValue

end LaunchOpening

namespace NativeOpening

/-- The profile admits only definitions over NOID and pools of permanent liquidity. -/
def marketEnabled : MarketOpening → Prop
  | .definition d => d.baseIsNoid = true
  | .pool p => p.totalShares = p.lockedShares
  | _ => True

instance (m : MarketOpening) : Decidable (marketEnabled m) := by
  cases m <;> unfold marketEnabled <;> infer_instance

def validate : NativeOpening → Except NativeAssetError Unit
  | .fungibleDefinition d => d.validate
  | .tokenBalance b => do
    requireIdentifier b.asset
    requireOwner b.owner
    require (b.units ≠ 0) .quantity
  | .tokenReserve r => do
    let _ ← r.backing
    return ()
  | .nftCollection c => c.validate
  | .nftItem n => do
    requireIdentifier n.collection
    requireOwner n.owner
    require (n.serial ≠ 0) .quantity
  | .market m => do
    m.validate.mapError .market
    require (marketEnabled m) .kind
  | .launch l => l.validate.mapError .launch
  | .nftMarket n => n.validate.mapError .nftMarket
  | .disabled _ _ => .error .kind

/-- The NOID a carrier holds; an unreadable value saturates. -/
def amountMicronoid : NativeOpening → ℕ
  | .tokenReserve r => r.reserveMicronoid
  | .market m => m.noidValue.toOption.getD U64_MAX
  | .launch l => l.noidValue.toOption.getD U64_MAX
  | .nftMarket n => n.noidValue.toOption.getD U64_MAX
  | _ => 0

def checkInputBinding (o : NativeOpening) (input : TxInput) (inputRoot : Address) :
    Except NativeAssetError Unit := do
  o.validate
  let _ ← orElseThrow .provenance (nativeSequence input.creationId)
  require (input.amount = o.amountMicronoid ∧ inputRoot = H.root o) .slotBinding

/-- Bind an opening to the carrier it creates. -/
def checkOutput (o : NativeOpening) (output : TxOutput) : Except NativeAssetError Unit := do
  o.validate
  require (output.amount = o.amountMicronoid ∧ output.owner = H.root o) .slotBinding

variable {H} {o : NativeOpening} {input : TxInput} {inputRoot : Address} {height : ℕ} {u : Unit}

lemma checkInputBinding_eq_ok :
    o.checkInputBinding H input inputRoot = .ok u ↔
      o.validate = .ok () ∧ (∃ n, nativeSequence input.creationId = some n) ∧
        input.amount = o.amountMicronoid ∧ inputRoot = H.root o := by
  simp only [checkInputBinding, ok_rules, exists_and_right]
  constructor
  · rintro ⟨⟨⟨⟩, h1⟩, h2⟩
    exact ⟨h1, h2⟩
  · rintro ⟨h1, h2⟩
    exact ⟨⟨(), h1⟩, h2⟩

end NativeOpening

end

end Noid.Tx
