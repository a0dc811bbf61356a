import Noid.Tx.Market

/-! # Listings

A listed item is escrowed: its carrier is replaced by a `ListingState` that names the hash of a `ListingDefinition`, and
the definition holds the item's collection, serial and metadata. -/

namespace Noid.Tx

open Noid.Lib

inductive NftMarketError where
  | encoding | kind | padding | identity | height | price | incarnation | owner | definition | phase
  | queue | duplicate | funding | fee | conservation | capacity | expired
deriving DecidableEq, Repr

def NFT_FEE_CREDIT : ℕ := MARKET_REQUEST_FEE_CREDIT

section
variable (H : NativeHash)

namespace ListingDefinition

def validate (d : ListingDefinition) : Except NftMarketError Unit := do
  require (d.collection ≠ 0 ∧ d.seller ≠ 0 ∧ d.serial ≠ 0) .identity
  let _ ← orElseThrow .incarnation (nativeSequence d.sourceCreationId)
  require (d.ask ≠ 0 ∧ d.ask ≤ MARKET_QUANTITY_MAX - 2 * NFT_FEE_CREDIT ∧ d.expiryHeight ≠ 0) .price

def id (d : ListingDefinition) : ListingId := H.root (.nftMarket (.definition d))

end ListingDefinition

/-- The height at which a round registered at `height` times out. -/
def nftTimeoutHeight (height : ℕ) : Except NftMarketError ℕ := do
  require (height ≠ 0) .height
  checked .height (height + MARKET_SETTLEMENT_WINDOW)

namespace ListingState

/-- The round fields are clear while idle and set while frozen. -/
def PhaseOk (s : ListingState) : Prop :=
  match s.phase with
  | .idle => s.queueRoot = 0 ∧ s.registeredHeight = 0 ∧ s.requestCount = 0
  | .frozen =>
    s.queueRoot ≠ 0 ∧ s.registeredHeight ≠ 0 ∧ s.requestCount ≠ 0 ∧ s.requestCount ≤ MAX_ROUND_REQUESTS

instance (s : ListingState) : Decidable s.PhaseOk := by
  unfold PhaseOk
  cases s.phase <;> infer_instance

/-- A frozen listing's timeout fits a height. -/
def checkTimeout (s : ListingState) : Except NftMarketError Unit :=
  match s.phase with
  | .idle => .ok ()
  | .frozen => do
    let _ ← nftTimeoutHeight s.registeredHeight
    return ()

def validate (s : ListingState) : Except NftMarketError Unit := do
  require (s.listing ≠ 0 ∧ s.collection ≠ 0 ∧ s.serial ≠ 0) .identity
  require s.PhaseOk .phase
  s.checkTimeout

def checkDefinition (s : ListingState) (d : ListingDefinition) : Except NftMarketError Unit := do
  s.validate
  d.validate
  require (s.listing = d.id H ∧ s.collection = d.collection ∧ s.serial = d.serial ∧
    (s.phase = .frozen → s.registeredHeight + 1 < U64 ∧ s.registeredHeight + 1 < d.expiryHeight)) .definition

end ListingState

namespace NftMarketOpening

def validate : NftMarketOpening → Except NftMarketError Unit
  | .definition d => d.validate
  | .listing s => s.validate

def noidValue (n : NftMarketOpening) : Except NftMarketError ℕ := do
  n.validate
  match n with
  | .definition _ => return 0
  | .listing _ => return NFT_FEE_CREDIT

end NftMarketOpening

end

end Noid.Tx
