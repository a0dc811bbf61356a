import Noid.Tx.Types

/-! # Openings of native carriers

A native asset record lives in a state slot whose owner word is the *root* of the record, a hash of its kind and fields.
The hashes are a parameter (`NativeHash`), and every assumption on them is stated where it is used.  The record kinds that
the enabled profile rejects before looking at a field are one constructor, `NativeOpening.disabled`. -/

namespace Noid.Tx

abbrev AssetId := Digest

abbrev CollectionId := Digest

abbrev PoolId := Digest

abbrev LaunchId := Digest

abbrev ListingId := Digest

/-- The identifier of the base currency. -/
def NOID_ASSET : AssetId := 0

/-! ### Tokens and collections -/

inductive IssuanceRoute where
  | standalone | launchpad
deriving DecidableEq, Repr

/-- The consumed funding incarnation a genesis identity is derived from. -/
structure GenesisAnchor where
  chain : Digest
  owner : Address
  input : TxInput
deriving DecidableEq, Repr

structure FungibleDefinition where
  asset : AssetId
  issuer : Address
  initialSupply : ℕ
  route : IssuanceRoute
  metadata : Digest
deriving DecidableEq, Repr

structure TokenBalance where
  asset : AssetId
  owner : Address
  units : ℕ
  unlockHeight : ℕ
deriving DecidableEq, Repr

structure TokenReserve where
  asset : AssetId
  reserveMicronoid : ℕ
  outstandingUnits : ℕ
  initialSupply : ℕ
  definitionRoot : Address
deriving DecidableEq, Repr

structure NftCollection where
  collection : CollectionId
  creator : Address
  maximumItems : ℕ
  issuedItems : ℕ
  metadata : Digest
deriving DecidableEq, Repr

structure NftItem where
  collection : CollectionId
  owner : Address
  metadata : Digest
  serial : ℕ
  unlockHeight : ℕ
deriving DecidableEq, Repr

/-! ### Pools -/

structure MarketDefinition where
  genesis : Digest
  base : AssetId
  quote : AssetId
  profile : ℕ
deriving DecidableEq, Repr

inductive PoolPhase where
  | idle | frozen
deriving DecidableEq, Repr

/-- The phase of a round at a height. -/
inductive RoundPhase where
  | open | registered | settlement | refund
deriving DecidableEq, Repr

structure PoolState where
  pool : PoolId
  baseReserve : ℕ
  quoteReserve : ℕ
  totalShares : ℕ
  lockedShares : ℕ
  queueRoot : Digest
  generation : ℕ
  registeredHeight : ℕ
  timeoutHeight : ℕ
  requestCount : ℕ
  phase : PoolPhase
  baseIsNoid : Bool
deriving DecidableEq, Repr

structure SwapRequest where
  round : Digest
  inputAsset : AssetId
  outputAsset : AssetId
  owner : Address
  recipient : Address
  grossInput : ℕ
  minimumOutput : ℕ
  registeredHeight : ℕ
  profile : ℕ
deriving DecidableEq, Repr

structure SwapClaim where
  request : Digest
  inputAsset : AssetId
  outputAsset : AssetId
  refundOwner : Address
  recipient : Address
  refundUnits : ℕ
  outputUnits : ℕ
  feeCredit : ℕ
deriving DecidableEq, Repr

inductive MarketOpening where
  | definition (d : MarketDefinition)
  | pool (p : PoolState)
  | request (r : SwapRequest)
  | claim (c : SwapClaim)
deriving DecidableEq, Repr

/-! ### Launches -/

structure LaunchDefinition where
  asset : AssetId
  marketGenesis : Digest
  initialSupply : ℕ
  definitionRoot : Address
  profile : ℕ
deriving DecidableEq, Repr

structure LaunchState where
  launch : LaunchId
  inventoryUnits : ℕ
  marketNoid : ℕ
  generation : ℕ
  queueRoot : Digest
  registeredHeight : ℕ
  timeoutHeight : ℕ
  requestCount : ℕ
  phase : PoolPhase
deriving DecidableEq, Repr

inductive LaunchSide where
  | buy | sell
deriving DecidableEq, Repr

structure LaunchRequest where
  round : Digest
  asset : AssetId
  owner : Address
  recipient : Address
  quantity : ℕ
  noidLimit : ℕ
  registeredHeight : ℕ
  side : LaunchSide
  profile : ℕ
deriving DecidableEq, Repr

inductive LaunchOpening where
  | definition (d : LaunchDefinition)
  | state (s : LaunchState)
  | request (r : LaunchRequest)
deriving DecidableEq, Repr

/-! ### Listings -/

structure ListingDefinition where
  collection : CollectionId
  seller : Address
  metadata : Digest
  serial : ℕ
  sourceCreationId : ℕ
  ask : ℕ
  expiryHeight : ℕ
deriving DecidableEq, Repr

structure ListingState where
  listing : ListingId
  collection : CollectionId
  serial : ℕ
  generation : ℕ
  queueRoot : Digest
  registeredHeight : ℕ
  requestCount : ℕ
  phase : PoolPhase
deriving DecidableEq, Repr

inductive NftMarketOpening where
  | definition (d : ListingDefinition)
  | listing (s : ListingState)
deriving DecidableEq, Repr

/-! ### All openings -/

/-- The kinds `kind_enabled` leaves out. -/
inductive DisabledKind where
  | marketLiquidity | marketLiquidityDeposit | marketLiquidityWithdrawal | marketLiquidityClaim
  | marketLiquidityBurn | nftPurchase | nftOffer
deriving DecidableEq, Repr

inductive NativeOpening where
  | fungibleDefinition (d : FungibleDefinition)
  | tokenBalance (b : TokenBalance)
  | tokenReserve (r : TokenReserve)
  | nftCollection (c : NftCollection)
  | nftItem (n : NftItem)
  | market (m : MarketOpening)
  | launch (l : LaunchOpening)
  | nftMarket (n : NftMarketOpening)
  | disabled (kind : DisabledKind) (fields : List ℕ)
deriving DecidableEq, Repr

/-- The hash functions of the native layer. -/
structure NativeHash where
  /-- The root of an opening: a sponge over its domain tag and fields. -/
  root : NativeOpening → Address
  /-- `GenesisAnchor::derive` for a fungible definition: supply, route and metadata. -/
  fungibleAsset : GenesisAnchor → ℕ → IssuanceRoute → Digest → AssetId
  /-- `GenesisAnchor::derive` for a collection: maximum and metadata. -/
  collectionId : GenesisAnchor → ℕ → Digest → CollectionId
  /-- The seed of a market over a pair of assets. -/
  marketSeed : GenesisAnchor → AssetId → AssetId → Digest
  marketRound : PoolId → Address → ℕ → Digest
  launchRound : LaunchId → Address → ℕ → Digest
  /-- The key of a funded request: root, slot and creation id. -/
  fundedRequestKey : Address → ℕ → ℕ → Digest
  /-- The commitment to a round and its sorted request keys. -/
  queueRoot : Digest → List Digest → Digest

/-- A hash that tells requests apart by their slot only. -/
def NativeHash.plain : NativeHash :=
  { root := fun _ => 1, fungibleAsset := fun _ _ _ _ => 1, collectionId := fun _ _ _ => 1
    marketSeed := fun _ _ _ => 1, marketRound := fun _ _ _ => 1, launchRound := fun _ _ _ => 1
    fundedRequestKey := fun _ slot _ => slot + 1, queueRoot := fun _ _ => 1 }

end Noid.Tx
