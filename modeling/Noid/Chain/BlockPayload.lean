import Noid.Chain.BlockWire
import Noid.Tx.TradeFormat

/-! # The payload of a block body

A block travels with the openings that its native groups refer to and the policies of its trade batches: as a plain block,
with openings (`NBD1`), or with openings and batches (`NBD2`).  A batch is written without the claims that fund its
policies: they are cut from the inputs of its group again. -/

namespace Noid.Chain

open Noid.Lib Noid.Tx Noid.Node

/-! ### Scheduled streams -/

inductive ScheduledStreamError where
  | stream (e : NativeStreamError)
  | provenance
deriving DecidableEq, Repr

def hasNativeFlags (txs : List TxBody) : Bool :=
  txs.any fun tx => decide (tx.validityBitmap &&& (NATIVE_PAGE_BIT ||| NATIVE_HEADER_BIT) ≠ 0)

/-- The pages of a group, without the header of a native one. -/
def BlockSpendGroup.data (txs : List TxBody) (g : BlockSpendGroup) : List TxBody :=
  match g.kind with
  | .native _ => (txs.drop (g.bodyStart + 1)).take (g.pageCount - 1)
  | .ordinary _ => (txs.drop g.bodyStart).take g.pageCount

/-- The native inputs of a group are those with a native creation id. -/
def BlockSpendGroup.checkProvenance (txs : List TxBody) (g : BlockSpendGroup) : Except ScheduledStreamError Unit :=
  let expected (index : ℕ) : Bool := match g.kind with
    | .native facts => facts.inputIsNative index
    | .ordinary _ => false
  ((g.data txs).flatMap TxBody.liveInputs).zipIdx.forM fun x =>
    require (isNativeTagged x.1.creationId = expected x.2 ∧
      (expected x.2 = true → (nativeSequence x.1.creationId).isSome)) .provenance

section
variable (hashPages : List TxPage → Digest) (P : ChainParams)

def scheduledGroups (txs : List TxBody) (height : ℕ) : Except NativeStreamError (List BlockSpendGroup) :=
  if hasNativeFlags txs then do
    let facts ← validateBlockPageStreamAt hashPages P txs height
    return facts.groups
  else do
    let facts ← (validateBlockPageStream hashPages txs).mapError .system
    return facts.groups.map fun g => ⟨facts.userStartIndex + g.startPage, g.pageCount, .ordinary g.spend⟩

def validateScheduledBlockPageStream (txs : List TxBody) (height : ℕ) :
    Except ScheduledStreamError (List BlockSpendGroup) := do
  let groups ← (scheduledGroups hashPages P txs height).mapError .stream
  (if P.v21Active height then groups else []).forM (BlockSpendGroup.checkProvenance txs)
  return groups

end

/-- The roots that the native inputs and outputs of a group carry. -/
def BlockSpendGroup.openingRoots (txs : List TxBody) (g : BlockSpendGroup) : List Address :=
  match g.kind with
  | .native facts =>
    let owners := (g.data txs).flatMap fun tx => tx.liveInputs.map fun _ => tx.inputOwner
    let outputs := (g.data txs).flatMap TxBody.liveOutputs
    (owners.zipIdx.filter fun x => facts.inputIsNative x.2).map Prod.fst ++
      (outputs.zipIdx.filter fun x => facts.outputIsNative x.2).map fun x => x.1.owner
  | .ordinary _ => []

def requiredNativeOpeningRoots (txs : List TxBody) (groups : List BlockSpendGroup) : List Address :=
  rootSet (groups.flatMap (BlockSpendGroup.openingRoots txs))

def BlockSpendGroup.operandRoots (g : BlockSpendGroup) : List Address :=
  match g.kind with
  | .native facts => Noid.Tx.operandRoots facts.operation
  | .ordinary _ => []

/-! ### Limits -/

def BLOCK_HEADER_WIRE_SIZE : ℕ := 212

def TRANSACTION_WIRE_SIZE : ℕ := 323

def BLOCK_WIRE_FIXED_OVERHEAD : ℕ := 1 + BLOCK_HEADER_WIRE_SIZE + 4

def MAX_BLOCK_BYTES : ℕ := 1 + BLOCK_HEADER_WIRE_SIZE + 4 + 256 * TRANSACTION_WIRE_SIZE

def BLOCK_MAX_ACTIONS : ℕ := 1020 + 510 + 1

/-- The text `NBD1`. -/
def NATIVE_BODY_MAGIC : Bytes := [78, 66, 68, 49]

def NATIVE_BODY_HEADER_BYTES : ℕ := 12

/-- The text `NBD2`. -/
def TRADE_BODY_MAGIC : Bytes := [78, 66, 68, 50]

def TRADE_BODY_HEADER_BYTES : ℕ := 16

def MAX_BLOCK_NATIVE_OPENINGS : ℕ := 2 * BLOCK_MAX_ACTIONS

def MAX_BLOCK_BODY_PAYLOAD_BYTES : ℕ :=
  MAX_BLOCK_BYTES + NATIVE_BODY_HEADER_BYTES + MAX_BLOCK_NATIVE_OPENINGS * (2 + MAX_NATIVE_OPENING_BYTES)

def MAX_BLOCK_TRADE_POLICIES : ℕ := MAX_SEQUENTIAL_TRADES

def BATCH_PREFIX_BYTES : ℕ := 36

def canonicalBlockWireLen (txCount : ℕ) : Except WireError ℕ := do
  require (txCount ≤ BLOCK_MAX_TXS) .lengthOverflow
  return BLOCK_WIRE_FIXED_OVERHEAD + txCount * TRANSACTION_WIRE_SIZE

/-- The errors that are reported as a text. -/
inductive NativeBodyError where
  | extraneous
  | stream (e : ScheduledStreamError)
  | closure (e : NativeClosureError)
  | opening (e : NativeAssetError)
deriving DecidableEq, Repr

inductive BlockBodyPayloadError where
  | bounds | encoding | trade
  | missingOpening (root : Address)
  | block (e : WireError)
  | native (e : NativeBodyError)
deriving DecidableEq, Repr

def closureError : NativeClosureError → BlockBodyPayloadError
  | .missing root => .missingOpening root
  | e => .native (.closure e)

/-- The assertions of the writer. -/
inductive PayloadPanic where
  | block (e : BlockEncodePanic)
  | length | opening | batch | policy
deriving DecidableEq, Repr

/-- The claims of the trade groups, by the commitment of the group. -/
abbrev SourceMap := SortedMap Digest (List NativeInputClaim)

section
variable (H : NativeHash) (T : TradeHash) (hashPages : List TxPage → Digest) (P : ChainParams)

/-- The openings that a block requires, and no others. -/
def canonicalOpeningMap (b : Block) (openings : List NativeOpening) : Except BlockBodyPayloadError NativeRecords := do
  require (openings.length ≤ MAX_BLOCK_NATIVE_OPENINGS) .bounds
  if hasNativeFlags b.transactions = false then
    require (openings = []) (.native .extraneous)
    return .empty
  else
    let groups ← (validateScheduledBlockPageStream hashPages P b.transactions b.header.height).mapError
      fun e => .native (.stream e)
    let closure ← (canonicalNativeClosure H (requiredNativeOpeningRoots b.transactions groups)
      (groups.flatMap BlockSpendGroup.operandRoots) openings MAX_BLOCK_NATIVE_OPENINGS).mapError closureError
    return byRoot H closure

/-! ### Trade batches -/

def tradeInputs (payloads : NativeRecords) (txs : List TxBody) (g : BlockSpendGroup) (facts : NativePageFacts) :
    Except BlockBodyPayloadError (List NativeInputClaim) :=
  ((g.data txs).flatMap fun tx => tx.liveInputs.map fun input => (input, tx.inputOwner)).zipIdx.mapM fun x =>
    if facts.inputIsNative x.2 then do
      let o ← orElseThrow (.missingOpening x.1.2) (payloads.lookup x.1.2)
      return ⟨x.1.1, x.1.2, some o⟩
    else return ⟨x.1.1, x.1.2, none⟩

/-- The loop over the groups of a block. -/
def collectSources (payloads : NativeRecords) (txs : List TxBody) :
    SourceMap → ℕ → List BlockSpendGroup → Except BlockBodyPayloadError SourceMap
  | sources, _, [] => .ok sources
  | sources, total, g :: rest =>
    match g.kind with
    | .native facts =>
      match facts.operation with
      | .financial (.executeTrades commitment) => do
        require (sources.keys.length < MAX_BLOCK_TRADE_POLICIES) .bounds
        require (total + facts.liveInputs ≤ MAX_PAGED_SPEND_INPUTS) .bounds
        let inputs ← tradeInputs payloads txs g facts
        require (sources.lookup commitment = none) .trade
        collectSources payloads txs (sources.insert commitment inputs) (total + facts.liveInputs) rest
      | _ => collectSources payloads txs sources total rest
    | .ordinary _ => collectSources payloads txs sources total rest

/-- The claims of all trade groups. -/
def tradeSources (b : Block) (payloads : NativeRecords) : Except BlockBodyPayloadError SourceMap :=
  if hasNativeFlags b.transactions = false then .ok .empty
  else do
    let groups ← (validateScheduledBlockPageStream hashPages P b.transactions b.header.height).mapError
      fun e => .native (.stream e)
    collectSources payloads b.transactions .empty 0 groups

/-- The market of a control and the definition it names. -/
def tradeMarket (payloads : NativeRecords) : Option NativeOpening → Except BlockBodyPayloadError MarketStart
  | some (.launch (.state s)) =>
    match payloads.lookup s.launch with
    | some (.launch (.definition d)) => .ok (.curve d s)
    | _ => .error .trade
  | some (.market (.pool p)) =>
    match payloads.lookup p.pool with
    | some (.market (.definition d)) => .ok (.market d p)
    | _ => .error .trade
  | _ => .error .trade

def tradeParent (claims : List NativeInputClaim) (payloads : NativeRecords) :
    Except BlockBodyPayloadError TradeParent := do
  let claim ← orElseThrow .trade claims.head?
  let market ← tradeMarket payloads claim.opening
  let parent : TradeParent := ⟨claim.input.slotIndex, claim.input.creationId, market⟩
  let actual ← (parent.claim H).mapError fun _ => .trade
  require (actual = claim) .trade
  return parent

/-- The loop over the supplied batches. -/
def keyBatches (sources : SourceMap) (payloads : NativeRecords) :
    SortedMap Digest TradeBatch → ℕ → List TradeBatch → Except BlockBodyPayloadError (SortedMap Digest TradeBatch)
  | keyed, _, [] => .ok keyed
  | keyed, count, batch :: rest => do
    require (count + batch.policies.length ≤ MAX_BLOCK_TRADE_POLICIES) .bounds
    let root ← (batch.root H T).mapError fun _ => .trade
    let claims ← orElseThrow .trade (sources.lookup root)
    let inputs ← (batch.inputs H T).mapError fun _ => .trade
    require (inputs = claims) .trade
    let parent ← tradeParent H claims payloads
    require (batch.parent = parent ∧ keyed.lookup root = none) .trade
    keyBatches sources payloads (keyed.insert root batch) (count + batch.policies.length) rest

/-- The batches that a block commits to, and no others. -/
def canonicalTradeBatches (b : Block) (payloads : NativeRecords) (batches : List TradeBatch) :
    Except BlockBodyPayloadError (List TradeBatch) := do
  let sources ← tradeSources hashPages P b payloads
  require (sources.keys.length = batches.length ∧ batches.length ≤ MAX_BLOCK_TRADE_POLICIES) .trade
  let keyed ← keyBatches H T sources payloads .empty 0 batches
  return keyed.values

/-- Read a policy behind the last authorisation; it is funded by the next of the claims. -/
def readPolicy (s : Option Digest × List NativeInputClaim) : Reader BlockBodyPayloadError (Digest × TradeIntent) := do
  let raw ← take .encoding TRADE_INTENT_FIXED_BYTES
  let (policy, fundingCount) ← liftM ((decodePolicyHeader raw).mapError fun _ => BlockBodyPayloadError.trade)
  Reader.require (fundingCount ≤ s.2.length) .trade
  let intent : TradeIntent := ⟨policy, s.2.take fundingCount⟩
  let id ← liftM ((intent.authorizationId H T).mapError fun _ => BlockBodyPayloadError.trade)
  Reader.require (∀ old ∈ s.1, old < id) .encoding
  return (id, intent)

def nextPolicy (s : Option Digest × List NativeInputClaim) (e : Digest × TradeIntent) :
    Option Digest × List NativeInputClaim := (some e.1, s.2.drop e.2.funding.length)

/-- Read a batch behind the last root, with so many policies to spare. -/
def readBatch (sources : SourceMap) (payloads : NativeRecords) (s : Option Digest × ℕ) :
    Reader BlockBodyPayloadError (Digest × TradeBatch) := do
  let root ← takeBe .encoding 32
  let count ← takeLe .encoding 2
  Reader.require (count ≠ 0 ∧ count ≤ s.2) .bounds
  let padding ← take .encoding 2
  let cursor ← Reader.remaining
  Reader.require (padding = zeros 2 ∧ (∀ old ∈ s.1, old < root) ∧
    count * TRADE_INTENT_FIXED_BYTES ≤ cursor.length) .encoding
  let claims ← liftM (orElseThrow BlockBodyPayloadError.trade (sources.lookup root))
  let parent ← liftM (tradeParent H claims payloads)
  let policies ← readChain (readPolicy H T) nextPolicy (none, claims.tail) count
  Reader.require (1 + (policies.map fun e => e.2.funding.length).sum = claims.length) .trade
  let batch ← liftM ((TradeBatch.new H T parent (policies.map Prod.snd)).mapError fun _ => BlockBodyPayloadError.trade)
  let actual ← liftM ((batch.root H T).mapError fun _ => BlockBodyPayloadError.trade)
  Reader.require (actual = root) .trade
  return (root, batch)

def nextBatch (s : Option Digest × ℕ) (e : Digest × TradeBatch) : Option Digest × ℕ :=
  (some e.1, s.2 - e.2.policies.length)

def decodeTradeBatches (b : Block) (payloads : NativeRecords) (batchCount : ℕ) :
    Reader BlockBodyPayloadError (List TradeBatch) := do
  Reader.require (batchCount ≠ 0 ∧ batchCount ≤ MAX_BLOCK_TRADE_POLICIES) .bounds
  let cursor ← Reader.remaining
  Reader.require (batchCount * (BATCH_PREFIX_BYTES + TRADE_INTENT_FIXED_BYTES) ≤ cursor.length) .encoding
  let sources ← liftM (tradeSources hashPages P b payloads)
  Reader.require (sources.keys.length = batchCount) .trade
  let batches ← readChain (readBatch H T sources payloads) nextBatch (none, MAX_BLOCK_TRADE_POLICIES) batchCount
  return batches.map Prod.snd

def encodeBatch (batch : TradeBatch) : Except PayloadPanic Bytes := do
  let root ← (batch.root H T).mapError fun _ => .batch
  let policies ← batch.policies.mapM fun i =>
    (encodePolicyHeader i.policy i.funding.length).mapError fun _ => PayloadPanic.policy
  return beBytes 32 root ++ leBytes 2 batch.policies.length ++ zeros 2 ++ policies.flatten

end

/-! ### Payloads -/

structure BlockBodyPayload where
  block : Block
  nativeOpenings : List NativeOpening
  tradeBatches : List TradeBatch
deriving DecidableEq

def encodedTradeBytes (batches : List TradeBatch) : ℕ :=
  (batches.map fun b => BATCH_PREFIX_BYTES + b.policies.length * TRADE_INTENT_FIXED_BYTES).sum

def encodedBodyLen (bodyLen : ℕ) (openings : List NativeOpening) (batches : List TradeBatch) :
    Except BlockBodyPayloadError ℕ :=
  if openings = [] ∧ batches = [] then .ok bodyLen
  else do
    let header := if batches = [] then NATIVE_BODY_HEADER_BYTES else TRADE_BODY_HEADER_BYTES
    let records ← openings.mapM fun o => o.toBytes.mapError fun e => BlockBodyPayloadError.native (.opening e)
    return bodyLen + header + (records.map fun r => 2 + r.length).sum + encodedTradeBytes batches

def encodeOpening (o : NativeOpening) : Except PayloadPanic Bytes := do
  let bytes ← o.toBytes.mapError fun _ => PayloadPanic.opening
  return leBytes 2 bytes.length ++ bytes

def readOpening : Reader BlockBodyPayloadError NativeOpening := do
  let size ← takeLe .encoding 2
  Reader.require (size ≠ 0 ∧ size ≤ MAX_NATIVE_OPENING_BYTES) .bounds
  let raw ← take .encoding size
  liftM ((NativeOpening.fromBytes raw).mapError fun e => BlockBodyPayloadError.native (.opening e))

section
variable (H : NativeHash) (T : TradeHash) (hashPages : List TxPage → Digest) (P : ChainParams)

/-- Read an opening behind the last root. -/
def readNextOpening (previous : Option Address) : Reader BlockBodyPayloadError NativeOpening := do
  let o ← readOpening
  Reader.require (∀ old ∈ previous, old < H.root o) .encoding
  return o

def readOpenings (count : ℕ) : Reader BlockBodyPayloadError (List NativeOpening) :=
  readChain (readNextOpening H) (fun _ o => some (H.root o)) none count

def encodeBodyWithTrades (blockBytes : Bytes) (openings : List NativeOpening) (batches : List TradeBatch) :
    Except PayloadPanic Bytes :=
  if openings = [] ∧ batches = [] then .ok blockBytes
  else do
    let _ ← (encodedBodyLen blockBytes.length openings batches).mapError fun _ => PayloadPanic.length
    let records ← openings.mapM encodeOpening
    let trades ← batches.mapM (encodeBatch H T)
    return (if batches = [] then NATIVE_BODY_MAGIC else TRADE_BODY_MAGIC) ++ leBytes 4 blockBytes.length ++
      leBytes 4 openings.length ++ (if batches = [] then [] else leBytes 4 batches.length) ++ blockBytes ++
      records.flatten ++ trades.flatten

namespace BlockBodyPayload

/-- A payload of a block, its openings and its batches. -/
def newWithNativeData (block : Block) (openings : List NativeOpening) (batches : List TradeBatch) :
    Except BlockBodyPayloadError BlockBodyPayload := do
  let bodyLen ← (canonicalBlockWireLen block.transactions.length).mapError .block
  require (bodyLen ≤ MAX_BLOCK_BYTES) .bounds
  let payloads ← canonicalOpeningMap H hashPages P block openings
  let tradeBatches ← canonicalTradeBatches H T hashPages P block payloads batches
  let length ← encodedBodyLen bodyLen payloads.values tradeBatches
  require (length ≤ MAX_BLOCK_BODY_PAYLOAD_BYTES) .bounds
  return { block, nativeOpenings := payloads.values, tradeBatches }

/-- Write a payload. -/
def encode (p : BlockBodyPayload) : Except PayloadPanic Bytes := do
  let bytes ← (p.block.toBytes hashPages P).mapError .block
  encodeBodyWithTrades H T bytes p.nativeOpenings p.tradeBatches

def readBatchCount (hasTrades : Bool) : Reader BlockBodyPayloadError ℕ :=
  if hasTrades then do
    let count ← takeLe .encoding 4
    Reader.require (count ≠ 0 ∧ count ≤ MAX_BLOCK_TRADE_POLICIES) .bounds
    return count
  else return 0

def readTrades (hasTrades : Bool) (b : Block) (payloads : NativeRecords) (batchCount : ℕ) :
    Reader BlockBodyPayloadError (List TradeBatch) :=
  if hasTrades then decodeTradeBatches H T hashPages P b payloads batchCount else return []

/-- Read what follows the magic. -/
def decodeFramed (hasTrades : Bool) : Reader BlockBodyPayloadError (Block × NativeRecords × List TradeBatch) := do
  let bodyLen ← takeLe .encoding 4
  let count ← takeLe .encoding 4
  Reader.require ((bodyLen ≠ 0 ∧ bodyLen ≤ MAX_BLOCK_BYTES) ∧ count ≠ 0 ∧ count ≤ MAX_BLOCK_NATIVE_OPENINGS) .bounds
  let batchCount ← readBatchCount hasTrades
  let cursor ← Reader.remaining
  Reader.require (bodyLen + 2 * count ≤ cursor.length) .encoding
  let body ← take .encoding bodyLen
  let block ← liftM ((Block.fromBytes hashPages P body).mapError BlockBodyPayloadError.block)
  Reader.require (P.v21Active block.header.height = true) .encoding
  let openings ← readOpenings H count
  let payloads ← liftM (canonicalOpeningMap H hashPages P block openings)
  let batches ← readTrades H T hashPages P hasTrades block payloads batchCount
  return (block, payloads, batches)

/-- Read a payload in one of its framings. -/
def decode (bytes : Bytes) : Except BlockBodyPayloadError BlockBodyPayload := do
  require (bytes ≠ [] ∧ bytes.length ≤ MAX_BLOCK_BODY_PAYLOAD_BYTES) .bounds
  let hasTrades := TRADE_BODY_MAGIC.isPrefixOf bytes
  if hasTrades = false ∧ NATIVE_BODY_MAGIC.isPrefixOf bytes = false then
    require (bytes.length ≤ MAX_BLOCK_BYTES) .bounds
    let block ← (Block.fromBytes hashPages P bytes).mapError .block
    newWithNativeData H T hashPages P block [] []
  else
    require ((if hasTrades then TRADE_BODY_HEADER_BYTES else NATIVE_BODY_HEADER_BYTES) ≤ bytes.length) .encoding
    let ((block, payloads, batches), remainder) ← (decodeFramed H T hashPages P hasTrades).run (bytes.drop 4)
    require (remainder = []) .encoding
    newWithNativeData H T hashPages P block payloads.values batches

end BlockBodyPayload

end

end Noid.Chain
