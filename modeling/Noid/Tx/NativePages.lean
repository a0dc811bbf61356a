import Noid.Tx.TradeExecution
import Noid.Tx.Closure

/-! # Native pages

A native group is a header page followed by data pages.  The header names the operation and carries a mask that says which
actions have an opening: 160 bytes, read here as one little-endian number.  A data page has up to eight inputs of one
owner and up to two outputs, with the unused entries zero. -/

namespace Noid.Tx

open Noid.Lib

inductive NativeTransitionError where
  | context | shape | inputSlot | outputSlot | authority | noidConservation | operation | asset
  | tokenConservation | reserve | nftConservation | supply
  | opening (e : NativeAssetError)
deriving DecidableEq, Repr

inductive NativeWireError where
  | encoding | version | bounds | header | operation | context | pageShape | inputLayout
  | outputLayout | openingCount | openingMask | authorization
  | dependencies (e : NativeClosureError)
  | financialOperand (e : FinancialOperationError)
  | trade (e : TradeExecutionError)
  | page (e : PagedSpendError)
  | opening (e : NativeAssetError)
  | semantic (e : NativeTransitionError)
deriving DecidableEq, Repr

def NATIVE_PAGE_BIT : ℕ := 2 ^ 14

def NATIVE_HEADER_BIT : ℕ := 2 ^ 15

def NATIVE_SPEND_VERSION : ℕ := 1

def INPUT_MASK_BITS : ℕ := 1024

def MAX_NATIVE_INTENT_DEPENDENCIES : ℕ := MAX_PAGED_SPEND_INPUTS + MAX_PAGED_SPEND_OUTPUTS + 2

/-- The marker bits of a bitmap: those that select no action. -/
def MARKER_MASK : ℕ := 2 ^ 16 - 1 - TX_VALIDITY_MASK

def HEADER_BITMAP : ℕ := NATIVE_PAGE_BIT ||| NATIVE_HEADER_BIT ||| PAGED_SPEND_START_BIT

/-! ### Operations -/

/-- The code and the operand of an operation in the header. -/
def encodeOperation (op : NativeOperation) : Except NativeWireError (ℕ × TxOutput) := do
  require op.enabled .operation
  match op with
  | .createToken i => return (1, { slotIndex := 0, amount := i, owner := 0 })
  | .transferToken asset => return (2, { slotIndex := 0, amount := 0, owner := asset })
  | .redeemToken asset => return (3, { slotIndex := 0, amount := 0, owner := asset })
  | .topUpReserve asset => return (4, { slotIndex := 0, amount := 0, owner := asset })
  | .createCollection i => return (5, { slotIndex := 0, amount := i, owner := 0 })
  | .mintNft => return (6, { slotIndex := 0, amount := 0, owner := 0 })
  | .transferNft => return (7, { slotIndex := 0, amount := 0, owner := 0 })
  | .burnNft => return (8, { slotIndex := 0, amount := 0, owner := 0 })
  | .financial op => do
    let operand ← op.operand.mapError .financialOperand
    return (op.code, operand)

/-- The operations below the financial codes. -/
def decodeBase (code argument : ℕ) (asset : AssetId) : Option NativeOperation :=
  match code with
  | 1 => if asset = 0 then some (.createToken argument) else none
  | 2 => if argument = 0 ∧ asset ≠ 0 then some (.transferToken asset) else none
  | 3 => if argument = 0 ∧ asset ≠ 0 then some (.redeemToken asset) else none
  | 4 => if argument = 0 ∧ asset ≠ 0 then some (.topUpReserve asset) else none
  | 5 => if asset = 0 then some (.createCollection argument) else none
  | 6 => if argument = 0 ∧ asset = 0 then some .mintNft else none
  | 7 => if argument = 0 ∧ asset = 0 then some .transferNft else none
  | 8 => if argument = 0 ∧ asset = 0 then some .burnNft else none
  | _ => none

def decodeOperation (code : ℕ) (operand : TxOutput) : Except NativeWireError NativeOperation := do
  require (operationEnabled code) .operation
  if 32 ≤ code then
    let op ← (FinancialOperation.decode code operand).mapError .financialOperand
    return .financial op
  else
    require (operand.slotIndex = 0) .operation
    require (operand.amount < 2 ^ 16) .operation
    orElseThrow .operation (decodeBase code operand.amount operand.owner)

def NativeOperation.withFundingInput (fundingInput : ℕ) :
    NativeOperation → Except NativeTransitionError NativeOperation
  | .createToken _ => .ok (.createToken fundingInput)
  | .createCollection _ => .ok (.createCollection fundingInput)
  | .financial op => do
    let op ← (op.withFundingInput fundingInput).mapError fun _ => NativeTransitionError.operation
    return .financial op
  | _ => .error .operation

/-! ### The mask -/

/-- The 160 bits that one input of the header carries. -/
def lane (input : TxInput) : ℕ :=
  input.slotIndex % 2 ^ 32 + 2 ^ 32 * (input.amount % 2 ^ 64 + 2 ^ 64 * (input.creationId % 2 ^ 64))

/-- The input of the header that carries 160 bits. -/
def ofLane (bits : ℕ) : TxInput where
  slotIndex := bits % 2 ^ 32
  amount := bits / 2 ^ 32 % 2 ^ 64
  creationId := bits / 2 ^ 96 % 2 ^ 64

def encodeMask (mask : ℕ) : Vector TxInput TX_INPUTS :=
  Vector.ofFn fun i => ofLane (mask / (2 ^ 160) ^ i.val % 2 ^ 160)

def decodeMask (inputs : Vector TxInput TX_INPUTS) : ℕ := Nat.ofDigits (2 ^ 160) (inputs.toList.map lane)

def claimMask (inputs : List NativeInputClaim) (outputs : List NativeOutputClaim) : ℕ :=
  setBits (setBits 0 0 (inputs.map (·.opening.isSome))) INPUT_MASK_BITS (outputs.map (·.opening.isSome))

/-! ### Layout -/

namespace TxBody

def firstOutput (b : TxBody) : TxOutput := b.outputs.get ⟨0, Nat.zero_lt_two⟩

def secondOutput (b : TxBody) : TxOutput := b.outputs.get ⟨1, Nat.one_lt_two⟩

/-- Put an input behind the live ones. -/
def addInput (b : TxBody) (input : TxInput) : TxBody :=
  { b with
    inputs := b.inputs.setIfInBounds b.liveInputCount input
    validityBitmap := b.validityBitmap ||| 2 ^ b.liveInputCount }

def setOutput (b : TxBody) (index : ℕ) (output : TxOutput) : TxBody :=
  { b with
    outputs := b.outputs.setIfInBounds index output
    validityBitmap := b.validityBitmap ||| outputBitmapBit index }

def markEnd (b : TxBody) : TxBody := { b with validityBitmap := b.validityBitmap ||| PAGED_SPEND_END_BIT }

end TxBody

def emptyPage (epochAnchor : Digest) : TxBody where
  epochAnchor := epochAnchor
  fee := 0
  inputOwner := 0
  inputs := Vector.replicate TX_INPUTS TxInput.dummy
  outputs := Vector.replicate TX_OUTPUTS TxOutput.dummy
  validityBitmap := NATIVE_PAGE_BIT
  isCoinbase := false

section
variable (epochAnchor : Digest)

/-- An input goes to the last page, or to a new one when that is full or has another owner. -/
def newPage (claim : NativeInputClaim) : Option TxBody → Bool
  | none => true
  | some page => decide (page.inputOwner ≠ claim.root ∨ page.liveInputCount = TX_INPUTS)

/-- Append a page while there is room for it behind the header. -/
def pushPage (data : List TxBody) (page : TxBody) : Except NativeWireError (List TxBody) := do
  require (data.length + 1 < MAX_PAGED_SPEND_PAGES) .bounds
  return data ++ [page]

def onLast (f : TxBody → TxBody) (data : List TxBody) : Except NativeWireError (List TxBody) := do
  let page ← orElseThrow .inputLayout data.getLast?
  return data.dropLast ++ [f page]

def placeInput (data : List TxBody) (claim : NativeInputClaim) : Except NativeWireError (List TxBody) := do
  let data ← if newPage claim data.getLast? then
      pushPage data { emptyPage epochAnchor with inputOwner := claim.root }
    else pure data
  onLast (·.addInput claim.input) data

def placeOutput (data : List TxBody) (claim : NativeOutputClaim × ℕ) :
    Except NativeWireError (List TxBody) := do
  let page := claim.2 / TX_OUTPUTS
  let data ← if data.length ≤ page then pushPage data (emptyPage epochAnchor) else pure data
  return data.modify page fun body => body.setOutput (claim.2 % TX_OUTPUTS) claim.1.output

def layPages (inputs : List NativeInputClaim) (outputs : List NativeOutputClaim) :
    Except NativeWireError (List TxBody) := do
  let data ← inputs.foldlM (placeInput epochAnchor) []
  let data ← outputs.zipIdx.foldlM (placeOutput epochAnchor) data
  onLast TxBody.markEnd data

end

def liveInputClaims (pages : List TxBody) : List (TxInput × Address) :=
  pages.flatMap fun body => body.liveInputs.map fun i => (i, body.inputOwner)

def liveOutputClaims (pages : List TxBody) : List TxOutput := pages.flatMap TxBody.liveOutputs

/-! ### Framing -/

structure NativePageFacts where
  chain : Digest
  authority : Address
  epochAnchor : Digest
  fee : ℕ
  operation : NativeOperation
  logicalTxid : Digest
  liveInputs : ℕ
  liveOutputs : ℕ
  mask : ℕ
deriving DecidableEq, Repr

namespace NativePageFacts

def inputIsNative (f : NativePageFacts) (index : ℕ) : Bool :=
  decide (index < f.liveInputs) && f.mask.testBit index

def outputIsNative (f : NativePageFacts) (index : ℕ) : Bool :=
  decide (index < f.liveOutputs) && f.mask.testBit (INPUT_MASK_BITS + index)

end NativePageFacts

/-- The state of the loop over the data pages. -/
structure PageScan where
  inputSlots : List ℕ
  outputSlots : List ℕ
  inputTail : Bool
  outputTail : Bool
deriving DecidableEq, Repr

/-- The entries of a page: a live one has a fresh slot, an unused one is zero. -/
def scanEntries {α : Type} [DecidableEq α] (slot : α → ℕ) (dup : NativeWireError) (dummy : α)
    (live : ℕ → Bool) : List ℕ → List (α × ℕ) → Except NativeWireError (List ℕ)
  | slots, [] => .ok slots
  | slots, (x, i) :: rest =>
    if live i then do
      require (slot x ∉ slots) dup
      scanEntries slot dup dummy live (slots ++ [slot x]) rest
    else do
      require (x = dummy) .pageShape
      scanEntries slot dup dummy live slots rest

/-- The body of the loop over the data pages. -/
def scanPage (epochAnchor : Digest) (last : Bool) (s : PageScan) (body : TxBody) :
    Except NativeWireError PageScan := do
  require (body.isCoinbase = false ∧ body.epochAnchor = epochAnchor ∧ body.fee = 0 ∧
    body.validityBitmap &&& MARKER_MASK = NATIVE_PAGE_BIT ||| (if last then PAGED_SPEND_END_BIT else 0))
    .pageShape
  let nInput := body.liveInputCount
  let nOutput := body.liveOutputCount
  require (¬(nInput = 0 ∧ nOutput = 0)) .pageShape
  require (¬(nInput ≠ 0 ∧ s.inputTail = true) ∧ (body.inputOwner = 0 ↔ nInput = 0)) .inputLayout
  require (body.validityBitmap &&& 0xff = 2 ^ nInput - 1) .inputLayout
  require (¬(nOutput ≠ 0 ∧ s.outputTail = true) ∧
    body.validityBitmap &&& 3 * 2 ^ TX_INPUTS = (2 ^ nOutput - 1) * 2 ^ TX_INPUTS) .outputLayout
  let inputSlots ← scanEntries TxInput.slotIndex .inputLayout .dummy body.inputIsLive s.inputSlots
    body.inputs.toList.zipIdx
  let outputSlots ← scanEntries TxOutput.slotIndex .outputLayout .dummy body.outputIsLive s.outputSlots
    body.outputs.toList.zipIdx
  return { inputSlots := inputSlots, outputSlots := outputSlots
           inputTail := s.inputTail || decide (nInput = 0)
           outputTail := s.outputTail || decide (nOutput < TX_OUTPUTS) }

def scanPages (epochAnchor : Digest) : PageScan → List TxBody → Except NativeWireError PageScan
  | s, [] => .ok s
  | s, body :: rest => do
    let s ← scanPage epochAnchor rest.isEmpty s body
    scanPages epochAnchor s rest

/-- Validate page framing; the hash of the pages is the logical id. -/
def validateNativePages (hashPages : List TxBody → Digest) (pages : List TxBody) :
    Except NativeWireError NativePageFacts := do
  require (2 ≤ pages.length ∧ pages.length ≤ MAX_PAGED_SPEND_PAGES) .bounds
  let header ← orElseThrow .bounds pages.head?
  require (header.isCoinbase = false ∧ header.validityBitmap = HEADER_BITMAP ∧
    header.firstOutput.slotIndex = NATIVE_SPEND_VERSION ∧ header.firstOutput.owner ≠ 0) .header
  require (header.firstOutput.amount < 2 ^ 16) .operation
  let operation ← decodeOperation header.firstOutput.amount header.secondOutput
  require (operation.requiresOwner = true ↔ header.inputOwner ≠ 0) .header
  let mask := decodeMask header.inputs
  let scan ← scanPages header.epochAnchor ⟨[], [], false, false⟩ pages.tail
  require (scan.inputSlots ≠ [] ∧ scan.inputSlots.length ≤ MAX_PAGED_SPEND_INPUTS ∧
    scan.outputSlots.length ≤ MAX_PAGED_SPEND_OUTPUTS ∧ ∀ slot ∈ scan.inputSlots, slot ∉ scan.outputSlots)
    .bounds
  require (∀ i ∈ operation.fundingInput, i < scan.inputSlots.length) .operation
  require ((∀ i < INPUT_MASK_BITS, scan.inputSlots.length ≤ i → mask.testBit i = false) ∧
    ∀ i < MAX_PAGED_SPEND_OUTPUTS, scan.outputSlots.length ≤ i → mask.testBit (INPUT_MASK_BITS + i) = false)
    .openingMask
  return { chain := header.firstOutput.owner, authority := header.inputOwner
           epochAnchor := header.epochAnchor, fee := header.fee, operation := operation
           logicalTxid := hashPages pages, liveInputs := scan.inputSlots.length
           liveOutputs := scan.outputSlots.length, mask := mask }

def headerPage (context : NativeContext) (epochAnchor : Digest) (mask code : ℕ) (operand : TxOutput) : TxBody where
  epochAnchor := epochAnchor
  fee := context.fee
  inputOwner := context.authority
  inputs := encodeMask mask
  outputs := ⟨#[{ slotIndex := NATIVE_SPEND_VERSION, amount := code, owner := context.chain }, operand], rfl⟩
  validityBitmap := HEADER_BITMAP
  isCoinbase := false

end Noid.Tx
