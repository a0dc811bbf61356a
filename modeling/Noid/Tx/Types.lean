import Noid.Lib.Checked

/-! # Transaction data

Digests and addresses are 32-byte strings, read as big-endian numbers: `0` is the all-zero string and the order is the
byte order.  Amounts, heights and creation ids are the source's `u64` values; where a sum has to fit a word the code checks
it and so does the model. -/

namespace Noid

/-- A 32-byte digest, read as a number. -/
abbrev Digest := ℕ

/-- A 32-byte owner address or opening root, read as a number. -/
abbrev Address := ℕ

end Noid

namespace Noid.Tx

/-- Rounded-up division. -/
def divCeil (a b : ℕ) : ℕ := (a + b - 1) / b

/-- The claimed content of a spent slot. -/
structure TxInput where
  slotIndex : ℕ
  amount : ℕ
  creationId : ℕ
deriving DecidableEq, Repr

/-- A slot to be created. -/
structure TxOutput where
  slotIndex : ℕ
  amount : ℕ
  owner : Address
deriving DecidableEq, Repr

def TxInput.dummy : TxInput := ⟨0, 0, 0⟩

def TxOutput.dummy : TxOutput := ⟨0, 0, 0⟩

def TX_INPUTS : ℕ := 8

def TX_OUTPUTS : ℕ := 2

/-- One page. -/
structure TxBody where
  epochAnchor : Digest
  fee : ℕ
  inputOwner : Address
  inputs : Vector TxInput TX_INPUTS
  outputs : Vector TxOutput TX_OUTPUTS
  validityBitmap : ℕ
  isCoinbase : Bool
deriving DecidableEq, Repr

def TX_VALIDITY_MASK : ℕ := 2 ^ 10 - 1

def outputBitmapBit (index : ℕ) : ℕ := 2 ^ (TX_INPUTS + index)

namespace TxBody

def isPrimaryCoinbaseShape (b : TxBody) : Bool :=
  b.isCoinbase && b.validityBitmap == outputBitmapBit 0

def isDevelopmentPayoutShape (b : TxBody) : Bool :=
  b.isCoinbase && b.validityBitmap == outputBitmapBit 0 + outputBitmapBit 1

def inputIsLive (b : TxBody) (index : ℕ) : Bool :=
  decide (index < TX_INPUTS) && b.validityBitmap.testBit index

def outputIsLive (b : TxBody) (index : ℕ) : Bool :=
  decide (index < TX_OUTPUTS) && b.validityBitmap.testBit (TX_INPUTS + index)

def liveInputs (b : TxBody) : List TxInput :=
  (b.inputs.toList.zipIdx.filter fun e => b.inputIsLive e.2).map Prod.fst

def liveOutputs (b : TxBody) : List TxOutput :=
  (b.outputs.toList.zipIdx.filter fun e => b.outputIsLive e.2).map Prod.fst

def liveInputCount (b : TxBody) : ℕ := b.liveInputs.length

def liveOutputCount (b : TxBody) : ℕ := b.liveOutputs.length

end TxBody

def inputSum (l : List TxInput) : ℕ := (l.map TxInput.amount).sum

def outputSum (l : List TxOutput) : ℕ := (l.map TxOutput.amount).sum

end Noid.Tx
