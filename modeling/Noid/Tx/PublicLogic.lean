import Noid.Tx.PagedSpendWire

/-! # Canonical bodies

The checks that a single body passes on its own: no bits beyond the live ones, unused entries zero, a system mint of one
of its two shapes, and otherwise a balanced spend of distinct slots. -/

namespace Noid.Tx

open Noid.Lib

inductive PublicLogicError where
  | coinbase
  | bitmapHighBits (bitmap : ℕ)
  | deadInputNotZero (index : ℕ)
  | deadOutputNotZero (index : ℕ)
  | noLiveInputs | coinbaseInputOwner
  | coinbaseBitmap (bitmap : ℕ)
  | duplicateInputSlot (slot : ℕ)
  | duplicateOutputSlot (slot : ℕ)
  | inputOutputSlotOverlap (slot : ℕ)
  | inputSumOverflow | outputSumOverflow | outputPlusFeeOverflow
  | balanceMismatch (inputSum outputSum fee : ℕ)
deriving DecidableEq, Repr

/-- Insert slots one by one; each must be new. -/
def insertSlots {ε : Type} (duplicate : ℕ → ε) : List ℕ → List ℕ → Except ε (List ℕ)
  | seen, [] => .ok seen
  | seen, slot :: rest => do
    require (slot ∉ seen) (duplicate slot)
    insertSlots duplicate (seen ++ [slot]) rest

/-- The outputs of a body: new slots that no input has. -/
def insertOutputs (inputs : List ℕ) : List ℕ → List ℕ → Except PublicLogicError Unit
  | _, [] => .ok ()
  | seen, slot :: rest => do
    require (slot ∉ seen) (.duplicateOutputSlot slot)
    require (slot ∉ inputs) (.inputOutputSlotOverlap slot)
    insertOutputs inputs (seen ++ [slot]) rest

def uniqueSlots (body : TxBody) : Except PublicLogicError Unit := do
  let inputs ← insertSlots .duplicateInputSlot [] (body.liveInputs.map TxInput.slotIndex)
  insertOutputs inputs [] (body.liveOutputs.map TxOutput.slotIndex)

/-- Add amounts into a 128-bit word. -/
def sumAmounts {ε : Type} (overflow : ε) : ℕ → List ℕ → Except ε ℕ
  | sum, [] => .ok sum
  | sum, amount :: rest => do
    require (sum + amount < 2 ^ 128) overflow
    sumAmounts overflow (sum + amount) rest

def sums (body : TxBody) : Except PublicLogicError (ℕ × ℕ × ℕ × ℕ) := do
  let inputs ← sumAmounts .inputSumOverflow 0 (body.liveInputs.map TxInput.amount)
  let outputs ← sumAmounts .outputSumOverflow 0 (body.liveOutputs.map TxOutput.amount)
  return (body.liveInputCount, body.liveOutputCount, inputs, outputs)

def validateBodySemanticsNoHash (body : TxBody) : Except PublicLogicError Unit := do
  require (body.validityBitmap &&& (2 ^ 16 - 1 - TX_VALIDITY_MASK) = 0) (.bitmapHighBits body.validityBitmap)
  body.inputs.toList.zipIdx.forM fun (input, index) =>
    require (body.inputIsLive index ∨ input = .dummy) (.deadInputNotZero index)
  body.outputs.toList.zipIdx.forM fun (output, index) =>
    require (body.outputIsLive index ∨ output = .dummy) (.deadOutputNotZero index)
  if body.isCoinbase then
    require (body.inputOwner = 0) .coinbaseInputOwner
    require ((body.validityBitmap = outputBitmapBit 0 ∨
      body.validityBitmap = outputBitmapBit 0 ||| outputBitmapBit 1) ∧ body.fee = 0)
      (.coinbaseBitmap body.validityBitmap)
    uniqueSlots body
  else
    require (body.liveInputCount ≠ 0) .noLiveInputs
    uniqueSlots body
    let (_, _, inputSum, outputSum) ← sums body
    require (outputSum + body.fee < 2 ^ 128) .outputPlusFeeOverflow
    require (inputSum = outputSum + body.fee) (.balanceMismatch inputSum outputSum body.fee)

namespace TxBody

def validateCanonical (body : TxBody) : Except PublicLogicError Unit := validateBodySemanticsNoHash body

/-- The writer asserts that the body is canonical: `none` is the panic. -/
def encode (body : TxBody) : Option Bytes :=
  if body.validateCanonical = .ok () then some (bodyBytes body) else none

def decode : Reader WireError TxBody := do
  let body ← readBody
  liftM (body.validateCanonical.mapError fun _ => WireError.nonCanonicalBody)
  return body

lemma reads_canonical : Reads decode bodyBytes (fun body => body.Fits ∧ body.validateCanonical = .ok ()) := by
  exact reads_body.filter fun body => mapError_eq_ok

lemma encode_of_canonical {body : TxBody} (h : body.validateCanonical = .ok ()) :
    body.encode = some (bodyBytes body) := if_pos h

lemma bitmap_of_canonical {body : TxBody} (h : body.validateCanonical = .ok ()) :
    body.validityBitmap &&& (2 ^ 16 - 1 - TX_VALIDITY_MASK) = 0 := by
  simp only [validateCanonical, validateBodySemanticsNoHash, ok_rules] at h
  exact h.1

end TxBody

end Noid.Tx
