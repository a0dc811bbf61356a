import Noid.Lib.Codec
import Noid.Tx.Types

/-! # The page record

A page is a fixed record of 323 bytes.  Numbers are little-endian; digests and addresses are written as they are, and the
model reads them as big-endian numbers.  A value of the model is one of the source if its fields fit their types. -/

namespace Noid.Tx

open Noid.Lib List

inductive WireError where
  | truncated | trailingBytes | invalidBool | badMarker | nonCanonicalBody | lengthOverflow
deriving DecidableEq, Repr

def TX_INPUT_WIRE_SIZE : ℕ := 4 + 8 + 8

def TX_OUTPUT_WIRE_SIZE : ℕ := 4 + 8 + 32

def TX_BODY_WIRE_SIZE : ℕ :=
  32 + 8 + 32 + TX_INPUTS * TX_INPUT_WIRE_SIZE + TX_OUTPUTS * TX_OUTPUT_WIRE_SIZE + 2 + 1

/-! ### Words -/

def IsU16 (n : ℕ) : Prop := n < 2 ^ 16
deriving Decidable

def IsU32 (n : ℕ) : Prop := n < 2 ^ 32
deriving Decidable

def IsU64 (n : ℕ) : Prop := n < 2 ^ 64
deriving Decidable

def IsU128 (n : ℕ) : Prop := n < 2 ^ 128
deriving Decidable

/-- A number of 32 bytes. -/
def IsDigest (d : Digest) : Prop := d < 2 ^ 256
deriving Decidable

def takeU16 : Reader WireError ℕ := takeLe .truncated 2

def takeU32 : Reader WireError ℕ := takeLe .truncated 4

def takeU64 : Reader WireError ℕ := takeLe .truncated 8

def takeDigest : Reader WireError Digest := takeBe .truncated 32

def takeBool : Reader WireError Bool := do
  let n ← takeLe .truncated 1
  match n with
  | 0 => return false
  | 1 => return true
  | _ => throw .invalidBool

/-- A mark as a byte. -/
def boolBytes (b : Bool) : Bytes := leBytes 1 b.toNat

lemma reads_u16 : Reads takeU16 (leBytes 2) IsU16 := reads_le _ 2

lemma reads_u32 : Reads takeU32 (leBytes 4) IsU32 := reads_le _ 4

lemma reads_u64 : Reads takeU64 (leBytes 8) IsU64 := reads_le _ 8

lemma reads_digest : Reads takeDigest (beBytes 32) IsDigest := reads_be _ 32

lemma reads_bool : Reads takeBool boolBytes (fun _ => True) := by
  refine ⟨fun b rest _ => ?_, fun src b rest h => ?_⟩
  · rw [takeBool, boolBytes, (reads_le _ 1).run_bind (by cases b <;> decide)]
    cases b <;> rfl
  · simp only [takeBool, (reads_le _ 1).bind_eq_ok] at h
    obtain ⟨n, mid, ⟨-, rfl⟩, h⟩ := h
    split at h
    · obtain ⟨rfl, rfl⟩ := Reader.pure_eq_ok.mp h
      exact ⟨trivial, rfl⟩
    · obtain ⟨rfl, rfl⟩ := Reader.pure_eq_ok.mp h
      exact ⟨trivial, rfl⟩
    · cases h

/-! ### Inputs and outputs -/

/-- The fields fit their types. -/
@[mk_iff] structure TxInput.Fits (i : TxInput) : Prop where
  slotIndex : IsU32 i.slotIndex
  amount : IsU64 i.amount
  creationId : IsU64 i.creationId

@[mk_iff] structure TxOutput.Fits (o : TxOutput) : Prop where
  slotIndex : IsU32 o.slotIndex
  amount : IsU64 o.amount
  owner : IsDigest o.owner

instance (i : TxInput) : Decidable i.Fits := decidable_of_iff' _ i.fits_iff

instance (o : TxOutput) : Decidable o.Fits := decidable_of_iff' _ o.fits_iff

def TxInput.encode (i : TxInput) : Bytes := leBytes 4 i.slotIndex ++ leBytes 8 i.amount ++ leBytes 8 i.creationId

def TxInput.decode : Reader WireError TxInput := do
  let slotIndex ← takeU32
  let amount ← takeU64
  let creationId ← takeU64
  return { slotIndex, amount, creationId }

def TxOutput.encode (o : TxOutput) : Bytes := leBytes 4 o.slotIndex ++ leBytes 8 o.amount ++ beBytes 32 o.owner

def TxOutput.decode : Reader WireError TxOutput := do
  let slotIndex ← takeU32
  let amount ← takeU64
  let owner ← takeDigest
  return { slotIndex, amount, owner }

lemma reads_input : Reads TxInput.decode TxInput.encode TxInput.Fits := by
  refine .of_iff fun src ⟨_, _, _⟩ rest => ?_
  simp only [TxInput.decode, TxInput.encode, append_assoc, reads_u32.bind_eq_ok, reads_u64.bind_eq_ok, Reader.pure_eq_ok,
    existsAndEq, TxInput.mk.injEq, TxInput.fits_iff]
  tauto

lemma reads_output : Reads TxOutput.decode TxOutput.encode TxOutput.Fits := by
  refine .of_iff fun src ⟨_, _, _⟩ rest => ?_
  simp only [TxOutput.decode, TxOutput.encode, append_assoc, reads_u32.bind_eq_ok, reads_u64.bind_eq_ok,
    reads_digest.bind_eq_ok, Reader.pure_eq_ok, existsAndEq, TxOutput.mk.injEq, TxOutput.fits_iff]
  tauto

/-! ### Pages -/

/-- The fields fit their types. -/
@[mk_iff] structure TxBody.Fits (b : TxBody) : Prop where
  epochAnchor : IsDigest b.epochAnchor
  fee : IsU64 b.fee
  inputOwner : IsDigest b.inputOwner
  inputs : ∀ i ∈ b.inputs.toList, i.Fits
  outputs : ∀ o ∈ b.outputs.toList, o.Fits
  validityBitmap : IsU16 b.validityBitmap

instance (b : TxBody) : Decidable b.Fits := decidable_of_iff' _ b.fits_iff

/-- The record of a page. -/
def bodyBytes (b : TxBody) : Bytes :=
  beBytes 32 b.epochAnchor ++ leBytes 8 b.fee ++ beBytes 32 b.inputOwner ++ b.inputs.toList.flatMap TxInput.encode ++
    b.outputs.toList.flatMap TxOutput.encode ++ leBytes 2 b.validityBitmap ++ boolBytes b.isCoinbase

def readBody : Reader WireError TxBody := do
  let epochAnchor ← takeDigest
  let fee ← takeU64
  let inputOwner ← takeDigest
  let inputs ← readVector TxInput.decode TX_INPUTS
  let outputs ← readVector TxOutput.decode TX_OUTPUTS
  let validityBitmap ← takeU16
  let isCoinbase ← takeBool
  return { epochAnchor, fee, inputOwner, inputs, outputs, validityBitmap, isCoinbase }

/-- **The page record.** -/
theorem reads_body : Reads readBody bodyBytes TxBody.Fits := by
  refine .of_iff fun src ⟨_, _, _, _, _, _, _⟩ rest => ?_
  simp only [readBody, bodyBytes, append_assoc, reads_digest.bind_eq_ok, reads_u64.bind_eq_ok,
    (reads_vector reads_input _).bind_eq_ok, (reads_vector reads_output _).bind_eq_ok, reads_u16.bind_eq_ok,
    reads_bool.bind_eq_ok, Reader.pure_eq_ok, existsAndEq, TxBody.mk.injEq, TxBody.fits_iff]
  tauto

lemma length_encode_input (i : TxInput) : i.encode.length = TX_INPUT_WIRE_SIZE := by
  simp [TxInput.encode, TX_INPUT_WIRE_SIZE]

lemma length_encode_output (o : TxOutput) : o.encode.length = TX_OUTPUT_WIRE_SIZE := by
  simp [TxOutput.encode, TX_OUTPUT_WIRE_SIZE]

lemma length_bodyBytes (b : TxBody) : (bodyBytes b).length = TX_BODY_WIRE_SIZE := by
  simp only [bodyBytes, boolBytes, length_append, length_flatMap, length_leBytes, length_beBytes,
    length_encode_input, length_encode_output, map_const', sum_replicate_nat, Vector.length_toList]
  rfl

end Noid.Tx
