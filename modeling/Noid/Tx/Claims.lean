import Noid.Tx.NativeAssets
import Noid.Tx.PagedSpend

/-! # Claims of a native operation

A native operation consumes a list of raw slots and creates another: no slot is named twice, and each claim is bound to
its opening. -/

namespace Noid.Tx

open Noid.Lib

structure NativeInputClaim where
  input : TxInput
  root : Address
  opening : Option NativeOpening
deriving DecidableEq, Repr

structure NativeOutputClaim where
  output : TxOutput
  opening : Option NativeOpening
deriving DecidableEq, Repr

/-- Context supplied by the admitting block and its Owner statement. -/
structure NativeContext where
  chain : Digest
  height : ℕ
  authority : Address
  fee : ℕ
deriving DecidableEq, Repr

/-- Each true entry of `outputIsNative` is allocated in the native namespace. -/
structure NativeTransitionFacts where
  nativeInputs : ℕ
  nativeOutputs : ℕ
  outputIsNative : List Bool
  redeemedUnits : ℕ
  redemptionMicronoid : ℕ
  reserveContributionMicronoid : ℕ
  nftItems : ℕ
deriving DecidableEq, Repr

def claimSlots (inputs : List NativeInputClaim) (outputs : List NativeOutputClaim) : List ℕ :=
  inputs.map (·.input.slotIndex) ++ outputs.map (·.output.slotIndex)

def noidIn (inputs : List NativeInputClaim) : ℕ := (inputs.map (·.input.amount)).sum

def noidOut (outputs : List NativeOutputClaim) : ℕ := (outputs.map (·.output.amount)).sum

def openingsBefore (inputs : List NativeInputClaim) : List NativeOpening := inputs.filterMap (·.opening)

def openingsAfter (outputs : List NativeOutputClaim) : List NativeOpening := outputs.filterMap (·.opening)

/-- The facts of an operation that redeems nothing. -/
def NativeTransitionFacts.ofClaims (inputs : List NativeInputClaim) (outputs : List NativeOutputClaim)
    (nftItems : ℕ) : NativeTransitionFacts where
  nativeInputs := (openingsBefore inputs).length
  nativeOutputs := (openingsAfter outputs).length
  outputIsNative := outputs.map (·.opening.isSome)
  redeemedUnits := 0
  redemptionMicronoid := 0
  reserveContributionMicronoid := 0
  nftItems := nftItems

/-- A creation id of the ordinary or the coinbase namespace. -/
def OrdinaryIncarnation (id : ℕ) : Prop :=
  id ≠ 0 ∧ ¬(NATIVE_CREATION_TAG ≤ id ∧ id < COINBASE_CREATION_TAG)

instance (id : ℕ) : Decidable (OrdinaryIncarnation id) := by unfold OrdinaryIncarnation; infer_instance

/-- A consumed carrier is bound to its opening, or is an ordinary incarnation. -/
def InputClaimOk (H : NativeHash) (c : NativeInputClaim) : Prop :=
  match c.opening with
  | some o => o.checkInputBinding H c.input c.root = .ok ()
  | none => OrdinaryIncarnation c.input.creationId

/-- A created carrier is bound to its opening. -/
def OutputClaimOk (H : NativeHash) (c : NativeOutputClaim) : Prop :=
  ∀ o, c.opening = some o → o.checkOutput H c.output = .ok ()

/-- What every accepted operation guarantees of its claims. -/
structure ClaimsOk (H : NativeHash) (inputs : List NativeInputClaim) (outputs : List NativeOutputClaim) :
    Prop where
  slots : (claimSlots inputs outputs).Nodup
  input : ∀ c ∈ inputs, InputClaimOk H c
  output : ∀ c ∈ outputs, OutputClaimOk H c

end Noid.Tx
