import Noid.Tx.Market

/-! # Activation heights and creation ids

A live slot carries the `creation_id` its mint was given: an ordinary mint takes the next allocator value, a native
carrier the allocator value under the tag bits `01`, the primary coinbase its block height under bit 63. -/

namespace Noid.Chain

open Noid.Tx

/-- The build-time profile: the unified activation height and the chain id native claims name. -/
structure ChainParams where
  v21ActivationHeight : Option ℕ
  nativeChainId : Digest
deriving DecidableEq, Repr

def v21ActiveWith (height : ℕ) (activation : Option ℕ) : Bool :=
  match activation with
  | some at_ => decide (at_ ≤ height)
  | none => false

def ChainParams.v21Active (P : ChainParams) (height : ℕ) : Bool :=
  v21ActiveWith height P.v21ActivationHeight

/-- Tag bits `01`: the carrier of a native opening. -/
def isNativeTagged (creationId : ℕ) : Bool := decide (creationId / NATIVE_CREATION_TAG % 4 = 1)

end Noid.Chain
