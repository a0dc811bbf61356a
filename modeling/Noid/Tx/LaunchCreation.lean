import Noid.Tx.Backing
import Noid.Tx.TradeConserve

/-! # The creation of a launch

A launch is created out of ordinary NOID.  The identity of its token is derived from one of the consumed slots, and the
operation creates the definition of the token, its reserve, the control of its market and at most one balance: the first
purchase of the creator. -/

namespace Noid.Tx

open Noid.Lib List

section
variable (H : NativeHash)

/-! ### Identities -/

def GenesisAnchor.validate (a : GenesisAnchor) : Except NativeAssetError Unit :=
  require (a.chain ≠ 0 ∧ a.owner ≠ 0 ∧ a.input.amount ≠ 0 ∧ OrdinaryIncarnation a.input.creationId) .anchor

def LaunchState.initial (d : LaunchDefinition) : Except LaunchError LaunchState := do
  d.validate
  return { launch := d.id H, inventoryUnits := d.initialSupply, marketNoid := 0, generation := 0, queueRoot := 0
           registeredHeight := 0, timeoutHeight := 0, requestCount := 0, phase := .idle }

namespace NativeOpening

def unlockHeight : NativeOpening → ℕ
  | .tokenBalance b => b.unlockHeight
  | .nftItem n => n.unlockHeight
  | _ => 0

def balance : NativeOpening → Option TokenBalance
  | .tokenBalance b => some b
  | _ => none

end NativeOpening

namespace NativeContext

variable (context : NativeContext)

/-- The balances of the outputs: at most one, unlocked, of the creator. -/
def purchase (asset : AssetId) (purchased : Option ℕ) (b : TokenBalance) : Except LaunchError (Option ℕ) := do
  require (b.asset = asset ∧ b.owner = context.authority ∧ b.unlockHeight = 0 ∧ purchased = none) .funding
  return some b.units

end NativeContext

end

/-! ### What an accepted creation leaves -/

section
variable {H : NativeHash} {context : NativeContext} {token : FungibleDefinition} {definition : LaunchDefinition}
  {fundingInput : ℕ} {inputs : List NativeInputClaim} {outputs : List NativeOutputClaim}

end

end Noid.Tx
