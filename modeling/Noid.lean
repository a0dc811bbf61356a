import Noid.Chain.Rollback
import Noid.Tx.TradeLaws
import Noid.Tx.MarketPayout
import Noid.Tx.ApplicationRuns
import Noid.Pruv.VerifySound
import Noid.Chain.MultiproofAgreement
import Noid.Node.HeaderDagRuns
import Noid.Node.CoinSelection
import Noid.Tx.NativeIntentWire
import Noid.Chain.BlockPayloadLaw
import Noid.Chain.Allocator
import Noid.Chain.Difficulty
import Noid.Chain.TradeFees
import Noid.Chain.EpochAnchor
import Noid.Poseidon.Sponge
import Noid.Tx.LaunchCreation
