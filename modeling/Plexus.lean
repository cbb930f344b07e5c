import Plexus.Accessors.SnapshotLaws
import Plexus.BigMapAccounting
import Plexus.BlockTimes
import Plexus.Counters
import Plexus.Crypto.Base58
import Plexus.Crypto.MerklePaths
import Plexus.Crypto.PvssCompleteness
import Plexus.Encoding.ReceiptEncoding
import Plexus.Endorsements
import Plexus.ManagerBatches
import Plexus.Michelson.Concatenation
import Plexus.Michelson.Packing
import Plexus.Michelson.TypeRoundTrip
import Plexus.P2p.IoScheduler
import Plexus.Quorum
import Plexus.Shell.BlockLocator
import Plexus.Shell.FitnessOrder
import Plexus.Shell.NoReplay
import Plexus.Shell.PurgeRuns
import Plexus.Shell.Replay
import Plexus.Shell.StoredChains
import Plexus.SnapshotChains
