import Remap.Block.Device
import Remap.Media.Backing
import Remap.Media.Image.Lemmas
import Remap.Media.Probe
import Remap.PageTable.Tree
import Remap.Proofs.Block.Device.Ownership
import Remap.Proofs.Block.Device.PowerLoss
import Remap.Proofs.Block.Device.Reference
import Remap.Proofs.PageTable.Counting
import Remap.Proofs.PageTable.ReadBack
import Remap.Proofs.PageTable.Separate
import Remap.Proofs.PageTable.Spend
import Remap.Proofs.PageTable.Accounting
import Remap.Proofs.Block.Arena.Confined
import Remap.Proofs.Block.Device.Confined
import Remap.Proofs.PageTable.Calls
import Remap.Proofs.Block.Device.Recovery
import Remap.Proofs.Block.Device.Interrupted
import Remap.Proofs.PageTable.Again
import Remap.Proofs.PageTable.Shared
import Remap.Proofs.PageTable.Presence
import Remap.Proofs.PageTable.Frames
import Remap.Proofs.PageTable.Trees
import Remap.Proofs.PageTable.Unmapping
import Remap.Proofs.Block.Flog.Commits
import Remap.Proofs.Block.Flog.Accepted
import Remap.Proofs.Media.Journal
import Remap.Proofs.Block.Attempts
import Remap.Proofs.Block.Arena.Ordered
import Remap.Proofs.Block.Returns
import Remap.Proofs.Block.Device.Partitioned
import Remap.Proofs.Media.Replica
import Remap.Proofs.Block.Arena.Answer
import Remap.Proofs.Block.Arena.Degraded
import Remap.Proofs.Block.Device.Steady
import Remap.Proofs.Block.Device.ReadsAs
import Remap.Proofs.Block.Device.Powered
import Remap.Proofs.Block.Device.Failed
import Remap.Proofs.Block.Layout.Partition
import Remap.Proofs.Block.Layout.Maximal
import Remap.Proofs.PageTable.Replay
import Remap.Proofs.Block.InfoBlock.Stored
import Remap.Proofs.Block.Device.Foreign
import Remap.Proofs.Media.Flat
import Remap.Proofs.Media.PowerCut
import Remap.Proofs.PageTable.Collector
import Remap.Proofs.Block.Arena.Entries
import Remap.Proofs.Block.Device.Checks
import Remap.Proofs.Block.Settings
import Remap.Proofs.Block.Device.Places
import Remap.Proofs.PageTable.Pool
import Remap.Proofs.Bytes.Totals
import Remap.Proofs.PageTable.Fields
