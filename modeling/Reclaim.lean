import Reclaim.Main
import Reclaim.Upload.Cleanup
import Reclaim.Proofs.Counters
import Reclaim.Proofs.Cruft.Pipeline
import Reclaim.Proofs.Dump.Embedded
import Reclaim.Proofs.Dump.Encoding
import Reclaim.Proofs.Grace
import Reclaim.Proofs.Object.Deletions
import Reclaim.Proofs.Object.Leftovers
import Reclaim.Proofs.Placement.Convergence
import Reclaim.Proofs.Placement.Growth
import Reclaim.Proofs.Placement.Spread
import Reclaim.Proofs.Routing.Shares
import Reclaim.Proofs.Settings
import Reclaim.Proofs.Store.Children
import Reclaim.Proofs.Store.Emptiness
import Reclaim.Proofs.Store.Etags
import Reclaim.Proofs.Store.Locality
import Reclaim.Proofs.Store.Trace
import Reclaim.Proofs.Tool.Concatenation
import Reclaim.Proofs.Tool.Jobs
import Reclaim.Proofs.Tool.Numbers
import Reclaim.Proofs.Upload.Batches
import Reclaim.Proofs.Upload.Calls
import Reclaim.Proofs.Upload.Frame
import Reclaim.Proofs.Upload.Ownership
import Reclaim.Proofs.Upload.Partition
import Reclaim.Proofs.Upload.Recognition
import Reclaim.Proofs.Upload.Reordering
import Reclaim.Proofs.Upload.Retry
import Reclaim.Proofs.Upload.Trees
import Reclaim.Proofs.Wire.Dates
import Reclaim.Proofs.Wire.Extraction
import Reclaim.Proofs.Wire.TabbedKeys
