import Iostash.Util.Chain
import Iostash.Util.Run
import Iostash.Util.Pool
import Iostash.Util.Clock
import Iostash.Util.Recent
import Iostash.Util.Writers
import Iostash.Util.Text
import Iostash.Util.History
import Iostash.Util.Locks
import Iostash.Sce.Ranges
import Iostash.Sce.Interface
import Iostash.Sce.Shape
import Iostash.Sce.View
import Iostash.Sce.Invariant
import Iostash.Sce.Reclaim
import Iostash.Sce.Reading
import Iostash.Sce.Invalidation
import Iostash.Sce.Allocation
import Iostash.Sce.Populating
import Iostash.Sce.Configuring
import Iostash.Sce.Unplugging
import Iostash.Sce.Call
import Iostash.Sce.Clock
import Iostash.Sce.Runs
import Iostash.Sce.Sweep
import Iostash.Sce.Coverage
import Iostash.Sce.Tail
import Iostash.Sce.Bounds
import Iostash.Sce.Recent
import Iostash.Sce.Removal
import Iostash.Sce.Locking
import Iostash.Sce.Within
import Iostash.Sce.Discipline
import Iostash.Sce.Invalidated
import Iostash.Sce.Window
import Iostash.Sce.Reuse
import Iostash.Sce.Counted
import Iostash.Sce.Scores
import Iostash.Sce.Scored
import Iostash.Sce.Lasting
import Iostash.Sce.Paid
import Iostash.Sce.LockOrder
import Iostash.Client.World
import Iostash.Client.Turn
import Iostash.Client.Frame
import Iostash.Client.Cached
import Iostash.Client.Taking
import Iostash.Client.Evicting
import Iostash.Client.Pairing
import Iostash.Client.Returning
import Iostash.Client.Tally
import Iostash.Client.Contexts
import Iostash.Client.Holding
import Iostash.Client.Settling
import Iostash.Client.Partition
import Iostash.Client.Matching
import Iostash.Client.Completing
import Iostash.Client.Occupancy
import Iostash.Client.Counting
import Iostash.Pdm.Thread
import Iostash.Pdm.Throttle
import Iostash.Pdm.Polling
import Iostash.Pdm.Ending
import Iostash.Driver.Commands
import Iostash.Driver.Targets
import Iostash.Driver.Teardown
import Iostash.Driver.Safety
import Iostash.Driver.Unloading
import Iostash.Driver.Outliving
import Iostash.Driver.Caches
import Iostash.Driver.Devices
import Iostash.Driver.Enrolling
import Iostash.Driver.Serving
import Iostash.Driver.Lodging
import Iostash.Hook.Address
import Iostash.Hook.Request
import Iostash.Hook.Life
import Iostash.Hook.Ending
import Iostash.Hook.Writes
import Iostash.Block.Store
import Iostash.Block.Copies
import Iostash.Block.Coherence
import Iostash.Block.Order
import Iostash.Block.Apart
import Iostash.Awt.Fragment
import Iostash.Awt.Pages
import Iostash.Awt.Writes
