import Dynec.Scheduler.Safety
import Dynec.World.Ordering
import Dynec.Entity.FreeSet
import Dynec.Entity.Agreement
import Dynec.World.Init
import Dynec.World.Machine
import Dynec.World.Effects
import Dynec.World.Values
import Dynec.World.Snapshots
import Dynec.World.Registered
import Dynec.World.Books
import Dynec.World.Leftovers
import Dynec.World.Deletion
import Dynec.World.Erasure
import Dynec.World.Drain
import Dynec.World.Handover
import Dynec.World.Declared
import Dynec.Lib.SortedMap
import Dynec.Storage.Vec
import Dynec.Storage.Refinement
import Dynec.Storage.ManyMut
import Dynec.Storage.Partitions
import Dynec.Entity.Slices
import Dynec.System.Iter
import Dynec.System.Parallel
import Dynec.System.Chunked
import Dynec.Entity.Numbers
import Dynec.World.Totality
import Dynec.World.Finalizers
import Dynec.Lib.Locks
import Dynec.World.Locks
import Dynec.Scheduler.Executor
import Dynec.Scheduler.Wakeups
import Dynec.World.Twins
import Dynec.World.Assignment
import Dynec.Scheduler.Detection
import Dynec.World.Toposort
import Dynec.Comp.Discrim
import Dynec.Entity.Levels
import Dynec.Comp.Maps
import Dynec.Comp.Arrays
import Dynec.Comp.Inserts
import Dynec.System.Isotope
import Dynec.Lib.Nested
import Dynec.System.Serial
import Dynec.Lib.Runs
import Dynec.Storage.Chunks
import Dynec.Storage.Fetches
import Dynec.Entity.Exhaustion
import Dynec.Entity.Midpoints
import Dynec.Scheduler.Tracing
import Dynec.Scheduler.Trimming
import Dynec.World.Alone
import Dynec.Entity.Referrer
import Dynec.Scheduler.Conflicts
import Dynec.Lib.Work
import Dynec.Scheduler.Interrupts
import Dynec.Scheduler.Acceptance
import Dynec.Scheduler.Dispatch
import Dynec.World.Counters
import Dynec.World.Operations
import Dynec.World.References
import Dynec.World.Weak
import Dynec.Entity.Visiting
import Dynec.Scheduler.Placement
import Dynec.Scheduler.Replay
import Dynec.System.Single
import Dynec.World.Dangling
import Dynec.World.Enumeration
import Dynec.World.Contents
