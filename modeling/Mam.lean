import Mam.Library.Loop
import Mam.Basic
import Mam.Library.Alignment
import Mam.Library.Execution
import Mam.Vendor.UTArray
import Mam.Vendor.UTHash
import Mam.MirroredAllocators.FindInBuffer
import Mam.MirroredAllocators.Calls
import Mam.MirroredAllocators.Growth
import Mam.MirroredAllocators.GrowthEnds
import Mam.MirroredAllocators.RegionFits
import Mam.MirroredAllocators.InPlace
import Mam.MirroredAllocators.Served
import Mam.Library.Arena
import Mam.MirroredAllocators.Regions
import Mam.MirroredAllocators.RegionsOk
import Mam.MirroredAllocators.Release
import Mam.MirroredAllocators.FailedAllocation
import Mam.MirroredAllocators.Descriptors
import Mam.Library.Mirror
import Mam.MirroredAllocators.Mirrored
import Mam.MirroredAllocators.OwnMemory
import Mam.Library.Doubling
import Mam.MirroredAllocators.Geometric
import Mam.Library.Pool
import Mam.MirroredAllocators.Footprint
import Mam.CopyEngine.Types
import Mam.CopyEngine.Model
import Mam.CopyEngine.Effect
import Mam.CopyEngine.Graph
import Mam.CopyEngine.Runs
import Mam.CopyEngine.Cached
import Mam.Library.Acyclic
import Mam.CopyEngine.Containment
import Mam.Capacity
import Mam.CopyEngine.Frozen
import Mam.CopyEngine.AllOrNothing
import Mam.CopyEngine.Records
import Mam.CopyEngine.VariableSize
import Mam.CopyEngine.Layout
import Mam.CopyEngine.Built
import Mam.CopyEngine.Leaves
import Mam.CopyEngine.NaturalAlignment
import Mam.CopyEngine.Lengths
import Mam.Library.Named
import Mam.CopyEngine.Getters
import Mam.CopyEngine.Names
import Mam.CopyEngine.Lookup
import Mam.CopyEngine.Destroy
import Mam.CopyEngine.Ownership
import Mam.CopyEngine.Lifetime
import Mam.Library.Sequential
import Mam.CopyEngine.Members
import Mam.CopyEngine.StructLayout
import Mam.Library.Overlaid
import Mam.CopyEngine.UnionLayout
import Mam.CopyEngine.Declaration
import Mam.CopyEngine.Declared
import Mam.CopyEngine.ArraySize
import Mam.CopyEngine.ArrayOverflow
import Mam.CopyEngine.LayoutOverflow
import Mam.CopyEngine.Tags
import Mam.CopyEngine.Platforms
import Mam.CopyEngine.HostMap
import Mam.Library.Linked
import Mam.Vendor.HashTable
import Mam.Library.Simulation
import Mam.Vendor.HashIntegrity
import Mam.Vendor.HashLookup
import Mam.Vendor.HashInsertion
import Mam.Vendor.HashFsck
import Mam.Vendor.HashRuns
import Mam.Vendor.HashGrowth
import Mam.Vendor.HashRefinement
import Mam.Vendor.HashJen
import Mam.CopyEngine.Hashed
import Mam.CopyEngine.HashedCalls
import Mam.CopyEngine.HashedRuns
import Mam.Library.Owners
import Mam.CopyEngine.Estates
import Mam.CopyEngine.Teardown
import Mam.CopyEngine.History
import Mam.CopyEngine.Answers
import Mam.CopyEngine.Isolation
import Mam.CopyEngine.HashedEnds
