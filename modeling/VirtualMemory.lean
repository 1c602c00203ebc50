import VirtualMemory.Library.FlatMemory
import VirtualMemory.Library.Ledger
import VirtualMemory.Library.Outcome
import VirtualMemory.Library.Run
import VirtualMemory.ConcurrentFaults
import VirtualMemory.Faults
import VirtualMemory.MasterRoundTrip
import VirtualMemory.Cloning
import VirtualMemory.Constructor
import VirtualMemory.FrameLocks
import VirtualMemory.MutexOrder
import VirtualMemory.LockBalance
import VirtualMemory.FrameAccounts
import VirtualMemory.SegmentRanges
import VirtualMemory.PrivateRuns
import VirtualMemory.PagingStops
import VirtualMemory.PrivateFaults
import VirtualMemory.SharedFaults
import VirtualMemory.SafeVictims
import VirtualMemory.CreationOrder
import VirtualMemory.SegmentDeletes
import VirtualMemory.LockedRemovals
import VirtualMemory.PagingRuns
import VirtualMemory.TableRoundTrip
import VirtualMemory.StrayFaults
import VirtualMemory.WriteBack
import VirtualMemory.SlotVector
import VirtualMemory.OffPaging
import VirtualMemory.DiskVacancy
import VirtualMemory.PageList
import VirtualMemory.FrameNumbers
import VirtualMemory.RegistryRuns
import VirtualMemory.MemoryRuns
import VirtualMemory.SharedMemory
import VirtualMemory.SharedViews
import VirtualMemory.Snapshots
import VirtualMemory.Protection
import VirtualMemory.CallEffects
import VirtualMemory.SystemAccounts
import VirtualMemory.SharedClones
import VirtualMemory.TestRuns
