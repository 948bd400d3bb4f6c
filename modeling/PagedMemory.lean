import PagedMemory.Proofs.Bits.Entries
import PagedMemory.Proofs.Frame.Order
import PagedMemory.Proofs.Frame.Processors
import PagedMemory.Proofs.Frame.Stack
import PagedMemory.Proofs.Heap.FirstFit
import PagedMemory.Proofs.Locking.Deadlock
import PagedMemory.Proofs.Logging.Observation
import PagedMemory.Proofs.Ownership.Arithmetic
import PagedMemory.Proofs.Ownership.Coverage
import PagedMemory.Proofs.Ownership.DataIndependence
import PagedMemory.Proofs.Ownership.Demand
import PagedMemory.Proofs.Ownership.Refusal
import PagedMemory.Proofs.Ownership.Survival
import PagedMemory.Proofs.Paging.Levels
import PagedMemory.Proofs.Paging.Resumption
import PagedMemory.Proofs.Region.BothEnds
import PagedMemory.Proofs.Startup.Consistency
import PagedMemory.Proofs.Sync.Additions
import PagedMemory.Proofs.Sync.Publication
import PagedMemory.Session.Arena
import PagedMemory.Session.Edit
import PagedMemory.Session.FrameWalk
import PagedMemory.Session.Lock
import PagedMemory.Session.Machine
import PagedMemory.Session.Once
import PagedMemory.Session.Tree
