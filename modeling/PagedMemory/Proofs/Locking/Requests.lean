import PagedMemory.Proofs.Locking.Heap
/-!
# Requests among others

The frame pool, the kernel map and the heap as processors share them, and what is asked of them:
every public operation, as it is carried out with nobody else about, and as the program with locks
that carries it out among others.
-/
namespace PagedMemory

open Locking

/-- How many frames were ever added: the number never changes, so no lock is taken to read it. -/
def FramePool.totalCount : Step (Store FramePool) Nat := do return (← get).frames.total

namespace Paging

/-- What an address is mapped to, as it is looked up in the tables. -/
def lookUp (target : Option PageMap) (virt : VirtualAddress) :
    Op PagingError PagingStore (Option PhysicalAddress) := do
  Op.ofCheck (translate (← get) target virt)

def stateName : Step PagingStore String := do return (← get).kernelMap.stateName

def root? : Step PagingStore (Option Frame) := do return (← get).kernelMap.root?

end Paging

namespace Heap

/-- What is counted of a heap. -/
inductive Statistic
  | expansions
  | freeBytes
  | arenaBytes

def measure (statistic : Statistic) : Step HeapStore Nat := do
  let s ← get
  match statistic with
  | .expansions => return s.heap.expansions
  | .freeBytes => return s.heap.freeBytes s.store.ram
  | .arenaBytes => return s.heap.arenaBytes

end Heap

/-- What the processors share. -/
structure MemoryCore where
  kernelMap : KernelMap
  heap : Heap
  store : Store FramePool

namespace MemoryCore

section

variable {ε α : Type}

def paging (m : MemoryCore) : PagingStore := ⟨m.kernelMap, m.store⟩

def setPaging (t : PagingStore) (m : MemoryCore) : MemoryCore :=
  { m with kernelMap := t.kernelMap, store := t.store }

def heapStore (m : MemoryCore) : HeapStore := ⟨m.heap, m.store⟩

def setHeapStore (t : HeapStore) (m : MemoryCore) : MemoryCore :=
  { m with heap := t.heap, store := t.store }

def setStore (t : Store FramePool) (m : MemoryCore) : MemoryCore := { m with store := t }

def onStore (x : EStateM ε (Store FramePool) α) : EStateM ε MemoryCore α := onPart store setStore x

def onPaging (x : EStateM ε PagingStore α) : EStateM ε MemoryCore α := onPart paging setPaging x

def onHeap (x : EStateM ε HeapStore α) : EStateM ε MemoryCore α := onPart heapStore setHeapStore x

def lockedOnStore (x : Locking (Store FramePool) ε α) : Locking MemoryCore ε α :=
  x.onPart store setStore

def lockedOnPaging (x : Locking PagingStore ε α) : Locking MemoryCore ε α :=
  x.onPart paging setPaging

def lockedOnHeap (x : Locking HeapStore ε α) : Locking MemoryCore ε α :=
  x.onPart heapStore setHeapStore

variable {held : List LockName}

theorem implements_lockedOnStore {x : Locking (Store FramePool) ε α}
    {y : EStateM ε (Store FramePool) α} (h : Implements held x y) :
    Implements held (lockedOnStore x) (onStore y) :=
  h.onPart ⟨fun _ _ => rfl, fun _ _ _ => rfl, fun _ => rfl⟩

theorem implements_lockedOnPaging {x : Locking PagingStore ε α} {y : EStateM ε PagingStore α}
    (h : Implements held x y) : Implements held (lockedOnPaging x) (onPaging y) :=
  h.onPart ⟨fun _ _ => rfl, fun _ _ _ => rfl, fun _ => rfl⟩

theorem implements_lockedOnHeap {x : Locking HeapStore ε α} {y : EStateM ε HeapStore α}
    (h : Implements held x y) : Implements held (lockedOnHeap x) (onHeap y) :=
  h.onPart ⟨fun _ _ => rfl, fun _ _ _ => rfl, fun _ => rfl⟩

end

/-- What is asked of the memory core. -/
inductive Request
  | allocateFrame
  | takeFrame
  | releaseFrame (f : Frame)
  | freeFrames
  | totalFrames
  | initPaging (memoryMap : List Region) (image : KernelImage)
  | createTable
  | mapPage (target : Option PageMap) (virt : VirtualAddress) (phys : PhysicalAddress)
    (size : PageSize)
  | translate (target : Option PageMap) (virt : VirtualAddress)
  | kernelCr3
  | loadKernelMap
  | kernelMapState
  | kernelMapRoot
  | initHeap (bytes : Nat)
  | growHeap (pages : Nat)
  | allocate (size : Nat)
  | free (p : VirtualAddress)
  | reallocate (p : VirtualAddress) (size : Nat)
  | allocLayout (layout : Layout)
  | allocZeroed (layout : Layout)
  | reallocLayout (p : VirtualAddress) (layout : Layout) (size : Nat)
  | heapStatistic (statistic : Heap.Statistic)

namespace Request

/-- What a request gives if it succeeds. -/
def Value : Request → Type
  | allocateFrame | initPaging .. => Frame
  | takeFrame | kernelMapRoot => Option Frame
  | releaseFrame _ | mapPage .. | free _ => Unit
  | createTable => PageMap
  | translate .. => Option PhysicalAddress
  | kernelCr3 | loadKernelMap => Cr3
  | kernelMapState => String
  | allocate _ | reallocate .. => VirtualAddress
  | allocLayout _ | allocZeroed _ | reallocLayout .. => Option VirtualAddress
  | freeFrames | totalFrames | initHeap _ | growHeap _ | heapStatistic _ => Nat

/-- How a request ends if it does not. -/
def Failure : Request → Type
  | allocateFrame => Stop OutOfFrames
  | initPaging .. | createTable | mapPage .. | translate .. | kernelCr3 | loadKernelMap =>
    Stop PagingError
  | initHeap _ | allocate _ | reallocate .. => Stop HeapError
  | _ => Fault

/-- Carries a request out with nobody else about. -/
def perform : (r : Request) → EStateM r.Failure MemoryCore r.Value
  | allocateFrame => onStore FramePool.allocate
  | takeFrame => onStore FramePool.take?
  | releaseFrame f => onStore (FramePool.release f)
  | freeFrames => onStore FramePool.freeCount
  | totalFrames => onStore FramePool.totalCount
  | initPaging memoryMap image => onPaging (Paging.initPaging memoryMap image)
  | createTable => onPaging Paging.createTable
  | mapPage target virt phys size => onPaging (Paging.memoryMap target virt phys size)
  | translate target virt => onPaging (Paging.lookUp target virt)
  | kernelCr3 => onPaging Paging.kernelCr3
  | loadKernelMap => onPaging Paging.loadKernelMap
  | kernelMapState => onPaging Paging.stateName
  | kernelMapRoot => onPaging Paging.root?
  | initHeap bytes => onHeap (Heap.init bytes)
  | growHeap pages => onHeap (Heap.expand pages)
  | allocate size => onHeap (Heap.allocate size)
  | free p => onHeap (Heap.free p)
  | reallocate p size => onHeap (Heap.reallocate p size)
  | allocLayout layout => onHeap (Heap.allocLayout layout)
  | allocZeroed layout => onHeap (Heap.allocZeroed layout)
  | reallocLayout p layout size => onHeap (Heap.reallocLayout p layout size)
  | heapStatistic statistic => onHeap (Heap.measure statistic)

/-- The same among others: where it takes locks, and where it gives them up. -/
def program : (r : Request) → Locking MemoryCore r.Failure r.Value
  | allocateFrame => lockedOnStore FramePool.lockedAllocate
  | takeFrame => lockedOnStore FramePool.lockedTake?
  | releaseFrame f => lockedOnStore (FramePool.lockedRelease f)
  | freeFrames => lockedOnStore FramePool.lockedFreeCount
  | totalFrames => lockedOnStore (lift FramePool.totalCount)
  | initPaging memoryMap image => lockedOnPaging (Paging.lockedInitPaging memoryMap image)
  | createTable => lockedOnPaging Paging.lockedCreateTable
  | mapPage target virt phys size =>
    lockedOnPaging (Paging.lockedMemoryMap target virt phys size)
  | translate target virt =>
    lockedOnPaging (withLock .kernelMap (lift (Paging.lookUp target virt)))
  | kernelCr3 => lockedOnPaging (withLock .kernelMap (lift Paging.kernelCr3))
  | loadKernelMap => lockedOnPaging (withLock .kernelMap (lift Paging.loadKernelMap))
  | kernelMapState => lockedOnPaging (withLock .kernelMap (lift Paging.stateName))
  | kernelMapRoot => lockedOnPaging (withLock .kernelMap (lift Paging.root?))
  | initHeap bytes => lockedOnHeap (Heap.lockedInit bytes)
  | growHeap pages => lockedOnHeap (Heap.lockedGrow pages)
  | allocate size => lockedOnHeap (Heap.lockedAllocate size)
  | free p => lockedOnHeap (Heap.lockedFree p)
  | reallocate p size => lockedOnHeap (Heap.lockedReallocate p size)
  | allocLayout layout => lockedOnHeap (Heap.lockedAllocLayout layout)
  | allocZeroed layout => lockedOnHeap (Heap.lockedAllocZeroed layout)
  | reallocLayout p layout size => lockedOnHeap (Heap.lockedReallocLayout p layout size)
  | heapStatistic statistic => lockedOnHeap (withLock .heap (lift (Heap.measure statistic)))

/-- Every request takes its locks in order and gives all of them up, and alone it does what the
operation does. -/
theorem implements_program (r : Request) : Implements [] r.program r.perform := by
  cases r with
  | allocateFrame => exact implements_lockedOnStore (FramePool.implements_lockedAllocate (by simp))
  | takeFrame => exact implements_lockedOnStore (FramePool.implements_lockedTake? (by simp))
  | releaseFrame f =>
    exact implements_lockedOnStore (FramePool.implements_lockedRelease f (by simp))
  | freeFrames => exact implements_lockedOnStore (FramePool.implements_lockedFreeCount (by simp))
  | totalFrames => exact implements_lockedOnStore (.lift _)
  | initPaging => exact implements_lockedOnPaging (Paging.implements_lockedInitPaging _ _)
  | createTable => exact implements_lockedOnPaging Paging.implements_lockedCreateTable
  | mapPage => exact implements_lockedOnPaging (Paging.implements_lockedMemoryMap _ _ _ _)
  | translate => exact implements_lockedOnPaging (.withLock_nil (.lift _))
  | kernelCr3 => exact implements_lockedOnPaging (.withLock_nil (.lift _))
  | loadKernelMap => exact implements_lockedOnPaging (.withLock_nil (.lift _))
  | kernelMapState => exact implements_lockedOnPaging (.withLock_nil (.lift _))
  | kernelMapRoot => exact implements_lockedOnPaging (.withLock_nil (.lift _))
  | initHeap bytes => exact implements_lockedOnHeap (Heap.implements_lockedInit bytes)
  | growHeap pages => exact implements_lockedOnHeap (Heap.implements_lockedGrow pages)
  | allocate size => exact implements_lockedOnHeap (Heap.implements_lockedAllocate size)
  | free p => exact implements_lockedOnHeap (Heap.implements_lockedFree p)
  | reallocate p size => exact implements_lockedOnHeap (Heap.implements_lockedReallocate p size)
  | allocLayout layout => exact implements_lockedOnHeap (Heap.implements_lockedAllocLayout layout)
  | allocZeroed layout => exact implements_lockedOnHeap (Heap.implements_lockedAllocZeroed layout)
  | reallocLayout => exact implements_lockedOnHeap (Heap.implements_lockedReallocLayout _ _ _)
  | heapStatistic => exact implements_lockedOnHeap (.withLock_nil (.lift _))

end Request

end MemoryCore

end PagedMemory
