import PagedMemory.Paging.KernelMap
import PagedMemory.Proofs.Locking.Program
/-!
# Where page tables take locks

The operations on frames and on page tables as they run on a processor among others. The lock of the
frames is held for single moments: while one frame leaves the list or goes back onto it. An
operation on the kernel map holds the lock of that from start to end, and meanwhile takes the lock
of the frames for each table that it allocates.
-/
namespace PagedMemory

open Locking

variable {held : List LockName} {ε α : Type}

/-! ## Frames -/

namespace FramePool

/-- The lock is given up before the frame is cleared. -/
def lockedTake? : Locking (Store FramePool) Fault (Option Frame) := do
  match ← withLock .frames (lift pop) with
  | none => return none
  | some f => lift do
    clear f
    return some f

theorem implements_lockedTake? (h : .frames ∉ held) : Implements held lockedTake? take? := by
  refine (Implements.withFrames h (.lift pop)).bind fun f => ?_
  cases f with
  | none => exact .pure none
  | some f => exact .lift _

def lockedAllocate : Locking (Store FramePool) (Stop OutOfFrames) Frame := do
  match ← ofStep lockedTake? with
  | none => fail .outOfFrames
  | some f => return f

theorem implements_lockedAllocate (h : .frames ∉ held) :
    Implements held lockedAllocate allocate := by
  refine (implements_lockedTake? h).ofStep.bind fun f => ?_
  cases f with
  | none => exact .fail _
  | some f => exact .pure f

def lockedRelease (f : Frame) : Locking (Store FramePool) Fault Unit :=
  withLock .frames (lift (release f))

theorem implements_lockedRelease (f : Frame) (h : .frames ∉ held) :
    Implements held (lockedRelease f) (release f) := .withFrames h (.lift _)

/-- How many frames are free. -/
def freeCount : EStateM ε (Store FramePool) Nat := do return (← get).frames.free

def lockedFreeCount : Locking (Store FramePool) ε Nat := withLock .frames (lift freeCount)

theorem implements_lockedFreeCount (h : .frames ∉ held) :
    Implements held (lockedFreeCount (ε := ε)) freeCount := .withFrames h (.lift _)

end FramePool

/-! ## Trees -/

namespace AddressSpace

theorem implements_take (h : .frames ∉ held) :
    Implements held (ofStep (ε := ε) FramePool.lockedTake?) (Op.ofStep FrameSource.take) :=
  (FramePool.implements_lockedTake? h).ofStep

def lockedCreate (window : Window) : Locking (Store FramePool) (Stop MapError) AddressSpace := do
  let some root ← ofStep FramePool.lockedTake? | fail (.outOfMemory .pml4)
  lift do
    let table ← Op.ofCheck (window.table root)
    Store.updateRam (·.clearTable table)
    Store.logLine .trace fun _ => "allocated PML4 at " ++ toString root
    return ⟨window, root⟩

theorem implements_lockedCreate (window : Window) (h : .frames ∉ held) :
    Implements held (lockedCreate window) (create window) := by
  refine (implements_take h).bind fun root => ?_
  cases root with
  | none => exact .fail _
  | some root => exact .lift _

def lockedNextTable (space : AddressSpace) (parent : Frame) (i : TableIndex) (level : TableLevel) :
    Locking (Store FramePool) (Stop MapError) Frame := do
  let parentTable ← lift (Op.ofCheck (space.window.table parent))
  let entry := (← lift get).ram.entry parentTable i
  if entry.isTable then
    return entry.frame
  let some frame ← ofStep FramePool.lockedTake? | fail (.outOfMemory level)
  lift do
    let table ← Op.ofCheck (space.window.table frame)
    Store.updateRam (·.clearTable table)
    let link ← Op.ofCheck (Entry.table frame)
    Store.updateRam (·.setEntry parentTable i link)
    Store.logLine .trace fun _ => "allocated " ++ toString level ++ " table at " ++ toString frame
    return frame

theorem implements_lockedNextTable (space : AddressSpace) (parent : Frame) (i : TableIndex)
    (level : TableLevel) (h : .frames ∉ held) :
    Implements held (space.lockedNextTable parent i level) (space.nextTable parent i level) := by
  refine .lift_bind _ fun parentTable => .lift_bind _ fun s => ?_
  by_cases hentry : (s.ram.entry parentTable i).isTable
  · simp only [hentry, if_true]
    exact .pure _
  · simp only [hentry]
    refine (implements_take h).bind fun frame => ?_
    cases frame with
    | none => exact .fail _
    | some frame => exact .lift _

def lockedMapPage (space : AddressSpace) (va : VirtualAddress) (pa : PhysicalAddress)
    (size : PageSize) : Locking (Store FramePool) (Stop MapError) Unit := do
  let i := TableIndices.of va
  let pml3 ← space.lockedNextTable space.root i.pml4 .pml3
  let pml2 ← space.lockedNextTable pml3 i.pml3 .pml2
  match size with
  | .large => lift do
    let table ← Op.ofCheck (space.window.table pml2)
    let leaf ← Op.ofCheck (Entry.largeLeaf (.containing pa))
    Store.updateRam (·.setEntry table i.pml2 leaf)
  | .small =>
    let pml1 ← space.lockedNextTable pml2 i.pml2 .pml1
    lift do
      let table ← Op.ofCheck (space.window.table pml1)
      let leaf ← Op.ofCheck (Entry.leaf (.containing pa))
      Store.updateRam (·.setEntry table i.pml1 leaf)

theorem implements_lockedMapPage (space : AddressSpace) (va : VirtualAddress) (pa : PhysicalAddress)
    (size : PageSize) (h : .frames ∉ held) :
    Implements held (space.lockedMapPage va pa size) (space.mapPage va pa size) := by
  refine (implements_lockedNextTable _ _ _ _ h).bind fun pml3 => ?_
  refine (implements_lockedNextTable _ _ _ _ h).bind fun pml2 => ?_
  cases size with
  | large => exact .lift _
  | small => exact (implements_lockedNextTable _ _ _ _ h).bind fun _ => .lift _

end AddressSpace

/-! ## The kernel map -/

namespace Paging

def lockedOnStore (x : Locking (Store FramePool) ε α) : Locking PagingStore ε α :=
  x.onPart PagingStore.store fun store s => { s with store }

theorem implements_lockedOnStore {x : Locking (Store FramePool) ε α}
    {y : EStateM ε (Store FramePool) α} (h : Implements held x y) :
    Implements held (lockedOnStore x) (onStore y) :=
  h.onPart ⟨fun _ _ => rfl, fun _ _ _ => rfl, fun _ => rfl⟩

def lockedCreateSpace : Locking PagingStore (Stop PagingError) AddressSpace := do
  let map := (← lift get).store.frames.map
  lockedOnStore (mapError .outOfMemory (AddressSpace.lockedCreate (.whole map)))

theorem implements_lockedCreateSpace (h : .frames ∉ held) :
    Implements held lockedCreateSpace createSpace :=
  .lift_bind _ fun _ =>
    implements_lockedOnStore (AddressSpace.implements_lockedCreate _ h).mapError

def lockedMapPage (space : AddressSpace) (virt : VirtualAddress) (phys : PhysicalAddress)
    (size : PageSize) : Locking PagingStore (Stop PagingError) Unit :=
  lockedOnStore (mapError (.mapping virt phys) (space.lockedMapPage virt phys size))

theorem implements_lockedMapPage (space : AddressSpace) (virt : VirtualAddress)
    (phys : PhysicalAddress) (size : PageSize) (h : .frames ∉ held) :
    Implements held (lockedMapPage space virt phys size) (mapPage space virt phys size) :=
  implements_lockedOnStore (AddressSpace.implements_lockedMapPage _ _ _ _ h).mapError

def lockedMapFrames (space : AddressSpace) (virtualOf : PhysicalAddress → VirtualAddress) :
    List Frame → Locking PagingStore (Stop PagingError) Unit
  | [] => return ()
  | f :: rest => do
    lockedMapPage space (virtualOf f.base) f.base .small
    lockedMapFrames space virtualOf rest

theorem implements_lockedMapFrames (space : AddressSpace)
    (virtualOf : PhysicalAddress → VirtualAddress) (fs : List Frame) (h : .frames ∉ held) :
    Implements held (lockedMapFrames space virtualOf fs) (mapFrames space virtualOf fs) := by
  induction fs with
  | nil => exact .pure _
  | cons f rest ih => exact (implements_lockedMapPage _ _ _ _ h).bind fun _ => ih

def lockedMapRegion (space : AddressSpace) (image : KernelImage) (r : Region) :
    Locking PagingStore (Stop PagingError) Unit := do
  if r.kind = .badMemory then
    lift <| onStore <| Store.logLine .debug fun _ => "not mapping bad memory " ++ r.bounds
  else
    let virtualOf := regionAlias space.window.map image r.kind
    lockedMapFrames space virtualOf r.coveringFrames.toList
    lift <| onStore <| Store.logLine .info fun _ =>
      "mapped " ++ r.kind.name ++ " " ++ r.bounds ++ " at " ++ toString (virtualOf r.base)

theorem implements_lockedMapRegion (space : AddressSpace) (image : KernelImage) (r : Region)
    (h : .frames ∉ held) :
    Implements held (lockedMapRegion space image r) (mapRegion space image r) := by
  rw [lockedMapRegion, mapRegion]
  split
  · exact .lift _
  · exact (implements_lockedMapFrames _ _ _ h).bind fun _ => .lift _

def lockedMapRegions (space : AddressSpace) (image : KernelImage) :
    List Region → Locking PagingStore (Stop PagingError) Unit
  | [] => return ()
  | r :: rest => do
    lockedMapRegion space image r
    lockedMapRegions space image rest

theorem implements_lockedMapRegions (space : AddressSpace) (image : KernelImage)
    (rs : List Region) (h : .frames ∉ held) :
    Implements held (lockedMapRegions space image rs) (mapRegions space image rs) := by
  induction rs with
  | nil => exact .pure _
  | cons r rest ih => exact (implements_lockedMapRegion _ _ _ h).bind fun _ => ih

def lockedInitPaging (memoryMap : List Region) (image : KernelImage) :
    Locking PagingStore (Stop PagingError) Frame :=
  withLock .kernelMap do
    if (← lift get).kernelMap.root?.isSome then
      fail .alreadyInitialized
    let space ← lockedCreateSpace
    lockedMapRegions space image memoryMap
    lift do
      modify fun s => { s with kernelMap := .built space.root }
      onStore <| Store.logLine .info fun _ => "kernel map built at " ++ toString space.root
      return space.root

theorem implements_lockedInitPaging (memoryMap : List Region) (image : KernelImage) :
    Implements [] (lockedInitPaging memoryMap image) (initPaging memoryMap image) := by
  have hframes : LockName.frames ∉ [LockName.kernelMap] := by decide
  refine .withLock_nil <| .lift_bind _ fun s => ?_
  by_cases hroot : s.kernelMap.root?.isSome
  · simp only [hroot, if_true]
    exact .fail _
  · simp only [hroot]
    refine (implements_lockedCreateSpace hframes).bind fun space => ?_
    exact (implements_lockedMapRegions _ _ _ hframes).bind fun _ => .lift _

def lockedCreateTable : Locking PagingStore (Stop PagingError) PageMap :=
  withLock .kernelMap do
    let space ← lockedCreateSpace
    return ⟨space.root⟩

theorem implements_lockedCreateTable : Implements [] lockedCreateTable createTable :=
  .withLock_nil <| (implements_lockedCreateSpace (by decide)).bind fun _ => .pure _

def lockedMemoryMap (target : Option PageMap) (virt : VirtualAddress) (phys : PhysicalAddress)
    (size : PageSize) : Locking PagingStore (Stop PagingError) Unit :=
  withLock .kernelMap do
    let s ← lift get
    let some root := targetRoot? s target | fail .kernelMapMissing
    lockedMapPage (space s root) virt phys size

theorem implements_lockedMemoryMap (target : Option PageMap) (virt : VirtualAddress)
    (phys : PhysicalAddress) (size : PageSize) :
    Implements [] (lockedMemoryMap target virt phys size) (memoryMap target virt phys size) := by
  refine .withLock_nil <| .lift_bind _ fun s => ?_
  cases targetRoot? s target with
  | none => exact .fail _
  | some root => exact implements_lockedMapPage _ _ _ _ (by decide)

end Paging

end PagedMemory
