import PagedMemory.BootInfo
import PagedMemory.Frame.Pool
import PagedMemory.Paging.AddressSpace
import PagedMemory.Paging.Cr3
/-!
# The kernel map

The tree of page tables that the kernel runs on. It is built once from the memory map and then
loaded; its root never changes. The kernel image is mapped where it was linked to run, every other
region at the offset of the direct map. Further trees can be made apart from it.

All trees draw their tables from one frame pool and are reached through its direct map. No tree is
ever taken apart.
-/
namespace PagedMemory

/-- The life of the kernel map. -/
inductive KernelMap
  /-- There is none yet. -/
  | missing
  /-- It exists but is not loaded. -/
  | built (root : Frame)
  /-- It is the live address space. -/
  | active (root : Frame)
  deriving DecidableEq

namespace KernelMap

/-- The root of the kernel map, once built. -/
def root? : KernelMap → Option Frame
  | missing => none
  | built root => some root
  | active root => some root

def stateName : KernelMap → String
  | missing => "Uninitialized"
  | built _ => "MapBuilt"
  | active _ => "Active"

end KernelMap

/-- Why an operation on page tables refused. -/
inductive PagingError
  /-- The kernel map was asked for before it was built. -/
  | kernelMapMissing
  /-- The kernel map was built before. -/
  | alreadyInitialized
  /-- No frame was left for a top-level table. -/
  | outOfMemory (source : MapError)
  /-- No frame was left for a table on the way to a leaf. -/
  | mapping (virt : VirtualAddress) (phys : PhysicalAddress) (source : MapError)
  deriving DecidableEq

instance : ErrorText PagingError where
  describe
    | .kernelMapMissing => "KernelMapMissing"
    | .alreadyInitialized => "AlreadyInitialized"
    | .outOfMemory source => Text.applied "OutOfMemory" (describe source)
    | .mapping virt phys source => Text.record "Mapping"
      [("virt", describe virt), ("phys", describe phys), ("source", describe source)]
  name
    | .kernelMapMissing => "KernelMapMissing"
    | .alreadyInitialized => "AlreadyInitialized"
    | .outOfMemory _ => "OutOfMemory"
    | .mapping .. => "Mapping"
  message
    | .kernelMapMissing => "the kernel map has not been built"
    | .alreadyInitialized => "the kernel map is already built"
    | .outOfMemory _ => "out of memory allocating a top-level page table"
    | .mapping virt phys _ => "failed to map " ++ describe virt ++ " to " ++ describe phys
  causes
    | .outOfMemory source => ErrorText.message source :: ErrorText.causes source
    | .mapping _ _ source => ErrorText.message source :: ErrorText.causes source
    | _ => []

/-- A tree made apart from the kernel map. -/
structure PageMap where
  root : Frame
  deriving DecidableEq

namespace PageMap

/-- The register value that would make the tree the live one. -/
def cr3 (map : PageMap) : Except Fault Cr3 := Cr3.ofRoot map.root

instance : Describe PageMap := ⟨fun map => Text.record "PageMap" [("root", describe map.root)]⟩

end PageMap

/-- The kernel map together with the storage that the tables are in. -/
structure PagingStore where
  kernelMap : KernelMap
  store : Store FramePool

namespace Paging

variable {ε : Type}

def onStore {α : Type} (x : EStateM ε (Store FramePool) α) : EStateM ε PagingStore α :=
  onPart PagingStore.store (fun store s => { s with store }) x

/-- The tree below a root, reached through the direct map of the pool. -/
def space (s : PagingStore) (root : Frame) : AddressSpace :=
  ⟨.whole s.store.frames.map, root⟩

/-- The root of an explicit tree, or of the kernel map if there is none. -/
def targetRoot? (s : PagingStore) : Option PageMap → Option Frame
  | some map => some map.root
  | none => s.kernelMap.root?

def createSpace : Op PagingError PagingStore AddressSpace := do
  let map := (← get).store.frames.map
  onStore (Op.mapError .outOfMemory (AddressSpace.create (.whole map)))

def mapPage (space : AddressSpace) (virt : VirtualAddress) (phys : PhysicalAddress)
    (size : PageSize) : Op PagingError PagingStore Unit :=
  onStore (Op.mapError (.mapping virt phys) (space.mapPage virt phys size))

/-- Where the kernel sees an address of a region: at the bias of the image, or in the direct map. -/
def regionAlias (map : DirectMap) (image : KernelImage) (kind : RegionKind) (a : PhysicalAddress) :
    VirtualAddress :=
  if kind = .kernelAndModules then image.toVirtual a else map.toVirtual a

/-- Maps frames one after the other, each at the alias that `virtualOf` gives its base. -/
def mapFrames (space : AddressSpace) (virtualOf : PhysicalAddress → VirtualAddress) :
    List Frame → Op PagingError PagingStore Unit
  | [] => return ()
  | f :: rest => do
    mapPage space (virtualOf f.base) f.base .small
    mapFrames space virtualOf rest

/-- Maps every frame that a region touches, unless its memory is bad. -/
def mapRegion (space : AddressSpace) (image : KernelImage) (r : Region) :
    Op PagingError PagingStore Unit := do
  if r.kind = .badMemory then
    onStore <| Store.logLine .debug fun _ => "not mapping bad memory " ++ r.bounds
  else
    let virtualOf := regionAlias space.window.map image r.kind
    mapFrames space virtualOf r.coveringFrames.toList
    onStore <| Store.logLine .info fun _ =>
      "mapped " ++ r.kind.name ++ " " ++ r.bounds ++ " at " ++ toString (virtualOf r.base)

def mapRegions (space : AddressSpace) (image : KernelImage) :
    List Region → Op PagingError PagingStore Unit
  | [] => return ()
  | r :: rest => do
    mapRegion space image r
    mapRegions space image rest

/-- Builds the kernel map and gives its root. If it fails, the kernel map stays missing and the
frames taken so far stay taken. -/
def initPaging (memoryMap : List Region) (image : KernelImage) :
    Op PagingError PagingStore Frame := do
  if (← get).kernelMap.root?.isSome then
    Op.fail .alreadyInitialized
  let space ← createSpace
  mapRegions space image memoryMap
  modify fun s => { s with kernelMap := .built space.root }
  onStore <| Store.logLine .info fun _ => "kernel map built at " ++ toString space.root
  return space.root

/-- A fresh, empty tree apart from the kernel map. -/
def createTable : Op PagingError PagingStore PageMap := do
  let space ← createSpace
  return ⟨space.root⟩

/-- Maps one page in an explicit tree, or in the kernel map. -/
def memoryMap (target : Option PageMap) (virt : VirtualAddress) (phys : PhysicalAddress)
    (size : PageSize) : Op PagingError PagingStore Unit := do
  let s ← get
  let some root := targetRoot? s target | Op.fail .kernelMapMissing
  mapPage (space s root) virt phys size

/-- The physical address that an address is mapped to in an explicit tree, or in the kernel map. -/
def translate (s : PagingStore) (target : Option PageMap) (virt : VirtualAddress) :
    Except Fault (Option PhysicalAddress) :=
  match targetRoot? s target with
  | none => .ok none
  | some root => (space s root).translate s.store.ram virt

/-- The register value that makes the kernel map the live address space. -/
def kernelCr3 : Op PagingError PagingStore Cr3 := do
  let some root := (← get).kernelMap.root? | Op.fail .kernelMapMissing
  Op.ofCheck (Cr3.ofRoot root)

/-- Makes the kernel map the live address space and gives the register value that is loaded. -/
def loadKernelMap : Op PagingError PagingStore Cr3 := do
  let some root := (← get).kernelMap.root? | Op.fail .kernelMapMissing
  let value ← Op.ofCheck (Cr3.ofRoot root)
  modify fun s => { s with kernelMap := .active root }
  onStore <| Store.logLine .info fun _ => "kernel map " ++ toString root ++ " loaded"
  return value

end Paging

end PagedMemory
