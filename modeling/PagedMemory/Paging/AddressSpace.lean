import PagedMemory.DirectMap
import PagedMemory.Paging.Table
import PagedMemory.Store
/-!
# Address spaces

A tree of page tables below a root. `mapPage` writes one leaf and allocates the tables missing on
the way to it; `leaf` and `translate` walk the tree. A 4 KiB mapping below a 2 MiB leaf replaces the
leaf by a fresh table. When no frame is left for a table, the tables linked so far stay and no leaf
is written.

Tables are reached through a window; touching a table that the window does not reach is a fault.
-/
namespace PagedMemory

/-- How page tables are reached: through the direct map, where there is memory. -/
structure Window where
  map : DirectMap
  reaches : Frame → Bool

namespace Window

/-- A window to all of physical memory. -/
def whole (map : DirectMap) : Window := ⟨map, fun _ => true⟩

/-- Where the table in a frame is visible. -/
def table (w : Window) (f : Frame) : Except Fault VirtualAddress :=
  if w.reaches f then .ok (w.map.aliasOf f) else .error .outsideRam

@[simp] theorem table_whole (map : DirectMap) (f : Frame) :
    (whole map).table f = .ok (map.aliasOf f) := rfl

end Window

/-- Why a mapping was not installed. -/
inductive MapError
  /-- No frame was left for a table of this level. -/
  | outOfMemory (level : TableLevel)
  deriving DecidableEq

namespace MapError

/-- The level whose table could not be allocated. -/
def level : MapError → TableLevel
  | outOfMemory l => l

instance : ErrorText MapError where
  describe e := Text.applied "OutOfMemory" (describe e.level)
  name _ := "OutOfMemory"
  message e := "out of memory allocating a " ++ toString e.level ++ " table"
  causes _ := []

end MapError

/-- A tree of page tables and the window through which it is reached. -/
structure AddressSpace where
  window : Window
  root : Frame

namespace AddressSpace

variable {F : Type}

/-- A fresh, empty tree. -/
def create [FrameSource F] (window : Window) : Op MapError (Store F) AddressSpace := do
  let some root ← Op.ofStep FrameSource.take | Op.fail (.outOfMemory .pml4)
  let table ← Op.ofCheck (window.table root)
  Store.updateRam (·.clearTable table)
  Store.logLine .trace fun _ => "allocated PML4 at " ++ toString root
  return ⟨window, root⟩

/-- The table of `level` that an entry of `parent` links to; a missing one is allocated, cleared and
linked. -/
def nextTable [FrameSource F] (space : AddressSpace) (parent : Frame) (i : TableIndex)
    (level : TableLevel) : Op MapError (Store F) Frame := do
  let parentTable ← Op.ofCheck (space.window.table parent)
  let entry := (← get).ram.entry parentTable i
  if entry.isTable then
    return entry.frame
  let some frame ← Op.ofStep FrameSource.take | Op.fail (.outOfMemory level)
  let table ← Op.ofCheck (space.window.table frame)
  Store.updateRam (·.clearTable table)
  let link ← Op.ofCheck (Entry.table frame)
  Store.updateRam (·.setEntry parentTable i link)
  Store.logLine .trace fun _ => "allocated " ++ toString level ++ " table at " ++ toString frame
  return frame

/-- Maps the page of `size` around `va` to the one around `pa`. -/
def mapPage [FrameSource F] (space : AddressSpace) (va : VirtualAddress) (pa : PhysicalAddress)
    (size : PageSize) : Op MapError (Store F) Unit := do
  let i := TableIndices.of va
  let pml3 ← space.nextTable space.root i.pml4 .pml3
  let pml2 ← space.nextTable pml3 i.pml3 .pml2
  match size with
  | .large =>
    let table ← Op.ofCheck (space.window.table pml2)
    let leaf ← Op.ofCheck (Entry.largeLeaf (.containing pa))
    Store.updateRam (·.setEntry table i.pml2 leaf)
  | .small =>
    let pml1 ← space.nextTable pml2 i.pml2 .pml1
    let table ← Op.ofCheck (space.window.table pml1)
    let leaf ← Op.ofCheck (Entry.leaf (.containing pa))
    Store.updateRam (·.setEntry table i.pml1 leaf)

/-- An entry of the table in a frame. -/
def entry (space : AddressSpace) (m : Ram) (table : Frame) (i : TableIndex) :
    Except Fault Entry := do
  return m.entry (← space.window.table table) i

/-- The leaf that translates an address, with the size of the page that it maps. -/
def leaf (space : AddressSpace) (m : Ram) (va : VirtualAddress) :
    Except Fault (Option (Entry × PageSize)) := do
  let i := TableIndices.of va
  let e4 ← space.entry m space.root i.pml4
  if !e4.isTable then
    return none
  let e3 ← space.entry m e4.frame i.pml3
  if !e3.isTable then
    return none
  let e2 ← space.entry m e3.frame i.pml2
  if !e2.has .present then
    return none
  if e2.has .pageSize then
    return some (e2, .large)
  let e1 ← space.entry m e2.frame i.pml1
  return if e1.has .present then some (e1, .small) else none

/-- The physical address that a leaf gives to an address in its page. -/
def leafTarget (va : VirtualAddress) : Entry × PageSize → PhysicalAddress
  | (e, .large) => e.largePage.join (va.offset .large)
  | (e, .small) => e.frame.join (va.offset .small)

/-- The physical address that an address is mapped to. -/
def translate (space : AddressSpace) (m : Ram) (va : VirtualAddress) :
    Except Fault (Option PhysicalAddress) :=
  (Option.map (leafTarget va)) <$> space.leaf m va

/-- The number of entries in use in the table in a frame. -/
def used (space : AddressSpace) (m : Ram) (table : Frame) : Except Fault Nat := do
  return (m.pageTable (← space.window.table table)).used

/-- A table on the way to a leaf: its frame, the entry that is taken, and how full it is. -/
structure Visit where
  table : Frame
  index : TableIndex
  entry : Entry
  used : Nat

/-- The tables visited from one table down, along the given indices. -/
def pathFrom (space : AddressSpace) (m : Ram) :
    Frame → List TableIndex → Except Fault (List Visit)
  | _, [] => return []
  | table, i :: rest => do
    let entry ← space.entry m table i
    let visit : Visit := ⟨table, i, entry, ← space.used m table⟩
    if entry.isTable then
      return visit :: (← space.pathFrom m entry.frame rest)
    return [visit]

/-- The tables visited for an address, from the root to the first entry that links no further. -/
def path (space : AddressSpace) (m : Ram) (va : VirtualAddress) : Except Fault (List Visit) :=
  space.pathFrom m space.root (TableIndices.of va).toList

end AddressSpace

end PagedMemory
