import PagedMemory.Constants
import PagedMemory.DirectMap
import PagedMemory.Ram.Word
import PagedMemory.Region.Basic
import PagedMemory.Store
/-!
# The frame pool

Free frames form a list that is threaded through the frames themselves: the first eight bytes of a
free frame hold the address of the next one, as seen through the direct map, and null ends the list.
Taking and returning a frame are constant-time and need no storage of their own. A frame is filled
with zeros after it has left the list.

A frame whose alias is the null address cannot be on the list.
-/
namespace PagedMemory

/-- A list of free frames: where it starts, and how many frames are free and were ever added. -/
structure FramePool where
  map : DirectMap
  head : VirtualAddress
  free : Nat
  total : Nat

/-- No frame was left. -/
inductive OutOfFrames
  | outOfFrames
  deriving DecidableEq

instance : ErrorText OutOfFrames where
  describe _ := "OutOfMemory"
  name _ := "OutOfMemory"
  message _ := "out of physical memory"
  causes _ := []

namespace FramePool

def empty (map : DirectMap) : FramePool := ⟨map, .null, 0, 0⟩

/-- The aliases of the free frames, following at most `n` links. -/
def chain (m : Ram) : Nat → VirtualAddress → List VirtualAddress
  | 0, _ => []
  | n + 1, a => if a.isNull then [] else a :: chain m n ⟨m.readWord a⟩

/-- Puts a frame on the list, unless its alias is null; tells whether it did. -/
def push (f : Frame) : Step (Store FramePool) Bool := do
  let s ← get
  let node := s.frames.map.aliasOf f
  if node.isNull then
    return false
  set { s with
    ram := s.ram.writeWord node s.frames.head.value
    frames := { s.frames with head := node, free := s.frames.free + 1 } }
  return true

def pop : Step (Store FramePool) (Option Frame) := do
  let s ← get
  let node := s.frames.head
  if node.isNull then
    return none
  let next : VirtualAddress := ⟨s.ram.readWord node⟩
  set { s with frames := { s.frames with head := next } }
  if s.frames.free = 0 then
    throw .subOverflow
  set { s with frames := { s.frames with head := next, free := s.frames.free - 1 } }
  return some (.containing (s.frames.map.toPhysical node))

def clear (f : Frame) : Step (Store FramePool) Unit :=
  modify fun s => { s with ram := s.ram.fill (s.frames.map.aliasOf f) frameSize 0 }

/-- Takes a frame, zero-filled, if one is left. -/
def take? : Step (Store FramePool) (Option Frame) := do
  match ← pop with
  | none => return none
  | some f =>
    clear f
    return some f

def allocate : Op OutOfFrames (Store FramePool) Frame := do
  match ← Op.ofStep take? with
  | none => Op.fail .outOfFrames
  | some f => return f

def release (f : Frame) : Step (Store FramePool) Unit := do
  if !(← push f) then
    throw .nullFrame

/-- A pool hands out zero-filled frames. -/
instance : FrameSource FramePool := ⟨take?⟩

/-- Adds frames one after the other and counts those that went onto the list. -/
def addFrames : List Frame → Step (Store FramePool) Nat
  | [] => return 0
  | f :: rest => do
    if ← push f then
      return (← addFrames rest) + 1
    else
      Store.logLine .debug fun _ => "skipping frame " ++ toString f ++ ": its HHDM alias is null"
      addFrames rest

/-- Adds the frames of regions, those of each region from the last to the first. -/
def addRegions : List Region → Step (Store FramePool) Nat
  | [] => return 0
  | r :: rest => do
    let count ← addFrames r.frames.toList.reverse
    Store.logLine .debug fun _ => "usable region " ++ r.bounds ++ ": " ++ count.repr ++ " frames"
    return count + (← addRegions rest)

/-- The line that sums up what a memory map added. The bytes are worked out only if the line is kept;
a product beyond the word size is a fault. -/
def reportAdded (added : Nat) : Step (Store FramePool) Unit := do
  if added = 0 then
    Store.logLine .error fun _ => "no usable physical memory in the memory map"
  else if (← get).log.keeps .info then
    if 2 ^ 64 ≤ added * frameSize then
      throw .mulOverflow
    Store.logLine .info fun _ =>
      "frame allocator ready: " ++ added.repr ++ " frames (" ++
        (added * frameSize / 1024).repr ++ " KiB)"

/-- Adds every whole frame of every usable region and tells how many were added. Frames go onto the
list highest first, so a fresh pool hands them out in ascending order. -/
def addMemoryMap (memoryMap : List Region) : Step (Store FramePool) Nat := do
  let added ← addRegions (memoryMap.reverse.filter Region.isUsable)
  modify fun s => { s with frames := { s.frames with total := s.frames.total + added } }
  reportAdded added
  return added

end FramePool

end PagedMemory
