import PagedMemory.Session.Report
import PagedMemory.System.Startup
/-!
# A session on a machine

A machine has banks of RAM, seen through the direct map, and the memory core on top of them. Its
user names heap blocks and page-table trees, and looks at RAM directly. What would reach outside of
RAM is refused, and so is what needs an instance that the machine does not have yet.
-/
namespace PagedMemory

/-- A range of RAM: some frames from a physical address on. -/
structure Bank where
  base : PhysicalAddress
  frames : Nat

namespace Bank

def bytes (b : Bank) : Nat := b.frames * frameSize

/-- Whether `n` bytes from an address on lie in the bank. -/
def contains (b : Bank) (a : PhysicalAddress) (n : Nat) : Bool := b.base.distance a + n ≤ b.bytes

end Bank

/-- What the user of a machine asks for. Trees are named; no name stands for the kernel map. -/
inductive MachineRequest
  | heapInit (bytes : Nat)
  | expand (pages : Nat)
  | alloc (id : String) (size : Nat)
  | realloc (id : String) (size : Nat)
  | free (id : String)
  | allocLayout (id : String) (size align : Nat) (zeroed : Bool)
  | reallocLayout (id : String) (size align newSize : Nat)
  | freeLayout (id : String) (size align : Nat)
  | fill (id : String) (offset : UInt64) (length : Nat) (byte : UInt8)
  | write (id : String) (offset : UInt64) (bytes : List UInt8)
  | read (id : String) (offset : UInt64) (length : Nat)
  | peek (pa : PhysicalAddress) (length : Nat)
  | poke (pa : PhysicalAddress) (bytes : List UInt8)
  | isZero (pa : PhysicalAddress)
  | allocPage
  | takeFrame
  | freePage (pa : PhysicalAddress)
  | frames
  | stage
  | convert (value : UInt64)
  | initPaging (regions : List Region) (kernel : KernelImage)
  | createTable (name : String)
  | memoryMap (target : Option String) (va : VirtualAddress) (pa : PhysicalAddress)
    (size : PageSize)
  | translate (target : Option String) (va : VirtualAddress)
  | cr3 (target : Option String)
  | loadCr3
  | walk (target : Option String) (va : VirtualAddress)
  /-- A pool for the heap alone; a number of bytes that cannot be read is noticed only once the pool
  is made. -/
  | ownHeap (regions : List Region) (bytes : Option Nat)
  | initMemory (regions : List Region) (kernel : KernelImage)

inductive MachineReply
  | refused
  /-- An instance that the request needs does not exist yet. -/
  | unavailable
  /-- Size and alignment are no layout. -/
  | badLayout
  | failed (report : ErrorReport)
  | stopped (f : Fault)
  | done
  | ok
  | count (n : Nat)
  | block (a : Option VirtualAddress)
  | frame (f : Option Frame)
  | bytes (bs : List UInt8)
  | flag (b : Bool)
  | frames (free total : Nat) (map : DirectMap)
  | stage (map : KernelMap) (directMap : DirectMap)
  | converted (va : VirtualAddress) (pa : PhysicalAddress)
  | table (map : PageMap)
  | translated (found : Option PhysicalAddress)
  | register (value : Cr3)
  /-- The kernel map was loaded. -/
  | loaded (value : Cr3)
  | noTree
  | path (visits : List AddressSpace.Visit) (leaf : Option (Entry × PageSize))
  /-- The frames that the heap took, and those that its own pool got. -/
  | ownHeap (got added : Nat)

/-- What must exist before a request can be served. -/
inductive Need
  | nothing
  | pool
  | kernelMap
  deriving DecidableEq

/-- What a request needs, known from its name alone; a name that no request has counts as one on
page tables. -/
def Need.ofRequestName (name : String) : Need :=
  if ["expand", "alloc", "realloc", "free", "galloc", "galloc_zeroed", "grealloc", "gdealloc",
      "fill", "write", "read", "peek", "poke", "is_zero", "own_heap",
      "init_memory"].contains name then .nothing
  else if ["heap_init", "alloc_page", "alloc_4k", "free_page", "frames"].contains name then .pool
  else .kernelMap

/-- A machine: its RAM, the memory core, whether the core is set up by its own startup, and the
blocks and trees that have a name. -/
structure Machine where
  banks : List Bank
  map : DirectMap
  starts : Bool
  system : System
  blocks : List (String × VirtualAddress)
  trees : List (String × PageMap)

namespace Machine

/-! ## Setting up -/

def maxFrames : Nat := 1024

/-- The most frames of one usable region. -/
def maxUsableFrames : Nat := 1100

/-- The most frames that a memory map may touch. -/
def maxCoveringFrames : Nat := 20000

/-- The most bytes that are looked at or changed at once. -/
def maxBytes : Nat := 4096

/-- The least virtual address at which a bank may start. -/
def ramStart : Nat := 0x100000000000

/-- The end of the virtual addresses at which a bank may start. -/
def ramEnd : Nat := 0x500000000000

/-- Whether a bank appears at whole pages and starts in the range for RAM; it may reach beyond. -/
def isPlaced (map : DirectMap) (b : Bank) : Bool :=
  let start := map.toVirtual b.base
  start.isAligned .small && ramStart ≤ start.toNat && start.toNat < ramEnd

/-- A machine with the given banks and nothing set up. -/
def bare? (map : DirectMap) (banks : List Bank) (starts : Bool) (log : Log) : Option Machine :=
  if banks.all (fun b => 1 ≤ b.frames && b.frames ≤ maxFrames && isPlaced map b) ∧
      (banks.map Bank.frames).foldr (· + ·) 0 ≤ maxFrames then
    some ⟨banks, map, starts, .bare (.uniform 0xcc) log, [], []⟩
  else none

/-- Whether `n` bytes from a physical address on lie in one bank. -/
def inRam (s : Machine) (a : PhysicalAddress) (n : Nat) : Bool := s.banks.any (·.contains a n)

def hasFrame (s : Machine) (f : Frame) : Bool := s.inRam f.base frameSize

/-- Whether a frame can be put on a free list: it is RAM, or its alias is null and it is skipped. -/
def isListable (s : Machine) (f : Frame) : Bool := s.hasFrame f || (s.map.aliasOf f).isNull

/-- Whether a pool can be made over the usable regions of a memory map. -/
def admitsUsable (s : Machine) (regions : List Region) : Bool :=
  (regions.filter Region.isUsable).all fun r =>
    r.frames.size ≤ maxUsableFrames && r.frames.toList.all s.isListable

/-- Whether a memory map is small enough to be mapped. -/
def admitsMap (regions : List Region) : Bool :=
  (regions.map fun r => r.coveringFrames.size).foldr (· + ·) 0 ≤ maxCoveringFrames

/-- A machine with an empty pool and no kernel map. -/
def withPool (s : Machine) : Machine :=
  { s with system := { s.system with pool := some (.empty s.map), kernelMap := some .missing } }

/-- Adds a memory map to the pool; gives the frames added, the total, and the frames free. -/
def addMemoryMap? (s : Machine) (regions : List Region) : Option ((Nat × Nat × Nat) × Machine) :=
  if s.admitsUsable regions then
    match System.onStore (FramePool.addMemoryMap regions) s.system with
    | .ok added system =>
      some ((added, system.store.frames.total, system.store.frames.free), { s with system })
    | .error _ _ => none
  else none

/-! ## Names -/

/-- The payload that a name is bound to; null if it is not bound. -/
def block (s : Machine) (id : String) : VirtualAddress := (s.blocks.lookup id).getD .null

def bind (s : Machine) (id : String) (a : VirtualAddress) : Machine :=
  { s with blocks := (id, a) :: s.blocks.filter fun b => b.1 != id }

def unbind (s : Machine) (id : String) : Machine :=
  { s with blocks := s.blocks.filter fun b => b.1 != id }

/-- The tree that a target stands for: `some none` is the kernel map. -/
def tree? (s : Machine) : Option String → Option (Option PageMap)
  | none => some none
  | some name => (s.trees.lookup name).map some

/-! ## Running operations -/

/-- Runs an operation of the memory core and answers with its value. -/
def run {ε α : Type} [ErrorText ε] (s : Machine) (x : Op ε System α)
    (reply : α → Machine → MachineReply × Machine) : MachineReply × Machine :=
  match x s.system with
  | .ok a system => reply a { s with system }
  | .error (.error e) system => (.failed (.of e), { s with system })
  | .error (.fault f) system => (.stopped f, { s with system })

def runStep {α : Type} (s : Machine) (x : Step System α)
    (reply : α → Machine → MachineReply × Machine) : MachineReply × Machine :=
  match x s.system with
  | .ok a system => reply a { s with system }
  | .error f system => (.stopped f, { s with system })

/-- Binds a name to an allocated payload and answers with it. -/
def bound (id : String) (a : VirtualAddress) (s : Machine) : MachineReply × Machine :=
  (.block (some a), s.bind id a)

/-- Binds a name to a payload if there is one. -/
def boundIfSome (id : String) (a : Option VirtualAddress) (s : Machine) : MachineReply × Machine :=
  match a with
  | some a => bound id a s
  | none => (.block none, s)

def updateRam (s : Machine) (f : Ram → Ram) : Machine :=
  { s with system := { s.system with ram := f s.system.ram } }

/-- Answers with `x` if `n` bytes from a virtual address on are RAM and not too many; nothing of `x`
is computed otherwise. -/
def onBytes (s : Machine) (a : VirtualAddress) (n : Nat)
    (x : Machine → MachineReply × Machine) : MachineReply × Machine :=
  if n ≤ maxBytes ∧ s.inRam (s.map.toPhysical a) n then x s else (.refused, s)

def pokeAt (s : Machine) (a : VirtualAddress) (bs : List UInt8) : MachineReply × Machine :=
  s.onBytes a bs.length fun s => (.done, s.updateRam (·.writeBytes a bs))

def peekAt (s : Machine) (a : VirtualAddress) (n : Nat) : MachineReply × Machine :=
  s.onBytes a n fun s => (.bytes (s.system.ram.readBytes n a), s)

/-- The tables on the way of an address in a tree; refused if one of them is not RAM. -/
def walk (s : Machine) (root : Frame) (va : VirtualAddress) : MachineReply :=
  let space : AddressSpace := ⟨⟨s.map, s.hasFrame⟩, root⟩
  match space.path s.system.ram va, space.leaf s.system.ram va with
  | .ok visits, .ok leaf => .path visits leaf
  | _, _ => .refused

/-! ## Requests -/

def stepHeap (s : Machine) : MachineRequest → MachineReply × Machine
  | .heapInit bytes => s.run (System.onHeap (Heap.init bytes)) fun n s => (.count n, s)
  | .expand pages => s.runStep (System.onHeap (Heap.expand pages)) fun n s => (.count n, s)
  | .alloc id size => s.run (System.onHeap (Heap.allocate size)) (bound id)
  | .realloc id size => s.run (System.onHeap (Heap.reallocate (s.block id) size)) (bound id)
  | .free id => s.runStep (System.onHeap (Heap.free (s.block id))) fun _ s => (.done, s.unbind id)
  | .allocLayout id size align zeroed =>
    match Layout.ofSizeAlign? size align with
    | none => (.badLayout, s)
    | some layout =>
      let x := if zeroed then Heap.allocZeroed layout else Heap.allocLayout layout
      s.runStep (System.onHeap x) (boundIfSome id)
  | .reallocLayout id size align newSize =>
    match Layout.ofSizeAlign? size align with
    | none => (.badLayout, s)
    | some layout =>
      s.runStep (System.onHeap (Heap.reallocLayout (s.block id) layout newSize)) (boundIfSome id)
  | .freeLayout id size align =>
    match Layout.ofSizeAlign? size align with
    | none => (.badLayout, s)
    | some _ => s.runStep (System.onHeap (Heap.free (s.block id))) fun _ s => (.done, s.unbind id)
  | .ownHeap regions bytes =>
    if s.admitsUsable regions then
      match bytes with
      | some bytes =>
        s.run (System.initOwnHeap s.map regions bytes) fun (got, added) s => (.ownHeap got added, s)
      | none => s.runStep (System.makePool s.map regions) fun _ s => (.refused, s)
    else (.refused, s)
  | _ => (.refused, s)

def stepRam (s : Machine) : MachineRequest → MachineReply × Machine
  | .fill id offset length byte =>
    let a := s.block id + offset
    s.onBytes a length fun s => (.done, s.updateRam (·.fill a length byte))
  | .write id offset bytes => s.pokeAt (s.block id + offset) bytes
  | .read id offset length => s.peekAt (s.block id + offset) length
  | .peek pa length => s.peekAt (s.map.toVirtual pa) length
  | .poke pa bytes => s.pokeAt (s.map.toVirtual pa) bytes
  | .isZero pa =>
    let a := s.map.toVirtual pa
    s.onBytes a maxBytes fun s => (.flag (s.system.ram.isZero a maxBytes), s)
  | _ => (.refused, s)

def stepFrames (s : Machine) : MachineRequest → MachineReply × Machine
  | .allocPage => s.run (System.onStore FramePool.allocate) fun f s => (.frame (some f), s)
  | .takeFrame => s.runStep (System.onStore FrameSource.take) fun f s => (.frame f, s)
  | .freePage pa =>
    let f : Frame := .containing pa
    if s.isListable f then s.runStep (System.onStore (FramePool.release f)) fun _ s => (.done, s)
    else (.refused, s)
  | .frames =>
    let pool := s.system.store.frames
    (.frames pool.free pool.total pool.map, s)
  | _ => (.refused, s)

def stepPaging (s : Machine) : MachineRequest → MachineReply × Machine
  | .stage => (.stage s.system.paging.kernelMap s.system.store.frames.map, s)
  | .convert value =>
    let map := s.system.store.frames.map
    (.converted (map.toVirtual ⟨value⟩) (map.toPhysical ⟨value⟩), s)
  | .initPaging regions kernel =>
    if admitsMap regions then
      s.run (System.onPaging (Paging.initPaging regions kernel)) fun f s => (.frame (some f), s)
    else (.refused, s)
  | .createTable name =>
    s.run (System.onPaging Paging.createTable) fun tree s =>
      (.table tree, { s with trees := (name, tree) :: s.trees.filter fun t => t.1 != name })
  | .memoryMap target va pa size =>
    match s.tree? target with
    | none => (.refused, s)
    | some tree => s.run (System.onPaging (Paging.memoryMap tree va pa size)) fun _ s => (.ok, s)
  | .translate target va =>
    match s.tree? target with
    | none => (.refused, s)
    | some tree =>
      match Paging.translate s.system.paging tree va with
      | .ok found => (.translated found, s)
      | .error f => (.stopped f, s)
  | .cr3 target =>
    match s.tree? target with
    | none => (.refused, s)
    | some none => s.run (System.onPaging Paging.kernelCr3) fun value s => (.register value, s)
    | some (some tree) =>
      match tree.cr3 with
      | .ok value => (.register value, s)
      | .error f => (.stopped f, s)
  | .loadCr3 => s.run (System.onPaging Paging.loadKernelMap) fun value s => (.loaded value, s)
  | .walk target va =>
    match s.tree? target with
    | none => (.refused, s)
    | some tree =>
      match Paging.targetRoot? s.system.paging tree with
      | none => (.noTree, s)
      | some root => (s.walk root va, s)
  | _ => (.refused, s)

def stepStartup (s : Machine) (regions : List Region) (kernel : KernelImage) :
    MachineReply × Machine :=
  if s.starts && s.admitsUsable regions && admitsMap regions then
    s.run (System.initMemory ⟨regions, kernel, s.map.offset⟩) fun value s => (.loaded value, s)
  else (.refused, s)

/-- Answers a request whose needs are met. -/
def step (s : Machine) (request : MachineRequest) : MachineReply × Machine :=
  match request with
  | .heapInit _ | .expand _ | .alloc .. | .realloc .. | .free _ | .allocLayout ..
  | .reallocLayout .. | .freeLayout .. | .ownHeap .. => s.stepHeap request
  | .fill .. | .write .. | .read .. | .peek .. | .poke .. | .isZero _ => s.stepRam request
  | .allocPage | .takeFrame | .freePage _ | .frames => s.stepFrames request
  | .initMemory regions kernel => s.stepStartup regions kernel
  | _ => s.stepPaging request

/-- Whether what a request needs exists. -/
def provides (s : Machine) : Need → Bool
  | .nothing => true
  | .pool => s.system.pool.isSome
  | .kernelMap => s.system.kernelMap.isSome

/-- Answers a request that may be unreadable: what it needs is looked at first. -/
def answer (s : Machine) (need : Need) (request : Option MachineRequest) : MachineReply × Machine :=
  if s.provides need then
    match request with
    | some request => s.step request
    | none => (.refused, s)
  else (.unavailable, s)

/-- Frames free in the shared pool, growths of the heap, bytes on its free list, and bytes taken by
it. The sizes on the free list are whatever RAM holds; a sum beyond the word size is a fault. -/
def summary (s : Machine) : Except Fault (Option Nat × Nat × Nat × Nat) :=
  let heap := s.system.heap
  let freeBytes := heap.freeBytes s.system.ram
  if freeBytes < 2 ^ 64 then
    .ok (s.system.pool.map FramePool.free, heap.expansions, freeBytes, heap.arenaBytes)
  else .error .addOverflow

def drainLog (s : Machine) : List String × Machine :=
  (s.system.log.written, { s with system := { s.system with log := s.system.log.cleared } })

end Machine

end PagedMemory
