import PagedMemory.System.Basic
/-!
# Startup

Sets up the instances in order: frame pool, kernel map, heap. Only the first call does anything.
When a later stage fails, the instances set up before stay. Nothing else puts an instance in place,
so the one call that gets past the mark finds none there, and startup cannot fail for that reason.
-/
namespace PagedMemory

/-- Why startup failed. -/
inductive StartupError
  /-- Startup was run before. -/
  | alreadyInitialized
  /-- The memory map has no usable frame. -/
  | noUsableMemory
  /-- The kernel map could not be built or loaded. -/
  | paging (source : PagingError)
  /-- The heap could not be set up. -/
  | heap (source : HeapError)
  deriving DecidableEq

instance : ErrorText StartupError where
  describe
    | .alreadyInitialized => "AlreadyInitialized"
    | .noUsableMemory => "NoUsableMemory"
    | .paging source => Text.applied "Paging" (describe source)
    | .heap source => Text.applied "Heap" (describe source)
  name
    | .alreadyInitialized => "AlreadyInitialized"
    | .noUsableMemory => "NoUsableMemory"
    | .paging _ => "Paging"
    | .heap _ => "Heap"
  message
    | .alreadyInitialized => "kernel memory is already initialized"
    | .noUsableMemory => "the memory map contains no usable frames"
    | .paging _ => "failed to set up paging"
    | .heap _ => "failed to set up the heap"
  causes
    | .paging source => ErrorText.message source :: ErrorText.causes source
    | .heap source => ErrorText.message source :: ErrorText.causes source
    | _ => []

namespace System

variable {ε : Type}

/-- Marks the system as started; tells whether it was before. One step, also among processors. -/
def swapStarted : EStateM ε System Bool := do
  let before := (← get).started
  modify fun s => { s with started := true }
  return before

/-- The line that sums up the boot information. The usable bytes are added up only if the line is
kept. -/
def logBootInfo (info : BootInfo) : Op ε System Unit := do
  if (← get).log.keeps .info then
    let usable ← Op.ofCheck info.usableBytes
    onStore <| Store.logLine .info fun _ =>
      "memory map: " ++ info.memoryMap.length.repr ++ " regions, " ++ (usable.toNat / 1024).repr ++
        " KiB usable, HHDM at " ++ Hex.word info.directMapOffset

/-- Sets up frame pool, kernel map and heap, and gives the register value that is loaded. -/
def initMemory (info : BootInfo) : Op StartupError System Cr3 := do
  if ← swapStarted then
    Op.fail .alreadyInitialized
  logBootInfo info
  let (pool, added) ← Op.ofStep (makePool ⟨info.directMapOffset⟩ info.memoryMap)
  if added = 0 then
    Op.fail .noUsableMemory
  -- neither is there yet, as nothing but this call makes them
  modify fun s => { s with pool := some pool, kernelMap := some .missing }
  let _ ← onPaging (Op.mapError .paging (Paging.initPaging info.memoryMap info.kernel))
  let value ← onPaging (Op.mapError .paging Paging.loadKernelMap)
  let _ ← onHeap (Op.mapError .heap (Heap.init initialHeapSize))
  let frames := (← get).store.frames
  onStore <| Store.logLine .info fun _ =>
    "memory ready: " ++ frames.free.repr ++ " of " ++ frames.total.repr ++ " frames free"
  return value

end System

end PagedMemory
