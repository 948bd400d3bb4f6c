import PagedMemory.Frame.Pool
import PagedMemory.Heap.FreeList
import PagedMemory.Heap.Run
/-!
# The heap

Blocks of any size, carved first-fit out of frames that come from a frame pool. Frames are reached
through the direct map, so a run of contiguous frames is one contiguous block. Every request is
rounded up to a multiple of sixteen bytes.

The heap grows when no free block fits, and only if the pool has enough free frames for the request
at hand. It never gives frames back.
-/
namespace PagedMemory

/-- Why the heap refused. -/
inductive HeapError
  /-- The heap has no pool to take frames from yet. -/
  | notInitialized
  /-- The heap was given a pool before. -/
  | alreadyInitialized
  /-- No free block fits and the pool cannot provide one. -/
  | outOfMemory (requested : Nat)
  deriving DecidableEq

instance : ErrorText HeapError where
  describe
    | .notInitialized => "NotInitialized"
    | .alreadyInitialized => "AlreadyInitialized"
    | .outOfMemory requested => Text.record "OutOfMemory" [("requested", describe requested)]
  name
    | .notInitialized => "NotInitialized"
    | .alreadyInitialized => "AlreadyInitialized"
    | .outOfMemory _ => "OutOfMemory"
  message
    | .notInitialized => "the heap is not initialized"
    | .alreadyInitialized => "the heap is already initialized"
    | .outOfMemory requested => "out of heap memory allocating " ++ requested.repr ++ " bytes"
  causes _ := []

/-- A heap: its free blocks, whether it has a pool to grow from, how often it grew, and how many
bytes it took in all. -/
structure Heap where
  list : FreeList
  attached : Bool
  expansions : Nat
  arenaBytes : Nat

/-- A heap together with the storage that its pool belongs to. -/
structure HeapStore where
  heap : Heap
  store : Store FramePool

namespace Heap

def empty : Heap := ⟨.empty, false, 0, 0⟩

variable {ε : Type}

def onStore {α : Type} (x : EStateM ε (Store FramePool) α) : EStateM ε HeapStore α :=
  onPart HeapStore.store (fun store s => { s with store }) x

def setMemory (m : Ram) (list : FreeList) : EStateM ε HeapStore Unit :=
  modify fun s => { s with heap := { s.heap with list }, store := { s.store with ram := m } }

/-- Adds a run to the free list as one block. -/
def pushRun (run : Run) : EStateM ε HeapStore Unit := do
  let s ← get
  let (m, list) := s.heap.list.push s.store.ram run.start run.length
  setMemory m list

/-- Takes up to `n` frames and joins them to runs: a run that a frame does not extend goes onto the
free list. Gives the last run and the number of frames taken. -/
def gather : Nat → Option Run → Step HeapStore (Option Run × Nat)
  | 0, run => return (run, 0)
  | n + 1, run => do
    let some frame ← onStore FramePool.take? | return (run, 0)
    let page := (← get).store.frames.map.aliasOf frame
    if page.isNull then
      onStore (FramePool.release frame)
      return (run, 0)
    let joined ← match run with
      | none => pure (Run.ofFrame page)
      | some open_run =>
        match open_run.extend? page with
        | some longer => pure longer
        | none => do
          pushRun open_run
          pure (Run.ofFrame page)
    let (last, taken) ← gather n (some joined)
    return (last, taken + 1)

/-- Takes up to `pages` frames from the pool, adds them to the free list, one block per contiguous
run, and tells how many there were. -/
def expand (pages : Nat) : Step HeapStore Nat := do
  if !(← get).heap.attached then
    return 0
  let (last, got) ← gather pages none
  if let some run := last then
    pushRun run
  if 0 < got then
    modify fun s => { s with heap := { s.heap with
      expansions := s.heap.expansions + 1
      arenaBytes := s.heap.arenaBytes + got * frameSize } }
    let arena := (← get).heap.arenaBytes
    onStore <| Store.logLine .debug fun _ =>
      "heap grew by " ++ got.repr ++ " frames to " ++ (arena / 1024).repr ++ " KiB"
  return got

/-- The least multiple of a positive number that is not below another one. -/
def roundUp (n step : Nat) : Nat := (n + (step - 1)) / step * step

/-- The payload size that a request gets: at least one byte, rounded up to the alignment. There is
none if rounding leaves the word size. -/
def payloadFor? (size : Nat) : Option Nat :=
  let rounded := roundUp (max size 1) heapAlign
  if rounded < 2 ^ 64 then some rounded else none

/-- The number of frames that hold a block with a payload of `payload` bytes. -/
def framesFor (payload : Nat) : Nat :=
  (min (payload + headerSize) (2 ^ 64 - 1) + (frameSize - 1)) / frameSize

/-- Takes a block off the free list, if one fits. -/
def takeBlock? (payload : Nat) : EStateM ε HeapStore (Option VirtualAddress) := do
  let s ← get
  match s.heap.list.take? s.store.ram payload with
  | none => return none
  | some (p, m, list) =>
    setMemory m list
    return some p

/-- Allocates `size` bytes and gives the address of the payload. -/
def allocate (size : Nat) : Op HeapError HeapStore VirtualAddress := do
  if !(← get).heap.attached then
    Op.fail .notInitialized
  let some payload := payloadFor? size | Op.fail (.outOfMemory size)
  if let some p ← takeBlock? payload then
    return p
  let needed := framesFor payload
  let available := (← get).store.frames.free
  if available < needed then
    onStore <| Store.logLine .debug fun _ =>
      "heap needs " ++ needed.repr ++ " frames for " ++ size.repr ++ " bytes, " ++
        available.repr ++ " free"
    Op.fail (.outOfMemory size)
  if (← Op.ofStep (expand (max needed heapExpandPages))) = 0 then
    Op.fail (.outOfMemory size)
  match ← takeBlock? payload with
  | some p => return p
  | none => Op.fail (.outOfMemory size)

/-- Attaches the heap to its pool and takes enough frames for `bytes` bytes; getting fewer is no
error. Gives the number of frames taken. -/
def init (bytes : Nat) : Op HeapError HeapStore Nat := do
  if (← get).heap.attached then
    Op.fail .alreadyInitialized
  modify fun s => { s with heap := { s.heap with attached := true } }
  let pages := (bytes + (frameSize - 1)) / frameSize
  if pages = 0 then
    return 0
  let got ← Op.ofStep (expand pages)
  if got < pages then
    onStore <| Store.logLine .warn fun _ =>
      "heap wanted " ++ pages.repr ++ " initial frames but got " ++ got.repr
  let arena := (← get).heap.arenaBytes
  onStore <| Store.logLine .info fun _ => "heap ready with " ++ (arena / 1024).repr ++ " KiB"
  return got

/-- Puts a payload that is not null back onto the free list. -/
def releaseBlock (payload : VirtualAddress) : EStateM ε HeapStore Unit := do
  let s ← get
  let (m, list) := s.heap.list.release s.store.ram payload
  setMemory m list

/-- Returns a payload to the heap; null is ignored. -/
def free (payload : VirtualAddress) : Step HeapStore Unit := do
  if !payload.isNull then
    releaseBlock payload

/-- Moves a payload into a new block of `size` bytes with the contents that fit; null is moved by
allocating. If no block can be had, the old payload stays as it is. -/
def reallocate (payload : VirtualAddress) (size : Nat) : Op HeapError HeapStore VirtualAddress := do
  let fresh ← allocate size
  if payload.isNull then
    return fresh
  let old ← Op.ofCheck (FreeList.payloadSize (← get).store.ram payload)
  onStore <| Store.updateRam (·.copy payload fresh (min old size))
  releaseBlock payload
  return fresh

def freeBytes (heap : Heap) (m : Ram) : Nat := heap.list.freeBytes m

end Heap

end PagedMemory
