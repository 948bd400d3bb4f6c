import PagedMemory.Heap.Layout
import PagedMemory.Paging.KernelMap
/-!
# The memory of a kernel

One state for everything that the memory core owns: memory, the frame pool and the kernel map once
they exist, and the heap. The heap usually grows from the pool that the page tables draw on, but it
may have been given a pool of its own.

`onStore`, `onPaging` and `onHeap` run a program on the part that it works on; the other parts stay
as they are.
-/
namespace PagedMemory

/-- The instances of the memory core and the memory that they manage. -/
structure System where
  ram : Ram
  log : Log
  /-- Whether the instances were asked to be set up. -/
  started : Bool
  pool : Option FramePool
  kernelMap : Option KernelMap
  heap : Heap
  /-- The pool of the heap, if it is not the one shared with the page tables. -/
  heapPool : Option FramePool

namespace System

/-- A system without any instance but an empty heap. -/
def bare (ram : Ram) (log : Log) : System :=
  ⟨ram, log, false, none, none, .empty, none⟩

variable {ε : Type} {α : Type}

/-- A pool that stands in where there is none; nothing can be taken from it. -/
def noPool : FramePool := .empty ⟨0⟩

/-- The shared pool with memory and the log. -/
def store (s : System) : Store FramePool := ⟨s.ram, s.pool.getD noPool, s.log⟩

def setStore (t : Store FramePool) (s : System) : System :=
  { s with ram := t.ram, log := t.log, pool := s.pool.map fun _ => t.frames }

def onStore (x : EStateM ε (Store FramePool) α) : EStateM ε System α := onPart store setStore x

/-- The kernel map with the shared pool. -/
def paging (s : System) : PagingStore := ⟨s.kernelMap.getD .missing, s.store⟩

def setPaging (t : PagingStore) (s : System) : System :=
  { s.setStore t.store with kernelMap := s.kernelMap.map fun _ => t.kernelMap }

def onPaging (x : EStateM ε PagingStore α) : EStateM ε System α := onPart paging setPaging x

/-- The heap with the pool that it grows from. -/
def heapStore (s : System) : HeapStore :=
  ⟨s.heap, ⟨s.ram, (s.heapPool.or s.pool).getD noPool, s.log⟩⟩

def setHeapStore (t : HeapStore) (s : System) : System :=
  match s.heapPool with
  | some _ =>
    { s with
      ram := t.store.ram, log := t.store.log, heap := t.heap, heapPool := some t.store.frames }
  | none => { s.setStore t.store with heap := t.heap }

def onHeap (x : EStateM ε HeapStore α) : EStateM ε System α := onPart heapStore setHeapStore x

/-- A new pool over the usable frames of a memory map, and how many frames it got. -/
def makePool (map : DirectMap) (memoryMap : List Region) : Step System (FramePool × Nat) := fun s =>
  match FramePool.addMemoryMap memoryMap ⟨s.ram, .empty map, s.log⟩ with
  | .ok added t => .ok (t.frames, added) { s with ram := t.ram, log := t.log }
  | .error f t => .error f { s with ram := t.ram, log := t.log }

/-- Gives the heap a pool of its own over the usable frames of a memory map and sets the heap up.
Gives the frames that the heap took and those that the pool got. -/
def initOwnHeap (map : DirectMap) (memoryMap : List Region) (bytes : Nat) :
    Op HeapError System (Nat × Nat) := do
  let (pool, added) ← Op.ofStep (makePool map memoryMap)
  if (← get).heap.attached then
    Op.fail .alreadyInitialized
  modify fun s => { s with heapPool := some pool }
  let got ← onHeap (Heap.init bytes)
  return (got, added)

end System

end PagedMemory
