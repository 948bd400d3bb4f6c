import PagedMemory.Proofs.Heap.Operations
import PagedMemory.Proofs.Paging.Trees
import PagedMemory.System.Basic
/-!
# Who holds which frame

A ledger is a system whose heap and page tables share one frame pool, together with a record of what
was handed out: frames to direct callers, frames to page tables, frames to the heap, trees and
payloads. `perform` carries out a request, however it ends, and keeps the record by what the
request gave back and by which frames left the free list. `Permits` is the contract of the callers:
they give back only what they hold, and write only to memory that they hold.
-/
namespace PagedMemory

/-- What a program gives, if it ends with a value, and the state that it leaves. -/
def outcome {ε σ α : Type} (x : EStateM ε σ α) (s : σ) : Option α × σ :=
  match x s with
  | .ok a t => (some a, t)
  | .error _ t => (none, t)

/-- What holds however a program ends holds of its outcome. -/
theorem Ends.outcome {ε σ α : Type} {x : EStateM ε σ α} {s : σ} {p : Option α × σ → Prop}
    (h : Ends x s (fun a t => p (some a, t)) (fun _ t => p (none, t))) : p (outcome x s) := by
  unfold Ends at h
  unfold PagedMemory.outcome
  cases hx : x s <;> simpa [hx] using h

/-- A request to the frame pool, to the page tables or to the heap, or a write by a client. -/
inductive Request
  | takeFrame
  | returnFrame (f : Frame)
  | createTable
  | initPaging (memoryMap : List Region) (image : KernelImage)
  | mapPage (target : Option PageMap) (virt : VirtualAddress) (phys : PhysicalAddress)
    (size : PageSize)
  | translate (target : Option PageMap) (virt : VirtualAddress)
  | loadKernelMap
  | initHeap (bytes : Nat)
  | growHeap (pages : Nat)
  | allocate (size : Nat)
  | free (p : VirtualAddress)
  | reallocate (p : VirtualAddress) (size : Nat)
  | allocLayout (layout : Layout)
  | allocZeroed (layout : Layout)
  | reallocLayout (p : VirtualAddress) (layout : Layout) (size : Nat)
  | write (a : VirtualAddress) (v : UInt8)

/-- A system, and who holds what of it. -/
structure Ledger where
  system : System
  /-- Frames in the hands of direct callers. -/
  held : List Frame
  /-- Frames that were taken for page tables. -/
  tables : List Frame
  /-- Frames that were taken by the heap. -/
  arena : List Frame
  /-- Trees made apart from the kernel map. -/
  trees : List PageMap
  /-- Payloads in use. -/
  live : List VirtualAddress

namespace Ledger

/-- A system of which nothing was handed out yet. -/
def opened (s : System) : Ledger := ⟨s, [], [], [], [], []⟩

/-- The frames on the free list, as they are read from memory. -/
def free (l : Ledger) : List Frame := l.system.store.frames.freeFrames l.system.ram

/-- The block of a payload, with the size that its header records. -/
def blockAround (m : Ram) (p : VirtualAddress) : Run := ⟨blockOf p, m.blockSize (blockOf p)⟩

/-- The blocks of the payloads in use. -/
def liveBlocks (l : Ledger) : List Run := l.live.map (blockAround l.system.ram)

/-- The blocks on the free list of the heap, as they are read from memory. -/
def freeBlocks (l : Ledger) : List Run := l.system.heap.list.runs l.system.ram

/-- The roots of all trees. -/
def roots (l : Ledger) : List Frame :=
  l.system.paging.kernelMap.root?.toList ++ l.trees.map PageMap.root

/-- The frames that are no longer free. -/
def gone (l : Ledger) (t : System) : List Frame :=
  l.free.filter fun f => f ∉ t.store.frames.freeFrames t.ram

/-- The ledger after an operation on page tables. -/
def paged (l : Ledger) (t : System) : Ledger :=
  { l with system := t, tables := l.gone t ++ l.tables }

/-- The ledger after an operation on the heap. -/
def heaped (l : Ledger) (t : System) : Ledger :=
  { l with system := t, arena := l.gone t ++ l.arena }

/-- The payloads in use without one that was given back; null never is one. -/
def without (l : Ledger) (p : VirtualAddress) : List VirtualAddress :=
  if p.isNull then l.live else l.live.erase p

/-- The ledger after a payload was handed out in place of another one, or refused. -/
def served (l : Ledger) (others : List VirtualAddress) : Option VirtualAddress × System → Ledger
  | (some p, t) => { l.heaped t with live := p :: others }
  | (none, t) => l.heaped t

@[simp] theorem system_served (l : Ledger) (others : List VirtualAddress)
    (r : Option VirtualAddress × System) : (l.served others r).system = r.2 := by
  obtain ⟨_ | p, t⟩ := r <;> rfl

@[simp] theorem trees_served (l : Ledger) (others : List VirtualAddress)
    (r : Option VirtualAddress × System) : (l.served others r).trees = l.trees := by
  obtain ⟨_ | p, t⟩ := r <;> rfl

@[simp] theorem freeBlocks_served (l : Ledger) (others : List VirtualAddress)
    (r : Option VirtualAddress × System) :
    (l.served others r).freeBlocks = r.2.heap.list.runs r.2.ram := by
  rw [freeBlocks, system_served]

/-- Carries out a request. -/
def perform (l : Ledger) : Request → Ledger
  | .takeFrame =>
    let (f, t) := outcome (System.onStore FramePool.allocate) l.system
    { l with system := t, held := f.toList ++ l.held }
  | .returnFrame f =>
    let (_, t) := outcome (System.onStore (FramePool.release f)) l.system
    { l with system := t, held := l.held.erase f }
  | .createTable =>
    let (tree, t) := outcome (System.onPaging Paging.createTable) l.system
    { l.paged t with trees := tree.toList ++ l.trees }
  | .initPaging memoryMap image =>
    l.paged (outcome (System.onPaging (Paging.initPaging memoryMap image)) l.system).2
  | .mapPage target virt phys size =>
    l.paged (outcome (System.onPaging (Paging.memoryMap target virt phys size)) l.system).2
  | .translate _ _ => l
  | .loadKernelMap => l.paged (outcome (System.onPaging Paging.loadKernelMap) l.system).2
  | .initHeap bytes => l.heaped (outcome (System.onHeap (Heap.init bytes)) l.system).2
  | .growHeap pages => l.heaped (outcome (System.onHeap (Heap.expand pages)) l.system).2
  | .allocate size => l.served l.live (outcome (System.onHeap (Heap.allocate size)) l.system)
  | .free p =>
    let (_, t) := outcome (System.onHeap (Heap.free p)) l.system
    { l.heaped t with live := l.without p }
  | .reallocate p size =>
    l.served (l.without p) (outcome (System.onHeap (Heap.reallocate p size)) l.system)
  | .allocLayout layout =>
    let (p, t) := outcome (System.onHeap (Heap.allocLayout layout)) l.system
    l.served l.live (p.join, t)
  | .allocZeroed layout =>
    let (p, t) := outcome (System.onHeap (Heap.allocZeroed layout)) l.system
    l.served l.live (p.join, t)
  | .reallocLayout p layout size =>
    let (q, t) := outcome (System.onHeap (Heap.reallocLayout p layout size)) l.system
    l.served (l.without p) (q.join, t)
  | .write a v => { l with system := { l.system with ram := l.system.ram.write a v } }

/-- What the callers promise: they return frames and payloads that they hold, ask for trees that
exist, and write to frames that they hold and to payloads in use. -/
def Permits (l : Ledger) : Request → Prop
  | .returnFrame f => f ∈ l.held
  | .mapPage (some tree) _ _ _ => tree ∈ l.trees
  | .free p | .reallocate p _ | .reallocLayout p _ _ => p = .null ∨ p ∈ l.live
  | .write a _ => l.system.store.frames.map.frameAt a ∈ l.held ∨
    ∃ p ∈ l.live, a ∈ (blockAround l.system.ram p).drop headerSize
  | _ => True

instance (l : Ledger) : ∀ q, Decidable (l.Permits q)
  | .takeFrame | .createTable | .initPaging .. | .translate .. | .loadKernelMap | .initHeap _
  | .growHeap _ | .allocate _ | .allocLayout _ | .allocZeroed _ | .mapPage none .. =>
    .isTrue trivial
  | .returnFrame f => inferInstanceAs (Decidable (f ∈ l.held))
  | .mapPage (some tree) .. => inferInstanceAs (Decidable (tree ∈ l.trees))
  | .free p | .reallocate p _ | .reallocLayout p _ _ =>
    inferInstanceAs (Decidable (p = .null ∨ p ∈ l.live))
  | .write a _ => inferInstanceAs (Decidable (l.system.store.frames.map.frameAt a ∈ l.held ∨
    ∃ p ∈ l.live, a ∈ (blockAround l.system.ram p).drop headerSize))

/-- Carries out requests one after the other. -/
def performAll (l : Ledger) : List Request → Ledger
  | [] => l
  | q :: rest => (l.perform q).performAll rest

/-- Each of some requests is permitted when its turn comes. -/
def PermitsAll (l : Ledger) : List Request → Prop
  | [] => True
  | q :: rest => l.Permits q ∧ (l.perform q).PermitsAll rest

instance decidablePermitsAll (l : Ledger) : ∀ requests, Decidable (l.PermitsAll requests)
  | [] => .isTrue trivial
  | q :: rest =>
    have := decidablePermitsAll (l.perform q) rest
    inferInstanceAs (Decidable (l.Permits q ∧ (l.perform q).PermitsAll rest))

end Ledger

end PagedMemory
