import PagedMemory.Heap.Basic
/-!
# Allocation by layout

The interface through which a language runtime allocates: a layout of size and alignment instead of
a size, and null instead of an error. Alignments above that of the heap are not served.
-/
namespace PagedMemory

/-- What is asked for: a size, and an alignment that divides the address. -/
structure Layout where
  size : Nat
  align : Nat
  deriving DecidableEq

namespace Layout

/-- The largest size of an object in memory. -/
def maxObjectSize : Nat := 2 ^ 63 - 1

/-- A layout, if the alignment is a power of two and the size, rounded up to the alignment, is not
larger than an object may be. -/
def ofSizeAlign? (size align : Nat) : Option Layout :=
  if align = 2 ^ align.log2 ∧ size + (align - 1) ≤ maxObjectSize then some ⟨size, align⟩ else none

/-- Whether the heap can serve the alignment. -/
def isServed (layout : Layout) : Bool := layout.align ≤ heapAlign

end Layout

namespace Heap

/-- Allocates by layout; nothing if the heap refuses. -/
def allocLayout (layout : Layout) : Step HeapStore (Option VirtualAddress) :=
  if layout.isServed then (allocate layout.size).toOption else pure none

/-- Allocates by layout and clears as many bytes as the layout asks for. -/
def allocZeroed (layout : Layout) : Step HeapStore (Option VirtualAddress) := do
  let some payload ← allocLayout layout | return none
  onStore <| Store.updateRam (·.fill payload layout.size 0)
  return some payload

/-- Moves a payload of a layout into a new block of another size; nothing if the heap refuses. -/
def reallocLayout (payload : VirtualAddress) (layout : Layout) (size : Nat) :
    Step HeapStore (Option VirtualAddress) :=
  if layout.isServed then (reallocate payload size).toOption else pure none

end Heap

end PagedMemory
