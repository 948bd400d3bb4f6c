import PagedMemory.PageSize
/-!
# Sizes and limits

The numbers that the allocators are tuned with.
-/
namespace PagedMemory

/-- Bytes of a physical frame, the size of the smallest mapping. -/
def frameSize : Nat := 4096

/-- Entries of a page table at every level. -/
def tableEntries : Nat := 512

/-- Where a kernel in the higher half usually runs. -/
def kernelBase : UInt64 := 0xffffffff80000000

/-- Bytes asked for when the heap is first set up. -/
def initialHeapSize : Nat := 10 * 4096

/-- Frames taken at least whenever the heap runs dry. -/
def heapExpandPages : Nat := 10

/-- Alignment of every heap payload, and the size of a block header. -/
def heapAlign : Nat := 16

theorem frameSize_eq_bytes : frameSize = PageSize.small.bytes := rfl

theorem frameSize_dvd_initialHeapSize : frameSize ∣ initialHeapSize := ⟨10, rfl⟩

end PagedMemory
