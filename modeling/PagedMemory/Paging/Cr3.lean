import PagedMemory.Page
import PagedMemory.Paging.BitField
/-!
# The page-table base register

Register CR3 holds the frame of the top-level table that the processor walks, and two flags that
control caching of that table.
-/
namespace PagedMemory

/-- A value of register CR3. -/
structure Cr3 where
  bits : UInt64
  deriving DecidableEq

namespace Cr3

/-- Bit 3: the top-level table is cached write-through. -/
def writeThroughField : BitField := ⟨3, 1, by decide⟩

/-- Bit 4: the top-level table is not cached. -/
def cacheDisableField : BitField := ⟨4, 1, by decide⟩

/-- Bits 12 to 51: the frame of the top-level table. -/
def rootField : BitField := ⟨12, 40, BitField.frame_fits⟩

/-- Whether the write-through flag is set. -/
def writeThrough (r : Cr3) : Bool := writeThroughField.get r.bits == 1

/-- Whether the cache-disable flag is set. -/
def cacheDisable (r : Cr3) : Bool := cacheDisableField.get r.bits == 1

/-- The value with the write-through flag set or cleared. -/
def withWriteThrough (r : Cr3) (value : Bool) : Cr3 := ⟨writeThroughField.set r.bits value.toNat⟩

/-- The value with the cache-disable flag set or cleared. -/
def withCacheDisable (r : Cr3) (value : Bool) : Cr3 := ⟨cacheDisableField.set r.bits value.toNat⟩

/-- The value that makes the tree below a root the live one, with ordinary caching. -/
def ofRoot (root : Frame) : Except Fault Cr3 :=
  if rootField.holds root.number then .ok ⟨rootField.set 0 root.number⟩
  else .error .frameNumberRange

/-- The number of the frame of the top-level table. -/
def rootNumber (r : Cr3) : Nat := rootField.get r.bits

/-- The frame of the top-level table. -/
def root (r : Cr3) : Frame :=
  ⟨r.rootNumber, Nat.lt_of_lt_of_le (rootField.get_lt r.bits) (by decide)⟩

/-- The address of the top-level table. -/
def rootAddress (r : Cr3) : PhysicalAddress := r.root.base

instance : Describe Cr3 :=
  ⟨fun r => Text.record "Cr3"
    [("pwt", describe r.writeThrough), ("pcd", describe r.cacheDisable),
      ("pml4_frame", describe r.rootNumber)]⟩

end Cr3

end PagedMemory
