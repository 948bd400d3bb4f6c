import PagedMemory.Page
/-!
# The direct map

All of physical memory is visible in the virtual address space at a fixed offset. Both directions
wrap around, so they are total and inverse to each other.
-/
namespace PagedMemory

/-- The window at which physical memory appears: virtual is physical plus offset. -/
structure DirectMap where
  offset : UInt64
  deriving DecidableEq

namespace DirectMap

def toVirtual (map : DirectMap) (a : PhysicalAddress) : VirtualAddress := ⟨a.value + map.offset⟩

def toPhysical (map : DirectMap) (a : VirtualAddress) : PhysicalAddress := ⟨a.value - map.offset⟩

/-- Where the first byte of a frame is visible. -/
def aliasOf (map : DirectMap) (f : Frame) : VirtualAddress := map.toVirtual f.base

@[simp] theorem toPhysical_toVirtual (map : DirectMap) (a : PhysicalAddress) :
    map.toPhysical (map.toVirtual a) = a := by
  ext
  simp [toPhysical, toVirtual]

@[simp] theorem toVirtual_toPhysical (map : DirectMap) (a : VirtualAddress) :
    map.toVirtual (map.toPhysical a) = a := by
  ext
  simp [toPhysical, toVirtual]

instance : Describe DirectMap :=
  ⟨fun map => Text.record "HhdmPhysMapper" [("offset", describe map.offset)]⟩

end DirectMap

end PagedMemory
