import PagedMemory.Region.Basic
/-!
# Boot information

What is known about the machine when the kernel starts: its memory map, where the kernel image was
loaded, and the offset of the direct map.
-/
namespace PagedMemory

/-- Where the kernel image was loaded and where it runs. -/
structure KernelImage where
  physicalBase : UInt64
  virtualBase : UInt64
  deriving DecidableEq

namespace KernelImage

/-- Where an address of the image is visible: both bases move together, wrapping around. -/
def toVirtual (image : KernelImage) (a : PhysicalAddress) : VirtualAddress :=
  ⟨a.value + (image.virtualBase - image.physicalBase)⟩

instance : Describe KernelImage :=
  ⟨fun image => Text.record "KernelAddress"
    [("physical_base", describe image.physicalBase), ("virtual_base", describe image.virtualBase)]⟩

end KernelImage

/-- Everything that the memory core is told at boot. -/
structure BootInfo where
  memoryMap : List Region
  kernel : KernelImage
  directMapOffset : UInt64
  deriving DecidableEq

namespace BootInfo

/-- The lengths of the usable regions added up; a sum beyond the word size is a fault. -/
def usableBytes (info : BootInfo) : Except Fault UInt64 :=
  let total := ((info.memoryMap.filter Region.isUsable).map fun r => r.length.toNat).foldr (· + ·) 0
  if total < 2 ^ 64 then .ok (UInt64.ofNat total) else .error .addOverflow

instance : Describe BootInfo :=
  ⟨fun info => Text.record "KernelBootInfo"
    [("memory_map", describe info.memoryMap), ("kernel_address", describe info.kernel),
      ("hhdm_offset", describe info.directMapOffset)]⟩

end BootInfo

end PagedMemory
