import PagedMemory.Region.FrameRange
/-!
# Regions of physical memory

An entry of the memory map: a range of physical addresses and what it is used for. A region has two
sets of frames. `frames` are those that lie inside it, so both edges round inward; a pool may hand
these out. `coveringFrames` are those that it touches, so both edges round outward; a map of the
region needs these.
-/
namespace PagedMemory

/-- What a region is used for. -/
inductive RegionKind
  /-- Free RAM. -/
  | usable
  /-- Owned by firmware or hardware. -/
  | reserved
  /-- Tables of the firmware, free once read. -/
  | acpiReclaimable
  /-- Storage that the firmware keeps. -/
  | acpiNvs
  /-- Defective RAM. -/
  | badMemory
  /-- Data of the boot loader. -/
  | bootloaderReclaimable
  /-- The kernel image and the modules loaded with it. -/
  | kernelAndModules
  /-- The memory of a linear framebuffer. -/
  | framebuffer
  deriving DecidableEq

namespace RegionKind

def all : List RegionKind :=
  [usable, reserved, acpiReclaimable, acpiNvs, badMemory, bootloaderReclaimable, kernelAndModules,
    framebuffer]

/-- The number of a kind in a memory map. -/
def code : RegionKind → Nat
  | usable => 0
  | reserved => 1
  | acpiReclaimable => 2
  | acpiNvs => 3
  | badMemory => 4
  | bootloaderReclaimable => 5
  | kernelAndModules => 6
  | framebuffer => 7

def name : RegionKind → String
  | usable => "Usable"
  | reserved => "Reserved"
  | acpiReclaimable => "AcpiReclaimable"
  | acpiNvs => "AcpiNvs"
  | badMemory => "BadMemory"
  | bootloaderReclaimable => "BootloaderReclaimable"
  | kernelAndModules => "KernelAndModules"
  | framebuffer => "Framebuffer"

def ofName? (s : String) : Option RegionKind := all.find? fun k => k.name == s

instance : Describe RegionKind := ⟨name⟩

end RegionKind

/-- A range of physical memory and its use. -/
structure Region where
  base : PhysicalAddress
  length : UInt64
  kind : RegionKind
  deriving DecidableEq

namespace Region

/-- One past the last byte as a number, but never beyond the last address. -/
def limit (r : Region) : Nat := min (r.base.toNat + r.length.toNat) (2 ^ 64 - 1)

/-- One past the last byte; the last address if the region reaches it. -/
def endAddress (r : Region) : PhysicalAddress := .ofNat r.limit

/-- Whether the frames of the region may be handed out. -/
def isUsable (r : Region) : Bool := r.kind == .usable

theorem limit_lt (r : Region) : r.limit < 2 ^ 64 := by
  unfold limit; omega

/-- The base rounded up to a frame; the last address if that leaves the address space. -/
def firstFrameStart (r : Region) : PhysicalAddress :=
  (r.base.alignUp? .small).getD ⟨0xffffffffffffffff⟩

/-- The number of the frame around an address, among all frames of the address space. -/
theorem frameNumber_le {n : Nat} (h : n < 2 ^ 64) : n / 4096 ≤ PageSize.small.pages :=
  Nat.le_of_lt (Nat.div_lt_of_lt_mul h)

def frames (r : Region) : FrameRange :=
  .between (r.firstFrameStart.toNat / 4096) (r.limit / 4096)
    (frameNumber_le r.firstFrameStart.toNat_lt) (frameNumber_le r.limit_lt)

/-- The end of the region rounded up to a frame, but never beyond the last address. -/
def coveringLimit (r : Region) : Nat := min (r.limit + 4095) (2 ^ 64 - 1)

theorem coveringLimit_lt (r : Region) : r.coveringLimit < 2 ^ 64 := by
  unfold coveringLimit; omega

def coveringFrames (r : Region) : FrameRange :=
  .between (r.base.toNat / 4096) (r.coveringLimit / 4096)
    (frameNumber_le r.base.toNat_lt) (frameNumber_le r.coveringLimit_lt)

/-- The bounds of the region as they appear in log lines. -/
def bounds (r : Region) : String := toString r.base ++ ".." ++ toString r.endAddress

instance : Describe Region :=
  ⟨fun r => Text.record "MemoryRegion"
    [("base", describe r.base.value), ("length", describe r.length), ("kind", describe r.kind)]⟩

end Region

end PagedMemory
