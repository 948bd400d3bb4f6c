import PagedMemory.Power
import PagedMemory.Text.Describe
/-!
# Page sizes

The two sizes of page that a mapping can have. A page size is a power of two, so every quantity
about it follows from its exponent.
-/
namespace PagedMemory

/-- The sizes of a page that can be mapped. -/
inductive PageSize
  /-- 4 KiB, the size of a physical frame. -/
  | small
  /-- 2 MiB, the range of one lowest-level table. -/
  | large
  deriving DecidableEq

namespace PageSize

/-- The number of address bits below the page number. -/
def shift : PageSize → Nat
  | small => 12
  | large => 21

def bytes (size : PageSize) : Nat := 2 ^ size.shift

def pages (size : PageSize) : Nat := 2 ^ (64 - size.shift)

/-- The mask of the offset bits. -/
def mask (size : PageSize) : UInt64 := UInt64.ofNat (size.bytes - 1)

/-- The short name used in addresses: `4K`, `2M`. -/
def label : PageSize → String
  | small => "4K"
  | large => "2M"

/-- The name of a leaf of this size. -/
def leafName : PageSize → String
  | small => "Page4K"
  | large => "Large2M"

/-- The size of the leaf that a mapping request asks for. -/
def ofLarge (wantsLarge : Bool) : PageSize := if wantsLarge then large else small

theorem bytes_pos (size : PageSize) : 0 < size.bytes := Nat.two_pow_pos _

theorem pages_pos (size : PageSize) : 0 < size.pages := Nat.two_pow_pos _

/-- The pages of either size fill the address space. -/
theorem pages_mul_bytes (size : PageSize) : size.pages * size.bytes = 2 ^ 64 := by
  cases size <;> rfl

instance : ToString PageSize := ⟨label⟩

instance : Describe PageSize := ⟨label⟩

end PageSize

end PagedMemory
