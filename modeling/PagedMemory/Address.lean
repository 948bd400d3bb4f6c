import PagedMemory.Outcome
import PagedMemory.PageSize
import PagedMemory.Text.Hex
/-!
# Addresses

An address is a machine word in one of three spaces: physical, virtual, or plain memory where the
space does not matter. The space is part of the type, so a physical address is never taken for a
virtual one. Sums with `+` and differences with `-` wrap around; `add?` and `add` refuse to.
-/
namespace PagedMemory

/-- The space that an address belongs to. -/
inductive Space
  | memory
  | physical
  | virtual
  deriving DecidableEq

namespace Space

/-- The word in front of an address of this space in structural text. -/
def addressName : Space → String
  | memory => "MemoryAddress"
  | physical => "PA"
  | virtual => "VA"

/-- The word in front of a page of this space in structural text. -/
def pageName : Space → String
  | memory => "MemoryPage"
  | physical => "PhysicalPage"
  | virtual => "VirtualPage"

end Space

/-- A 64-bit address of a space. -/
structure Address (space : Space) where
  value : UInt64
  deriving DecidableEq

/-- An address whose space does not matter. -/
abbrev MemoryAddress := Address .memory

/-- An address of RAM or of a device, as page-table entries hold it. -/
abbrev PhysicalAddress := Address .physical

/-- An address as a program uses it; any 64-bit value is allowed. -/
abbrev VirtualAddress := Address .virtual

namespace Address

variable {space : Space}

@[ext] theorem ext_value {a b : Address space} (h : a.value = b.value) : a = b := by
  cases a; cases b; cases h; rfl

def toNat (a : Address space) : Nat := a.value.toNat

/-- The address with a given number, modulo the size of the address space. -/
def ofNat (n : Nat) : Address space := ⟨UInt64.ofNat n⟩

theorem toNat_lt (a : Address space) : a.toNat < 2 ^ 64 := a.value.toNat_lt

@[simp] theorem toNat_ofNat (n : Nat) : (ofNat n : Address space).toNat = n % 2 ^ 64 := by
  simp [ofNat, toNat]

theorem toNat_inj {a b : Address space} : a.toNat = b.toNat ↔ a = b :=
  ⟨fun h => ext_value (UInt64.toNat_inj.mp h), fun h => h ▸ rfl⟩

/-- The address past which nothing is stored: no block and no frame starts here. -/
def null : Address space := ⟨0⟩

def isNull (a : Address space) : Bool := a.value == 0

@[simp] theorem isNull_iff (a : Address space) : a.isNull = true ↔ a = null := by
  simp [isNull, null, Address.ext_value_iff]

instance : HAdd (Address space) UInt64 (Address space) := ⟨fun a w => ⟨a.value + w⟩⟩

instance : HAdd (Address space) Nat (Address space) := ⟨fun a n => ⟨a.value + UInt64.ofNat n⟩⟩

instance : HSub (Address space) UInt64 (Address space) := ⟨fun a w => ⟨a.value - w⟩⟩

theorem toNat_addWord (a : Address space) (w : UInt64) :
    (a + w).toNat = (a.toNat + w.toNat) % 2 ^ 64 := UInt64.toNat_add a.value w

theorem toNat_add (a : Address space) (n : Nat) : (a + n).toNat = (a.toNat + n) % 2 ^ 64 := by
  have : (a + n).toNat = (a.toNat + (UInt64.ofNat n).toNat) % 2 ^ 64 := UInt64.toNat_add _ _
  rw [this, UInt64.toNat_ofNat', Nat.add_mod_mod]

/-- How many steps lead from one address up to another, around the top if need be. -/
def distance (a b : Address space) : Nat := (b.value - a.value).toNat

theorem distance_eq (a b : Address space) :
    a.distance b = (2 ^ 64 - a.toNat + b.toNat) % 2 ^ 64 := UInt64.toNat_sub b.value a.value

@[simp] theorem distance_self (a : Address space) : a.distance a = 0 := by
  have := a.toNat_lt
  rw [distance_eq]; omega

/-- From an address `n` steps further on, what lies beyond it is `n` steps nearer. -/
theorem distance_add_of_le (a b : Address space) {n : Nat} (h : n ≤ a.distance b) :
    (a + n).distance b + n = a.distance b := by
  have ha := a.toNat_lt
  have hb := b.toNat_lt
  have hs := a.toNat_add n
  have hd := a.distance_eq b
  have hd' := (a + n).distance_eq b
  omega

/-- From an address `n` steps further on, what lies before it is almost all the way around. -/
theorem distance_add_of_lt (a b : Address space) {n : Nat} (h : a.distance b < n)
    (hn : n ≤ 2 ^ 64) : (a + n).distance b + n = a.distance b + 2 ^ 64 := by
  have ha := a.toNat_lt
  have hb := b.toNat_lt
  have hs := a.toNat_add n
  have hd := a.distance_eq b
  have hd' := (a + n).distance_eq b
  omega

theorem distance_pos {a b : Address space} (h : a ≠ b) : 0 < a.distance b := by
  have ha := a.toNat_lt
  have hb := b.toNat_lt
  have hne : a.toNat ≠ b.toNat := fun e => h (toNat_inj.mp e)
  rw [distance_eq]
  omega

/-- From the next address on every other address is one step nearer. -/
theorem distance_succ (a b : Address space) (h : a ≠ b) :
    (a + 1).distance b + 1 = a.distance b :=
  distance_add_of_le a b (distance_pos h)

/-- The sum, unless it leaves the address space. -/
def add? (a : Address space) (n : UInt64) : Option (Address space) :=
  if a.toNat + n.toNat < 2 ^ 64 then some (a + n) else none

/-- The sum; leaving the address space is a fault. -/
def add (a : Address space) (n : UInt64) : Except Fault (Address space) :=
  match a.add? n with
  | some b => .ok b
  | none => .error .addOverflow

/-- The start of the page around the address. -/
def alignDown (a : Address space) (size : PageSize) : Address space :=
  ofNat (a.toNat / size.bytes * size.bytes)

/-- The least page start not below the address, if the address space has one. -/
def alignUp? (a : Address space) (size : PageSize) : Option (Address space) :=
  let last := a.toNat + (size.bytes - 1)
  if last < 2 ^ 64 then some (ofNat (last / size.bytes * size.bytes)) else none

def isAligned (a : Address space) (size : PageSize) : Bool := a.toNat % size.bytes == 0

def cast (a : Address space) (other : Space) : Address other := ⟨a.value⟩

instance : LE (Address space) := ⟨fun a b => a.value ≤ b.value⟩

instance (a b : Address space) : Decidable (a ≤ b) :=
  inferInstanceAs (Decidable (a.value ≤ b.value))

instance : Max (Address space) := maxOfLe

instance : Min (Address space) := minOfLe

instance : ToString (Address space) := ⟨fun a => Hex.padded a.value⟩

instance : Describe (Address space) :=
  ⟨fun a => Text.applied space.addressName (Hex.padded a.value)⟩

end Address

/-- The place of an address within its page. -/
structure Offset (size : PageSize) where
  value : Nat
  value_lt : value < size.bytes
  deriving DecidableEq

def Address.offset {space : Space} (a : Address space) (size : PageSize) : Offset size :=
  ⟨a.toNat % size.bytes, Nat.mod_lt _ size.bytes_pos⟩

namespace Offset

variable {size : PageSize}

def word (o : Offset size) : UInt64 := UInt64.ofNat o.value

instance : Describe (Offset size) :=
  ⟨fun o => "Offset<" ++ size.label ++ ">(0x" ++ Hex.upper o.value ++ ")"⟩

end Offset

end PagedMemory
