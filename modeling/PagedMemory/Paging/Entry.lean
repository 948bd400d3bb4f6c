import PagedMemory.Page
import PagedMemory.Paging.BitField
/-!
# Page-table entries

One 64-bit entry has the same layout at every level: flags in the low bits, and in bits 12 to 51 the
number of the frame that it refers to. Bit 6, bits 8 to 11 and bits 52 to 63 are carried along
unread. Building an entry for a frame that does not fit into forty bits is a fault.
-/
namespace PagedMemory

/-- The flags of an entry. -/
inductive EntryFlag
  | present
  | writable
  | user
  | writeThrough
  | cacheDisable
  | accessed
  /-- In a PML2 entry: the entry is a leaf of 2 MiB. -/
  | pageSize
  deriving DecidableEq

namespace EntryFlag

def all : List EntryFlag :=
  [present, writable, user, writeThrough, cacheDisable, accessed, pageSize]

def bit : EntryFlag → Nat
  | present => 0
  | writable => 1
  | user => 2
  | writeThrough => 3
  | cacheDisable => 4
  | accessed => 5
  | pageSize => 7

def name : EntryFlag → String
  | present => "present"
  | writable => "writable"
  | user => "user"
  | writeThrough => "write_through"
  | cacheDisable => "cache_disable"
  | accessed => "accessed"
  | pageSize => "page_size"

def ofName? (s : String) : Option EntryFlag := all.find? fun f => f.name == s

def field (f : EntryFlag) : BitField := ⟨f.bit, 1, by cases f <;> decide⟩

end EntryFlag

/-- An entry of a page table at any level. -/
structure Entry where
  bits : UInt64
  deriving DecidableEq

namespace Entry

def unused : Entry := ⟨0⟩

/-- Bits 12 to 51. -/
def frameField : BitField := ⟨12, 40, BitField.frame_fits⟩

def has (e : Entry) (f : EntryFlag) : Bool := f.field.get e.bits == 1

/-- The entry with a flag set or cleared. -/
def withFlag (e : Entry) (f : EntryFlag) (value : Bool) : Entry :=
  ⟨f.field.set e.bits value.toNat⟩

/-- The number of the frame that the entry refers to. -/
def frameNumber (e : Entry) : Nat := frameField.get e.bits

/-- The entry with another frame number. -/
def withFrameNumber (e : Entry) (n : Nat) : Except Fault Entry :=
  if frameField.holds n then .ok ⟨frameField.set e.bits n⟩ else .error .frameNumberRange

/-- The flags of a link to a table and of a leaf: present and writable, for the supervisor only. -/
def linkFlags : Entry := (unused.withFlag .present true).withFlag .writable true

def table (f : Frame) : Except Fault Entry := linkFlags.withFrameNumber f.number

/-- A 4 KiB leaf of a PML1 table. -/
def leaf (f : Frame) : Except Fault Entry := table f

/-- A 2 MiB leaf of a PML2 table. -/
def largeLeaf (p : Page .physical .large) : Except Fault Entry :=
  (linkFlags.withFlag .pageSize true).withFrameNumber (p.base.toNat / 4096)

theorem frameNumber_lt (e : Entry) : e.frameNumber < 2 ^ 40 := frameField.get_lt e.bits

/-- The frame that the entry refers to, as a table or as a leaf. -/
def frame (e : Entry) : Frame :=
  ⟨e.frameNumber, Nat.lt_of_lt_of_le e.frameNumber_lt (by decide)⟩

/-- The 2 MiB page that a large leaf maps. -/
def largePage (e : Entry) : Page .physical .large := .containing e.frame.base

/-- Whether the entry links to a table of the next level; only above PML1. -/
def isTable (e : Entry) : Bool := e.has .present && !e.has .pageSize

def isUnused (e : Entry) : Bool := e.bits == 0

instance : Describe Entry :=
  ⟨fun e => Text.record "PageTableEntry"
    ((EntryFlag.all.map fun f => (f.name, describe (e.has f))) ++
      [("frame_number", describe e.frameNumber)])⟩

end Entry

end PagedMemory
