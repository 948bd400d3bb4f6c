import PagedMemory.Constants
import PagedMemory.Paging.Entry
import PagedMemory.Ram.Word
/-!
# Page tables

A table is 512 entries, on its own or as 4096 bytes of memory. A virtual address selects one entry
per level: nine bits each, from bit 47 down to bit 12.
-/
namespace PagedMemory

/-- The place of an entry in a table. -/
abbrev TableIndex := Fin tableEntries

namespace TableIndex

/-- The index with a number, if a table has that many entries. -/
def ofNat? (n : Nat) : Option TableIndex :=
  if h : n < tableEntries then some ⟨n, h⟩ else none

/-- The nine bits of an address from a bit on. -/
def ofBits (a : VirtualAddress) (shift : Nat) (fits : shift + 9 ≤ 64) : TableIndex :=
  ⟨(⟨shift, 9, fits⟩ : BitField).get a.value, BitField.get_lt _ _⟩

instance : Describe TableIndex := ⟨fun i => Text.applied "TableIndex" (describe i.val)⟩

end TableIndex

/-- The four levels of tables, root first. -/
inductive TableLevel
  | pml4
  | pml3
  | pml2
  | pml1
  deriving DecidableEq

namespace TableLevel

instance : ToString TableLevel where
  toString
    | pml4 => "PML4"
    | pml3 => "PML3"
    | pml2 => "PML2"
    | pml1 => "PML1"

instance : Describe TableLevel where
  describe
    | pml4 => "Pml4"
    | pml3 => "Pml3"
    | pml2 => "Pml2"
    | pml1 => "Pml1"

end TableLevel

/-- The entries that a virtual address selects, one per level. -/
structure TableIndices where
  pml4 : TableIndex
  pml3 : TableIndex
  pml2 : TableIndex
  pml1 : TableIndex
  deriving DecidableEq

namespace TableIndices

/-- The indices of an address: bits 39 to 47, 30 to 38, 21 to 29 and 12 to 20. -/
def of (a : VirtualAddress) : TableIndices where
  pml4 := .ofBits a 39 (by decide)
  pml3 := .ofBits a 30 (by decide)
  pml2 := .ofBits a 21 (by decide)
  pml1 := .ofBits a 12 (by decide)

/-- The indices from the root down. -/
def toList (i : TableIndices) : List TableIndex := [i.pml4, i.pml3, i.pml2, i.pml1]

instance : Describe TableIndices :=
  ⟨fun i => Text.record "PageTableIndices"
    [("pml4", describe i.pml4), ("pml3", describe i.pml3), ("pml2", describe i.pml2),
      ("pml1", describe i.pml1)]⟩

end TableIndices

/-- A table apart from memory: an entry for every index. -/
structure PageTable where
  entry : TableIndex → Entry

namespace PageTable

/-- A table in which no entry is used. -/
def empty : PageTable := ⟨fun _ => .unused⟩

/-- Replaces an entry. -/
def set (t : PageTable) (i : TableIndex) (e : Entry) : PageTable :=
  ⟨fun j => if j = i then e else t.entry j⟩

/-- The number of entries with a bit set. -/
def used (t : PageTable) : Nat :=
  (List.finRange tableEntries).countP fun i => !(t.entry i).isUnused

@[simp] theorem entry_empty (i : TableIndex) : empty.entry i = .unused := rfl

theorem entry_set (t : PageTable) (i j : TableIndex) (e : Entry) :
    (t.set i e).entry j = if j = i then e else t.entry j := rfl

end PageTable

namespace Ram

/-- Where an entry of the table at an address is stored. -/
def entryAddress (table : VirtualAddress) (i : TableIndex) : VirtualAddress := table + 8 * i.val

/-- An entry of the table at an address. -/
def entry (m : Ram) (table : VirtualAddress) (i : TableIndex) : Entry :=
  ⟨m.readWord (entryAddress table i)⟩

/-- Replaces an entry of the table at an address. -/
def setEntry (m : Ram) (table : VirtualAddress) (i : TableIndex) (e : Entry) : Ram :=
  m.writeWord (entryAddress table i) e.bits

/-- Clears every entry of the table at an address. -/
def clearTable (m : Ram) (table : VirtualAddress) : Ram := m.fill table frameSize 0

/-- The table at an address, taken out of memory. -/
def pageTable (m : Ram) (table : VirtualAddress) : PageTable := ⟨m.entry table⟩

/-- The bytes of an entry, counted from the start of its table. -/
theorem distance_of_distance_entryAddress {table b : VirtualAddress} {i : TableIndex}
    (h : (entryAddress table i).distance b < 8) :
    8 * i.val ≤ table.distance b ∧ table.distance b < 8 * i.val + 8 := by
  have hi : i.val < 512 := i.isLt
  rw [entryAddress] at h
  rcases Nat.lt_or_ge (table.distance b) (8 * i.val) with hlt | hge
  · have := Address.distance_add_of_lt table b hlt (by omega)
    omega
  · have := Address.distance_add_of_le table b hge
    omega

/-- Entries of one table do not overlap. -/
theorem le_distance_entryAddress {table b : VirtualAddress} {i j : TableIndex} (h : i ≠ j)
    (hb : (entryAddress table j).distance b < 8) : 8 ≤ (entryAddress table i).distance b := by
  rcases Nat.lt_or_ge ((entryAddress table i).distance b) 8 with hlt | hge
  · have hi := distance_of_distance_entryAddress hlt
    have hj := distance_of_distance_entryAddress hb
    exact absurd (Fin.ext (by omega)) h
  · exact hge

/-- Replacing an entry of a table is replacing it in memory. -/
theorem pageTable_setEntry (m : Ram) (table : VirtualAddress) (i : TableIndex) (e : Entry) :
    (m.setEntry table i e).pageTable table = (m.pageTable table).set i e := by
  simp only [pageTable, PageTable.set, PageTable.mk.injEq]
  funext j
  by_cases h : j = i
  · subst h
    simp [entry, setEntry]
  · rw [if_neg h, entry, entry, setEntry]
    refine congrArg Entry.mk (readWord_congr _ fun b hb => read_writeWord_of_le _ _ _ _ ?_)
    exact le_distance_entryAddress (Ne.symm h) hb

/-- A cleared table in memory is the empty table. -/
theorem pageTable_clearTable (m : Ram) (table : VirtualAddress) :
    (m.clearTable table).pageTable table = .empty := by
  simp only [pageTable, PageTable.empty, PageTable.mk.injEq]
  funext i
  rw [entry, Entry.unused]
  refine congrArg Entry.mk (readWord_eq_zero _ fun b hb => ?_)
  have hi : i.val < 512 := i.isLt
  have := distance_of_distance_entryAddress hb
  rw [clearTable, read_fill, if_pos]
  simp only [frameSize]
  omega

end Ram

end PagedMemory
