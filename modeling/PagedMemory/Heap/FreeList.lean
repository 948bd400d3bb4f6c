import PagedMemory.Constants
import PagedMemory.Outcome
import PagedMemory.Ram.Word
/-!
# The free list of the heap

Memory of the heap is divided into blocks. A block starts with a header of sixteen bytes: the size
of the whole block, header included, then the address of the next free block. The payload follows
the header, and its address is what a user of the heap holds. In a block that is in use only the
size means something.

Free blocks form a list in no particular order. A request takes the first block that is large
enough; what is left of it stays in its place on the list if a header fits.
-/
namespace PagedMemory

/-- Bytes in front of every payload. -/
def headerSize : Nat := 16

theorem headerSize_eq_heapAlign : headerSize = heapAlign := rfl

namespace Ram

def blockSize (m : Ram) (block : VirtualAddress) : Nat := (m.readWord block).toNat

/-- The free block that a block links to. -/
def blockNext (m : Ram) (block : VirtualAddress) : VirtualAddress := ⟨m.readWord (block + 8)⟩

def setBlockSize (m : Ram) (block : VirtualAddress) (size : Nat) : Ram :=
  m.writeWord block (UInt64.ofNat size)

def setBlockNext (m : Ram) (block next : VirtualAddress) : Ram := m.writeWord (block + 8) next.value

def setHeader (m : Ram) (block : VirtualAddress) (size : Nat) (next : VirtualAddress) : Ram :=
  (m.setBlockSize block size).setBlockNext block next

end Ram

def payloadOf (block : VirtualAddress) : VirtualAddress := block + headerSize

def blockOf (payload : VirtualAddress) : VirtualAddress := payload - UInt64.ofNat headerSize

@[simp] theorem blockOf_payloadOf (block : VirtualAddress) : blockOf (payloadOf block) = block :=
  Address.ext_value (UInt64.add_sub_cancel block.value (UInt64.ofNat headerSize))

/-- A list of free blocks, threaded through their headers. -/
structure FreeList where
  first : VirtualAddress
  deriving DecidableEq

namespace FreeList

def empty : FreeList := ⟨.null⟩

/-- Aligned blocks do not overlap, so no list of them has more members than this. -/
def maxBlocks : Nat := 2 ^ 60

/-- The blocks on the way along at most `n` links. -/
def chain (m : Ram) : Nat → VirtualAddress → List VirtualAddress
  | 0, _ => []
  | n + 1, block => if block.isNull then [] else block :: chain m n (m.blockNext block)

def blocks (list : FreeList) (m : Ram) : List VirtualAddress := chain m maxBlocks list.first

def count (list : FreeList) (m : Ram) : Nat := (list.blocks m).length

/-- The sizes of all free blocks together, headers included. -/
def freeBytes (list : FreeList) (m : Ram) : Nat := ((list.blocks m).map m.blockSize).foldr (· + ·) 0

/-- Adds a block of `size` bytes at the front of the list. -/
def push (list : FreeList) (m : Ram) (block : VirtualAddress) (size : Nat) : Ram × FreeList :=
  (m.setHeader block size list.first, ⟨block⟩)

/-- Puts a block in use back at the front of the list, with the size recorded for it. -/
def release (list : FreeList) (m : Ram) (payload : VirtualAddress) : Ram × FreeList :=
  (m.setBlockNext (blockOf payload) list.first, ⟨blockOf payload⟩)

/-- The usable bytes of a block in use. A recorded size below that of a header is a fault. -/
def payloadSize (m : Ram) (payload : VirtualAddress) : Except Fault Nat :=
  let size := m.blockSize (blockOf payload)
  if headerSize ≤ size then .ok (size - headerSize) else .error .subOverflow

/-- The first block of at least `needed` bytes, and the block that links to it if it is not the
first of the list; at most `n` links are followed. -/
def firstFit (m : Ram) (needed : Nat) :
    Nat → Option VirtualAddress → VirtualAddress → Option (Option VirtualAddress × VirtualAddress)
  | 0, _, _ => none
  | n + 1, previous, block =>
    if block.isNull then none
    else if needed ≤ m.blockSize block then some (previous, block)
    else firstFit m needed n (some block) (m.blockNext block)

/-- Makes the list go on with `next` after a block, or start with it. -/
def relink (list : FreeList) (m : Ram) (previous : Option VirtualAddress) (next : VirtualAddress) :
    Ram × FreeList :=
  match previous with
  | none => (m, ⟨next⟩)
  | some block => (m.setBlockNext block next, list)

/-- Takes `needed` bytes from the start of a free block; the rest takes the place of the block if a
header fits into it. -/
def carve (list : FreeList) (m : Ram) (needed : Nat) (previous : Option VirtualAddress)
    (block : VirtualAddress) : Ram × FreeList :=
  let size := m.blockSize block
  let (m, list) :=
    if headerSize ≤ size - needed then
      let rest := block + needed
      let (m, list) :=
        list.relink (m.setHeader rest (size - needed) (m.blockNext block)) previous rest
      (m.setBlockSize block needed, list)
    else
      list.relink m previous (m.blockNext block)
  (m.setBlockNext block .null, list)

/-- Takes a payload of `size` bytes, a multiple of the alignment, out of the first block that is
large enough. No block ends with the address space, so the payload is not at null. -/
def take? (list : FreeList) (m : Ram) (size : Nat) : Option (VirtualAddress × Ram × FreeList) :=
  let needed := headerSize + size
  if needed < 2 ^ 64 then
    (firstFit m needed maxBlocks none list.first).map fun (previous, block) =>
      (payloadOf block, list.carve m needed previous block)
  else none

end FreeList

end PagedMemory
