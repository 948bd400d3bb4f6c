import PagedMemory.Heap.FreeList
/-!
# A session on a free list

A free list over an arena of its own. Positions are offsets from the start of the arena. The session
knows the set of payloads in use, and releases or measures no other; a payload that blocks pushed on
top of each other hand out twice is in use once.
-/
namespace PagedMemory

/-- What the user of a free list asks for. -/
inductive ArenaRequest
  | push (offset size : Nat)
  | take (size : Nat)
  | release (offset : Nat)
  | payload (offset : Nat)

inductive ArenaReply
  | refused
  | done
  | noBlock
  | taken (offset size : Nat)
  | size (n : Nat)
  | stopped (f : Fault)

/-- An arena, its free list, and the offsets of the payloads in use, each once. -/
structure Arena where
  size : Nat
  ram : Ram
  list : FreeList
  taken : List Nat

namespace Arena

def maxSize : Nat := 65536

def base : VirtualAddress := ⟨0x10000⟩

/-- A session on an arena that no block was pushed to. -/
def start? (size : Nat) : Option Arena :=
  if size % heapAlign = 0 ∧ size ≤ maxSize then some ⟨size, .uniform 0xee, .empty, []⟩ else none

def summary (s : Arena) : Nat × Nat := (s.list.count s.ram, s.list.freeBytes s.ram)

def step (s : Arena) : ArenaRequest → ArenaReply × Arena
  | .push offset size =>
    if offset % heapAlign = 0 ∧ size % heapAlign = 0 ∧ headerSize ≤ size ∧
        offset + size ≤ s.size then
      let (ram, list) := s.list.push s.ram (base + offset) size
      (.done, { s with ram, list })
    else (.refused, s)
  | .take size =>
    if size % heapAlign = 0 then
      match s.list.take? s.ram size with
      | none => (.noBlock, s)
      | some (p, ram, list) =>
        let offset := base.distance p
        let s := { s with ram, list, taken := s.taken.insert offset }
        match FreeList.payloadSize ram p with
        | .ok n => (.taken offset n, s)
        | .error f => (.stopped f, s)
    else (.refused, s)
  | .release offset =>
    if offset ∈ s.taken then
      let (ram, list) := s.list.release s.ram (base + offset)
      (.done, { s with ram, list, taken := s.taken.erase offset })
    else (.refused, s)
  | .payload offset =>
    if offset ∈ s.taken then
      match FreeList.payloadSize s.ram (base + offset) with
      | .ok n => (.size n, s)
      | .error f => (.stopped f, s)
    else (.refused, s)

end Arena

end PagedMemory
