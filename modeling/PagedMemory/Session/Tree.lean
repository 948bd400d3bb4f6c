import PagedMemory.Paging.AddressSpace
import PagedMemory.Session.Report
/-!
# A session on a page-table tree

Trees are built in a small RAM of their own, with a fixed list of frames to take tables from. One
tree at a time is the current one. A table outside of that RAM cannot be touched.
-/
namespace PagedMemory

/-- What the user of a tree asks for. -/
inductive TreeRequest
  | create
  | attach (table : PhysicalAddress)
  | map (va : VirtualAddress) (pa : PhysicalAddress) (size : PageSize)
  | leaf (va : VirtualAddress)
  | translate (va : VirtualAddress)
  | entry (table : PhysicalAddress) (i : TableIndex)
  | used (table : PhysicalAddress)
  | poke (table : PhysicalAddress) (i : TableIndex) (bits : UInt64)

inductive TreeReply
  | refused
  | done
  | root (f : Frame)
  | mapped (size : PageSize)
  | leaf (found : Option (Entry × PageSize))
  | translated (found : Option PhysicalAddress)
  | entry (e : Entry)
  | count (n : Nat)
  /-- No frame was left for a table of a level. -/
  | failed (level : TableLevel) (report : ErrorReport)
  | stopped (f : Fault)

/-- RAM of some frames from a physical address on, the frames still to be handed out, how many there
were, and the current tree. -/
structure TreeSession where
  base : PhysicalAddress
  frames : Nat
  store : Store (List Frame)
  supplied : Nat
  root : Option Frame

namespace TreeSession

/-- The largest RAM of a session, in frames. -/
def maxFrames : Nat := 128

/-- A session without a current tree. Frames are supplied by their place in RAM. -/
def start? (base : PhysicalAddress) (frames : Nat) (supply : List Nat) (log : Log) :
    Option TreeSession :=
  if frames ≤ maxFrames ∧ base.isAligned .small ∧ supply.all (· < frames) then
    let supplied := supply.map fun i => Page.containing (base + i * frameSize)
    some ⟨base, frames, ⟨.uniform 0xa5, supplied, log⟩, supply.length, none⟩
  else none

/-- Only the RAM of the session is reached. -/
def window (s : TreeSession) : Window :=
  ⟨⟨0⟩, fun f => s.base.distance f.base < s.frames * frameSize⟩

def taken (s : TreeSession) : Nat := s.supplied - s.store.frames.length

/-- The reply to an operation that ended at once. -/
def replyOf {α : Type} (reply : α → TreeReply) : Except Fault α → TreeReply
  | .ok a => reply a
  | .error f => .stopped f

/-- Runs an operation on the storage of the session. -/
def run {α : Type} (s : TreeSession) (x : Op MapError (Store (List Frame)) α) :
    Except TreeReply α × TreeSession :=
  match x s.store with
  | .ok a store => (.ok a, { s with store })
  | .error (.error e) store => (.error (.failed e.level (.of e)), { s with store })
  | .error (.fault f) store => (.error (.stopped f), { s with store })

/-- Answers a request on the current tree. -/
def stepIn (s : TreeSession) (space : AddressSpace) : TreeRequest → TreeReply × TreeSession
  | .map va pa size =>
    match s.run (space.mapPage va pa size) with
    | (.ok (), s) => (.mapped size, s)
    | (.error reply, s) => (reply, s)
  | .leaf va => (replyOf .leaf (space.leaf s.store.ram va), s)
  | .translate va => (replyOf .translated (space.translate s.store.ram va), s)
  | .entry table i => (replyOf .entry (space.entry s.store.ram (.containing table) i), s)
  | .used table => (replyOf .count (space.used s.store.ram (.containing table)), s)
  | _ => (.refused, s)

def step (s : TreeSession) : TreeRequest → TreeReply × TreeSession
  | .create =>
    match s.run (AddressSpace.create s.window) with
    | (.ok space, s) => (.root space.root, { s with root := some space.root })
    | (.error reply, s) => (reply, s)
  | .attach table => (.root (.containing table), { s with root := some (.containing table) })
  | .poke table i bits =>
    match s.window.table (.containing table) with
    | .ok t => (.done, { s with store := { s.store with ram := s.store.ram.setEntry t i ⟨bits⟩ } })
    | .error f => (.stopped f, s)
  | request =>
    match s.root with
    | some root => s.stepIn ⟨s.window, root⟩ request
    | none => (.refused, s)

def drainLog (s : TreeSession) : List String × TreeSession :=
  (s.store.log.written, { s with store := { s.store with log := s.store.log.cleared } })

end TreeSession

end PagedMemory
