import PagedMemory.Heap.Layout
import PagedMemory.Proofs.Frame.Counting
import PagedMemory.Proofs.Logging.Blind
import PagedMemory.Proofs.Paging.Lifecycle
/-!
# The log does not decide

Frame pool, page tables and heap tell what they do after it was done, and what they tell is worked
out from numbers that they have. So each of their operations is blind to the log. The one exception
is to add a memory map, which works out a number of bytes for the log only.
-/
namespace PagedMemory

open Logged (withLog)

variable {ε : Type} {th th' : Option LogLevel}

/-! ## The frame pool -/

namespace FramePool

theorem blind_push (f : Frame) : LogBlind th th' (push f) := by
  constructor
  rintro t t' ⟨u, l, l', hl, hl', rfl, rfl⟩
  have hframes : ∀ l, (withLog l u).frames = u.frames := fun _ => rfl
  have hram : ∀ l, (withLog l u).ram = u.ram := fun _ => rfl
  rw [push, Agree.get_bind_iff]
  simp only [hframes, hram]
  split
  · exact ⟨rfl, u, l, l', hl, hl', rfl, rfl⟩
  · let v : Store FramePool := { u with
      ram := u.ram.writeWord (u.frames.map.aliasOf f) u.frames.head.value
      frames := { u.frames with head := u.frames.map.aliasOf f, free := u.frames.free + 1 } }
    exact ⟨rfl, v, l, l', hl, hl', rfl, rfl⟩

theorem blind_pop : LogBlind th th' pop := by
  constructor
  rintro t t' ⟨u, l, l', hl, hl', rfl, rfl⟩
  have hframes : ∀ l, (withLog l u).frames = u.frames := fun _ => rfl
  have hram : ∀ l, (withLog l u).ram = u.ram := fun _ => rfl
  rw [pop, Agree.get_bind_iff]
  simp only [hframes, hram]
  split
  · exact ⟨rfl, u, l, l', hl, hl', rfl, rfl⟩
  · let v : Store FramePool :=
      { u with frames := { u.frames with head := ⟨u.ram.readWord u.frames.head⟩ } }
    split
    · exact ⟨rfl, v, l, l', hl, hl', rfl, rfl⟩
    · exact ⟨rfl, { v with frames := { v.frames with free := u.frames.free - 1 } }, l, l', hl, hl',
        rfl, rfl⟩

theorem blind_take? : LogBlind th th' take? := by
  refine blind_pop.bind ?_
  rintro (_ | f)
  · exact .value _
  · exact (LogBlind.changes fun _ _ => rfl).bind fun _ => .value _

theorem blind_allocate : LogBlind th th' allocate := by
  refine blind_take?.ofStep.bind ?_
  rintro (_ | f)
  · exact .fail _
  · exact .value _

theorem blind_release (f : Frame) : LogBlind th th' (release f) := by
  refine (blind_push f).bind ?_
  rintro (_ | _)
  · exact .of_relog fun _ _ => rfl
  · exact .value _

theorem blind_addFrames (gs : List Frame) : LogBlind th th' (addFrames gs) := by
  induction gs with
  | nil => exact .value _
  | cons g gs ih =>
    refine (blind_push g).bind ?_
    rintro (_ | _)
    · exact (LogBlind.logLine _ _).bind fun _ => ih
    · exact ih.bind fun _ => .value _

theorem blind_addRegions (rs : List Region) : LogBlind th th' (addRegions rs) := by
  induction rs with
  | nil => exact .value _
  | cons r rs ih =>
    refine (blind_addFrames _).bind fun n => ?_
    exact (LogBlind.logLine _ _).bind fun _ => ih.bind fun _ => .value _

end FramePool

/-! ## Page tables -/

/-- Frames that are handed out do not depend on the log, whoever hands them out. -/
def BlindSource (th th' : Option LogLevel) (F : Type) [FrameSource F] : Prop :=
  LogBlind th th' (FrameSource.take : Step (Store F) (Option Frame))

theorem blindSource_framePool : BlindSource th th' FramePool := FramePool.blind_take?

theorem blindSource_list : BlindSource th th' (List Frame) := by
  apply LogBlind.of_relog
  rintro l ⟨ram, frames, log⟩
  cases frames <;> rfl

namespace AddressSpace

variable {F : Type} [FrameSource F]

theorem blind_create (hF : BlindSource th th' F) (window : Window) :
    LogBlind th th' (create window : Op MapError (Store F) AddressSpace) := by
  refine (LogBlind.ofStep hF).bind ?_
  rintro (_ | root)
  · exact .fail _
  · refine (LogBlind.check _).bind fun table => (LogBlind.updateRam _).bind fun _ => ?_
    exact (LogBlind.logLine _ _).bind fun _ => .value _

theorem blind_nextTable (hF : BlindSource th th' F) (space : AddressSpace) (parent : Frame)
    (i : TableIndex) (level : TableLevel) :
    LogBlind th th' (space.nextTable parent i level : Op MapError (Store F) Frame) := by
  refine (LogBlind.check _).bind fun parentTable => LogBlind.get_bind (fun _ _ => rfl) fun s => ?_
  dsimp only
  split
  · exact .value _
  · refine (LogBlind.ofStep hF).bind ?_
    rintro (_ | frame)
    · exact .fail _
    · refine (LogBlind.check _).bind fun table => (LogBlind.updateRam _).bind fun _ => ?_
      refine (LogBlind.check _).bind fun link => (LogBlind.updateRam _).bind fun _ => ?_
      exact (LogBlind.logLine _ _).bind fun _ => .value _

theorem blind_mapPage (hF : BlindSource th th' F) (space : AddressSpace) (va : VirtualAddress)
    (pa : PhysicalAddress) (size : PageSize) :
    LogBlind th th' (space.mapPage va pa size : Op MapError (Store F) Unit) := by
  refine (blind_nextTable hF _ _ _ _).bind fun pml3 => ?_
  refine (blind_nextTable hF _ _ _ _).bind fun pml2 => ?_
  cases size with
  | large =>
    refine (LogBlind.check _).bind fun table => (LogBlind.check _).bind fun leaf => ?_
    exact .updateRam _
  | small =>
    refine (blind_nextTable hF _ _ _ _).bind fun pml1 => ?_
    refine (LogBlind.check _).bind fun table => (LogBlind.check _).bind fun leaf => ?_
    exact .updateRam _

end AddressSpace

namespace Paging

theorem blind_onStore {α : Type} {x : EStateM ε (Store FramePool) α} (h : LogBlind th th' x) :
    LogBlind th th' (onStore x) :=
  h.onPart (fun _ _ => rfl) fun _ _ _ _ => rfl

theorem blind_createSpace : LogBlind th th' createSpace :=
  LogBlind.get_bind (fun _ _ => rfl) fun _ =>
    blind_onStore (AddressSpace.blind_create blindSource_framePool _).mapError

theorem blind_mapPage (space : AddressSpace) (virt : VirtualAddress) (phys : PhysicalAddress)
    (size : PageSize) : LogBlind th th' (mapPage space virt phys size) :=
  blind_onStore (AddressSpace.blind_mapPage blindSource_framePool _ _ _ _).mapError

theorem blind_mapFrames (space : AddressSpace) (virtualOf : PhysicalAddress → VirtualAddress)
    (fs : List Frame) : LogBlind th th' (mapFrames space virtualOf fs) := by
  induction fs with
  | nil => exact .value _
  | cons f rest ih => exact (blind_mapPage _ _ _ _).bind fun _ => ih

theorem blind_mapRegion (space : AddressSpace) (image : KernelImage) (r : Region) :
    LogBlind th th' (mapRegion space image r) := by
  rw [mapRegion]
  split
  · exact blind_onStore (.logLine _ _)
  · exact (blind_mapFrames _ _ _).bind fun _ => blind_onStore (.logLine _ _)

theorem blind_mapRegions (space : AddressSpace) (image : KernelImage) (rs : List Region) :
    LogBlind th th' (mapRegions space image rs) := by
  induction rs with
  | nil => exact .value _
  | cons r rest ih => exact (blind_mapRegion _ _ _).bind fun _ => ih

theorem blind_initPaging (memoryMap : List Region) (image : KernelImage) :
    LogBlind th th' (initPaging memoryMap image) := by
  refine LogBlind.get_bind (fun _ _ => rfl) fun s => ?_
  split
  · exact .fail_bind _ _
  · refine blind_createSpace.bind fun space => (blind_mapRegions _ _ _).bind fun _ => ?_
    refine (LogBlind.changes fun _ _ => rfl).bind fun _ => ?_
    exact (blind_onStore (.logLine _ _)).bind fun _ => .value _

theorem blind_memoryMap (target : Option PageMap) (virt : VirtualAddress) (phys : PhysicalAddress)
    (size : PageSize) : LogBlind th th' (memoryMap target virt phys size) := by
  refine LogBlind.get_bind (fun _ _ => rfl) fun s => ?_
  cases targetRoot? s target with
  | none => exact .fail _
  | some root => exact blind_mapPage _ _ _ _

theorem blind_kernelCr3 : LogBlind th th' kernelCr3 := by
  refine LogBlind.get_bind (fun _ _ => rfl) fun s => ?_
  cases s.kernelMap.root? with
  | none => exact .fail _
  | some root => exact .check _

theorem blind_loadKernelMap : LogBlind th th' loadKernelMap := by
  refine LogBlind.get_bind (fun _ _ => rfl) fun s => ?_
  cases s.kernelMap.root? with
  | none => exact .fail _
  | some root =>
    refine (LogBlind.check _).bind fun value => (LogBlind.changes fun _ _ => rfl).bind fun _ => ?_
    exact (blind_onStore (.logLine _ _)).bind fun _ => .value _

/-- Whatever is asked of the page tables. -/
theorem blind_perform (q : Request) : LogBlind th th' q.perform := by
  cases q with
  | initPaging regions image => exact (blind_initPaging _ _).bind fun _ => .value _
  | createTable => exact (blind_createSpace.bind fun _ => .value _).bind fun _ => .value _
  | mapPage target virt phys size => exact (blind_memoryMap _ _ _ _).bind fun _ => .value _
  | translate target virt =>
    exact LogBlind.get_bind (fun _ _ => rfl) fun s => (LogBlind.check _).bind fun _ => .value _
  | kernelCr3 => exact blind_kernelCr3.bind fun _ => .value _
  | loadKernelMap => exact blind_loadKernelMap.bind fun _ => .value _

end Paging

/-! ## The heap -/

namespace Heap

theorem blind_onStore {α : Type} {x : EStateM ε (Store FramePool) α} (h : LogBlind th th' x) :
    LogBlind th th' (onStore x) :=
  h.onPart (fun _ _ => rfl) fun _ _ _ _ => rfl

theorem blind_setMemory (m : Ram) (list : FreeList) :
    LogBlind th th' (setMemory m list : EStateM ε HeapStore Unit) :=
  LogBlind.changes fun _ _ => rfl

theorem blind_pushRun (run : Run) : LogBlind th th' (pushRun run : EStateM ε HeapStore Unit) :=
  LogBlind.get_bind (fun _ _ => rfl) fun _ => blind_setMemory _ _

theorem blind_gather (n : Nat) (run : Option Run) : LogBlind th th' (gather n run) := by
  induction n generalizing run with
  | zero => exact .value _
  | succ n ih =>
    refine (blind_onStore FramePool.blind_take?).bind ?_
    rintro (_ | frame)
    · exact .value _
    · refine LogBlind.get_bind (fun _ _ => rfl) fun s => ?_
      dsimp only
      split
      · exact (blind_onStore (FramePool.blind_release _)).bind fun _ => .value _
      · cases run with
        | none => exact (ih _).bind fun _ => .value _
        | some run =>
          dsimp only
          split
          · exact (ih _).bind fun _ => .value _
          · exact (blind_pushRun _).bind fun _ => (ih _).bind fun _ => .value _

theorem blind_expand (pages : Nat) : LogBlind th th' (expand pages) := by
  have hlog : ∀ got : Nat, LogBlind th th' (do
      if 0 < got then
        modify fun s => { s with heap := { s.heap with
          expansions := s.heap.expansions + 1
          arenaBytes := s.heap.arenaBytes + got * frameSize } }
        let arena := (← get).heap.arenaBytes
        onStore <| Store.logLine .debug fun _ =>
          "heap grew by " ++ got.repr ++ " frames to " ++ (arena / 1024).repr ++ " KiB"
      return got : Step HeapStore Nat) := by
    intro got
    split
    · refine (LogBlind.changes fun _ _ => rfl).bind fun _ => ?_
      refine LogBlind.get_bind (fun _ _ => rfl) fun s => ?_
      exact (blind_onStore (.logLine _ _)).bind fun _ => .value _
    · exact .value _
  refine LogBlind.get_bind (fun _ _ => rfl) fun s => ?_
  split
  · exact .value _
  · refine (blind_gather _ _).bind ?_
    rintro ⟨_ | run, got⟩
    · exact hlog got
    · exact (blind_pushRun run).bind fun _ => hlog got

theorem blind_takeBlock? (payload : Nat) :
    LogBlind th th' (takeBlock? payload : EStateM ε HeapStore _) := by
  refine LogBlind.get_bind (fun _ _ => rfl) fun s => ?_
  cases s.heap.list.take? s.store.ram payload with
  | none => exact .value _
  | some r => exact (blind_setMemory _ _).bind fun _ => .value _

theorem blind_allocate (size : Nat) : LogBlind th th' (allocate size) := by
  refine LogBlind.get_bind (fun _ _ => rfl) fun s => ?_
  dsimp only
  split
  · exact .fail_bind _ _
  · cases payloadFor? size with
    | none => exact .fail _
    | some payload =>
      refine (blind_takeBlock? _).bind ?_
      rintro (_ | p)
      · refine LogBlind.get_bind (fun _ _ => rfl) fun s => ?_
        split
        · exact (blind_onStore (.logLine _ _)).bind fun _ => .fail_bind _ _
        · refine (blind_expand _).ofStep.bind fun got => ?_
          split
          · exact .fail_bind _ _
          · refine (blind_takeBlock? _).bind ?_
            rintro (_ | p)
            · exact .fail _
            · exact .value _
      · exact .value _

theorem blind_init (bytes : Nat) : LogBlind th th' (init bytes) := by
  refine LogBlind.get_bind (fun _ _ => rfl) fun s => ?_
  split
  · exact .fail_bind _ _
  · refine (LogBlind.changes fun _ _ => rfl).bind fun _ => ?_
    dsimp only
    split
    · exact .value _
    · refine (blind_expand _).ofStep.bind fun got => ?_
      have hready : LogBlind th th' (do
          let arena := (← get).heap.arenaBytes
          onStore <| Store.logLine .info fun _ =>
            "heap ready with " ++ (arena / 1024).repr ++ " KiB"
          return got : Op HeapError HeapStore Nat) :=
        LogBlind.get_bind (fun _ _ => rfl) fun s =>
          (blind_onStore (.logLine _ _)).bind fun _ => .value _
      split
      · exact (blind_onStore (.logLine _ _)).bind fun _ => hready
      · exact hready

theorem blind_releaseBlock (payload : VirtualAddress) :
    LogBlind th th' (releaseBlock payload : EStateM ε HeapStore Unit) :=
  LogBlind.get_bind (fun _ _ => rfl) fun _ => blind_setMemory _ _

theorem blind_free (payload : VirtualAddress) : LogBlind th th' (free payload) := by
  rw [free]
  split
  · exact blind_releaseBlock _
  · exact .value _

theorem blind_reallocate (payload : VirtualAddress) (size : Nat) :
    LogBlind th th' (reallocate payload size) := by
  refine (blind_allocate _).bind fun fresh => ?_
  split
  · exact .value _
  · refine LogBlind.get_bind (fun _ _ => rfl) fun s => (LogBlind.check _).bind fun old => ?_
    refine (blind_onStore (.updateRam _)).bind fun _ => ?_
    exact (blind_releaseBlock _).bind fun _ => .value _

theorem blind_allocLayout (layout : Layout) : LogBlind th th' (allocLayout layout) := by
  rw [allocLayout]
  split
  · exact (blind_allocate _).toOption
  · exact .value _

theorem blind_allocZeroed (layout : Layout) : LogBlind th th' (allocZeroed layout) := by
  refine (blind_allocLayout _).bind ?_
  rintro (_ | payload)
  · exact .value _
  · exact (blind_onStore (.updateRam _)).bind fun _ => .value _

theorem blind_reallocLayout (payload : VirtualAddress) (layout : Layout) (size : Nat) :
    LogBlind th th' (reallocLayout payload layout size) := by
  rw [reallocLayout]
  split
  · exact (blind_reallocate _ _).toOption
  · exact .value _

end Heap

end PagedMemory
