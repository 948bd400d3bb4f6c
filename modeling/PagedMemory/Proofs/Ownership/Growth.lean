import PagedMemory.Proofs.Heap.MaximalRuns
import PagedMemory.Proofs.Ownership.Partition
/-!
# The blocks that a growing heap gets

A heap takes the frames from the head of the list of its pool, in the order that direct callers and
earlier requests have left there. It is to make one free block of each maximal run of them. The blocks
are runs of the frames it took, and maximal ones if those frames come settled, as they do from a pool
that nothing was given back to. In other orders two of the blocks may lie end to end.
-/
namespace PagedMemory

open FreeList

namespace Ledger

variable {map : DirectMap} {total : Nat} {all fs : List Frame} {l : Ledger}
variable {free live aside : List Run}

/-- Permitted requests lead to a ledger from a pool that was filled from memory maps, without a frame
in two of their regions and over any contents of memory. -/
structure Reached (map : DirectMap) (memoryMaps : List (List Region)) (requests : List Request)
    (l : Ledger) : Prop where
  disjoint : (memoryMaps.flatten.filter Region.isUsable).Pairwise
    fun r r' => r.frames.toList.Disjoint r'.frames.toList
  run : ∃ m log, (filled map memoryMaps m log).PermitsAll requests ∧
    (filled map memoryMaps m log).performAll requests = l

/-- The last frame of the address space is in no region. -/
theorem number_lt_of_mem_addedFrames {memoryMaps : List (List Region)} {f : Frame}
    (hf : f ∈ FramePool.addedFrames map memoryMaps) : f.number + 1 < PageSize.small.pages := by
  obtain ⟨r, -, -, hmem⟩ := Region.mem_wholeFrames.mp (FramePool.mem_addedFrames.mp hf).1
  exact Region.number_lt_of_mem_frames hmem

theorem Reached.sound {memoryMaps : List (List Region)} {requests : List Request}
    (h : Reached map memoryMaps requests l) :
    Stock map (FramePool.addedFrames map memoryMaps) ∧
      Sound map (FramePool.addedFrames map memoryMaps).length
        (FramePool.addedFrames map memoryMaps) l := by
  obtain ⟨m, log, hq, rfl⟩ := h.run
  obtain ⟨stock, hstart⟩ := sound_filled map (Region.nodup_wholeFrames h.disjoint) m log
  exact ⟨stock, hstart.performAll stock hq⟩

/-- What a system shows once its heap took a number of frames: they are those at the head of the list
of free frames. -/
structure TookFrames (l : Ledger) (k : Nat) (t : System) : Prop where
  freeFrames : t.store.frames.freeFrames t.ram = l.free.drop k
  free : t.store.frames.free + k = l.system.store.frames.free
  expansions : t.heap.expansions = l.system.heap.expansions + if k = 0 then 0 else 1
  arenaBytes : t.heap.arenaBytes = l.system.heap.arenaBytes + k * frameSize

/-- The blocks that a heap makes of the frames it took, and what they are like. -/
structure GrewByRuns (map : DirectMap) (l : Ledger) (k : Nat) (t : System) (blocks : List Run) :
    Prop extends TookFrames l k t where
  freeBlocks : t.heap.list.runs t.ram = blocks ++ l.freeBlocks
  made : MadeOf map (l.free.take k) blocks
  maximal_iff : MaximalRuns map (l.free.take k) blocks ↔
    Settled [] ((l.free.take k).map Page.number)
  /-- Frames that come in ascending order come settled. -/
  maximal_of_ascending : ((l.free.take k).Pairwise fun f g => f.number < g.number) →
    MaximalRuns map (l.free.take k) blocks

namespace Balanced

/-- The number of free frames is that of the frames on the list. -/
theorem free_length (h : Balanced map total all l fs free live aside) :
    l.system.store.frames.free = l.free.length := by rw [h.pool.free, h.free_eq]

theorem tookFrames (h : Balanced map total all l fs free live aside) {t : HeapStore} {k : Nat}
    (hk : k ≤ fs.length) (hpool : t.store.frames.Holds t.store.ram (fs.drop k))
    (hexpansions : t.heap.expansions =
      l.system.heapStore.heap.expansions + if k = 0 then 0 else 1)
    (hbytes : t.heap.arenaBytes = l.system.heapStore.heap.arenaBytes + k * frameSize) :
    TookFrames l k (l.system.setHeapStore t) := by
  rw [h.heap_eq] at hexpansions hbytes
  constructor
  case freeFrames =>
    rw [h.shared.store_setHeapStore, h.shared.ram_setHeapStore, h.free_eq]
    exact hpool.freeFrames_eq
  case free =>
    rw [h.shared.store_setHeapStore, hpool.free, h.pool.free, List.length_drop]
    omega
  case expansions => rw [h.shared.heap_setHeapStore, hexpansions]
  case arenaBytes => rw [h.shared.heap_setHeapStore, hbytes]

/-- Growing by some pages. -/
theorem exists_grewByRuns (h : Balanced map total all l fs free live aside)
    (hlast : ∀ f ∈ all, f.number + 1 < PageSize.small.pages)
    (hattached : l.system.heap.attached = true) (pages : Nat) :
    ∃ t blocks, System.onHeap (Heap.expand pages) l.system =
        .ok (min pages l.system.store.frames.free) t ∧
      GrewByRuns map l (min pages l.system.store.frames.free) t blocks := by
  obtain ⟨t, hexpand, hgrew⟩ := h.heap.expand (h.heap_eq ▸ hattached) pages
  rw [h.free_length, h.free_eq]
  have hk : min pages fs.length ≤ fs.length := Nat.min_le_right _ _
  generalize min pages fs.length = k at *
  have hmap := h.heap_map_eq
  have hnodup : (fs.take k).Nodup := h.pool.nodup.sublist (List.take_sublist _ _)
  have hnumbers : ∀ f ∈ fs.take k, f.number + 1 < PageSize.small.pages := fun f hf =>
    hlast f (h.mem_all (.inl (List.mem_of_mem_take hf)))
  -- the last run is the first block on the list
  have hperm := (List.reverse_perm (Run.ofFrames map (fs.take k))).symm
  have hmaximal : MaximalRuns map (fs.take k) (Run.ofFrames map (fs.take k)).reverse ↔
      Settled [] ((fs.take k).map Page.number) := by
    rw [← maximalRuns_ofFrames_iff hnodup hnumbers]
    exact ⟨fun hruns => hruns.perm hperm.symm, fun hruns => hruns.perm hperm⟩
  refine ⟨l.system.setHeapStore t, (Run.ofFrames map (fs.take k)).reverse, ?_, ?_⟩
  · rw [System.onHeap, onPart, hexpand]
  · constructor
    case toTookFrames =>
      exact h.tookFrames hk hgrew.holds.pool hgrew.expansions hgrew.arenaBytes
    case freeBlocks =>
      rw [h.shared.ram_setHeapStore, h.shared.heap_setHeapStore, hgrew.holds.carved.runs_eq, hmap,
        h.freeBlocks_eq]
    case made =>
      rw [h.free_eq]
      exact (madeOf_ofFrames hnodup hnumbers).perm hperm
    case maximal_iff =>
      rw [h.free_eq]
      exact hmaximal
    case maximal_of_ascending =>
      rw [h.free_eq]
      intro hascending
      refine hmaximal.mpr (settled_of_ascending ?_ (by simp))
      rwa [List.pairwise_map]

end Balanced

/-- In whatever order the free frames are, a heap that is to grow by some pages takes as many of them
as there are, and its new blocks are their maximal runs just in case they come settled. -/
theorem Reached.grewByRuns {memoryMaps : List (List Region)} {requests : List Request}
    (h : Reached map memoryMaps requests l) (hattached : l.system.heap.attached = true) (pages : Nat) :
    ∃ t blocks, System.onHeap (Heap.expand pages) l.system =
        .ok (min pages l.system.store.frames.free) t ∧
      GrewByRuns map l (min pages l.system.store.frames.free) t blocks := by
  obtain ⟨-, fs, free, live, aside, hbalanced⟩ := h.sound
  exact hbalanced.exists_grewByRuns (fun f hf => number_lt_of_mem_addedFrames hf) hattached pages

/-- Three adjacent frames that were taken and given back, so that the one in the middle is the last on
the list. -/
def outOfOrder : List Request :=
  [.initHeap 0, .takeFrame, .takeFrame, .takeFrame, .returnFrame (.ofNumber 2),
    .returnFrame (.ofNumber 3), .returnFrame (.ofNumber 1)]

theorem grewByRuns_out_of_order :
    let memoryMaps : List (List Region) := [[⟨⟨0x1000⟩, 0x3000, .usable⟩]]
    let l := (filled ⟨0xffff800000000000⟩ memoryMaps (.uniform 0xaa) (.empty none)).performAll
      outOfOrder
    Reached ⟨0xffff800000000000⟩ memoryMaps outOfOrder l ∧ l.system.heap.attached = true ∧
      ¬ Settled [] ((l.free.take 3).map Page.number) ∧
      ∃ t blocks, System.onHeap (Heap.expand 5) l.system =
          .ok (min 5 l.system.store.frames.free) t ∧
        GrewByRuns ⟨0xffff800000000000⟩ l (min 5 l.system.store.frames.free) t blocks := by
  intro memoryMaps l
  have hl : Reached ⟨0xffff800000000000⟩ memoryMaps outOfOrder l :=
    ⟨by decide, .uniform 0xaa, .empty none, by decide +kernel, rfl⟩
  have hattached : l.system.heap.attached = true := by decide +kernel
  exact ⟨hl, hattached, by decide +kernel, hl.grewByRuns hattached 5⟩

/-- Growing by them makes two blocks, and the second block on the list ends where the first begins. -/
theorem not_maximalRuns_out_of_order :
    let l := (filled ⟨0xffff800000000000⟩ [[⟨⟨0x1000⟩, 0x3000, .usable⟩]] (.uniform 0xaa)
      (.empty none)).performAll outOfOrder
    l.free.map Page.number = [1, 3, 2] ∧ l.freeBlocks = [] ∧
      ∃ t, System.onHeap (Heap.expand 3) l.system = .ok 3 t ∧
        t.heap.list.runs t.ram =
          [⟨⟨0xffff800000002000⟩, 0x2000⟩, ⟨⟨0xffff800000001000⟩, 0x1000⟩] ∧
        ¬ MaximalRuns ⟨0xffff800000000000⟩ l.free (t.heap.list.runs t.ram) := by
  intro l
  obtain ⟨got, t, hrun, rfl, hblocks⟩ : ∃ got t,
      System.onHeap (Heap.expand 3) l.system = .ok got t ∧ got = 3 ∧ t.heap.list.runs t.ram =
        [⟨⟨0xffff800000002000⟩, 0x2000⟩, ⟨⟨0xffff800000001000⟩, 0x1000⟩] :=
    Ends.exists_ok (by decide +kernel)
  refine ⟨by decide +kernel, by decide +kernel, t, hrun, hblocks, ?_⟩
  rw [hblocks]
  intro hruns
  refine hruns.separate ⟨⟨0xffff800000001000⟩, 0x1000⟩ ?_ ⟨⟨0xffff800000002000⟩, 0x2000⟩ ?_ ?_
  · decide
  · decide
  · decide

end Ledger

end PagedMemory
