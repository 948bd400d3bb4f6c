import PagedMemory.Proofs.Frame.Filling
import PagedMemory.Proofs.Ownership.Preservation
/-!
# Four classes of frames

A pool is filled from memory maps and then shared by direct callers, page tables and a heap. At any
time each of its frames is on the free list, in the hands of a direct caller, taken for a page table
or part of the arena of the heap, and in one of these classes only.
-/
namespace PagedMemory

namespace System

/-- A system whose pool is filled and that has neither page tables nor a heap yet. -/
def ofStore (t : Store FramePool) : System :=
  ⟨t.ram, t.log, true, some t.frames, some .missing, .empty, none⟩

/-- A system whose pool has some frames on its list, in that order. -/
def ofFrames (map : DirectMap) (frames : List Frame) : System :=
  ofStore (outcome (FramePool.addFrames frames.reverse) ⟨.uniform 0, .empty map, .empty none⟩).2

theorem shared_ofStore (t : Store FramePool) : (ofStore t).Shared := ⟨rfl, rfl, rfl⟩

theorem holds_ofFrames (map : DirectMap) (frames : List Frame) (hn : frames.Nodup)
    (hnull : ∀ f ∈ frames, map.aliasOf f ≠ .null) :
    (ofFrames map frames).store.frames.Holds (ofFrames map frames).ram frames := by
  refine Ends.outcome (p := fun r => r.2.frames.Holds r.2.ram frames)
    ((FramePool.addFrames_ends (s := ⟨.uniform 0, .empty map, .empty none⟩) frames.reverse
      (FramePool.holds_empty map _) ?_).mono ?_ fun _ _ => False.elim)
  · simpa using hn
  · rintro n t ⟨⟨-, hpool, -⟩, -⟩
    have hall : FramePool.listable map frames = frames :=
      List.filter_eq_self.mpr fun f hf => by
        rw [(Address.isNull_eq_false_iff _).mpr (hnull f hf)]
        rfl
    rw [FramePool.listable_reverse, List.reverse_reverse, List.append_nil] at hpool
    exact hall ▸ hpool

/-- The page tables of a system draw on its pool. -/
theorem holds_paging {s : System} {frames : List Frame} (h : s.store.frames.Holds s.ram frames) :
    s.paging.store.frames.Holds s.paging.store.ram frames := h

end System

namespace Ledger

variable {map : DirectMap} {all : List Frame} {s : System} {l : Ledger}

/-- Before anything is handed out the books balance. -/
theorem sound_opened (hs : s.Shared) (hkernel : s.kernelMap = some .missing)
    (hheap : s.heap = .empty) (hpool : s.store.frames.Holds s.ram all)
    (stock : Stock s.store.frames.map all) :
    Sound s.store.frames.map s.store.frames.total all (opened s) := by
  have hroots : (opened s).roots = [] := by
    simp [roots, opened, System.paging, hkernel, KernelMap.root?]
  refine ⟨all, [], [], [], Balanced.of_carved stock hs rfl rfl hpool ?_ rfl ?_ ?_ ?_ fun _ => rfl⟩
  · change Carved _ _ s.heap.list _ _ _ _
    rw [hheap]
    exact .empty _ _
  · rw [hroots]
    exact ⟨fun h => absurd h List.not_mem_nil, fun h => absurd h List.not_mem_nil⟩
  · simp [opened]
  · change s.heap.arenaBytes = _
    rw [hheap]
    rfl

/-- A system whose pool was filled with the frames of memory maps, and nothing else. -/
def filled (map : DirectMap) (memoryMaps : List (List Region)) (m : Ram) (log : Log) : Ledger :=
  opened (.ofStore (outcome (FramePool.addMemoryMaps memoryMaps) ⟨m, .empty map, log⟩).2)

/-- The frames that a pool was filled with make a stock: the last frame of the address space never
lies inside of a region. -/
theorem stock_addedFrames {memoryMaps : List (List Region)}
    (hn : (FramePool.addedFrames map memoryMaps).Nodup) :
    Stock map (FramePool.addedFrames map memoryMaps) := by
  refine ⟨hn, ?_, fun f hf => (FramePool.mem_addedFrames.mp hf).2⟩
  apply Page.length_lt_pages hn (p := .ofNumber (2 ^ 52 - 1))
  intro hmem
  obtain ⟨r, -, -, hf⟩ := Region.mem_wholeFrames.mp (FramePool.mem_addedFrames.mp hmem).1
  exact absurd (Region.number_lt_of_mem_frames hf) (by decide)

theorem sound_filled (map : DirectMap) {memoryMaps : List (List Region)}
    (hn : (Region.wholeFrames memoryMaps.flatten).Nodup) (m : Ram) (log : Log) :
    Stock map (FramePool.addedFrames map memoryMaps) ∧
      Sound map (FramePool.addedFrames map memoryMaps).length
        (FramePool.addedFrames map memoryMaps) (filled map memoryMaps m log) := by
  have hfill := FramePool.addMemoryMaps_ends (s := ⟨m, .empty map, log⟩) memoryMaps
    (FramePool.holds_empty map m) (by simpa using hn)
  refine Ends.outcome (p := fun r => Stock map (FramePool.addedFrames map memoryMaps) ∧
    Sound map (FramePool.addedFrames map memoryMaps).length (FramePool.addedFrames map memoryMaps)
      (opened (.ofStore r.2)))
    (hfill.mono ?_ fun _ _ => False.elim)
  rintro ns t ⟨hmap, hpool, htotal, hcounts⟩
  rw [List.append_nil] at hpool
  have hcount : t.frames.total = (FramePool.addedFrames map memoryMaps).length := by
    rw [htotal, hcounts, FramePool.length_addedFrames]
    exact Nat.zero_add _
  have stock := stock_addedFrames hpool.nodup
  have hmap : t.frames.map = map := hmap
  have hsound : Sound t.frames.map t.frames.total _ (opened (.ofStore t)) :=
    sound_opened (System.shared_ofStore t) rfl rfl hpool (hmap.symm ▸ stock)
  -- all that was counted is on the list, as nothing has been taken yet
  rw [hmap, hcount] at hsound
  exact ⟨stock, hsound⟩

/-- What the books say of the frames that a pool was filled with. -/
structure Partitioned (map : DirectMap) (memoryMaps : List (List Region)) (l : Ledger) : Prop where
  /-- No frame is in two classes, or in one of them twice. -/
  nodup : (l.free ++ l.held ++ l.tables ++ l.arena).Nodup
  /-- The classes have the frames of usable regions, but for one whose alias is null. -/
  mem_iff : ∀ f, f ∈ l.free ++ l.held ++ l.tables ++ l.arena ↔
    (∃ r ∈ memoryMaps.flatten, r.isUsable ∧ f ∈ r.frames.toList) ∧ map.aliasOf f ≠ .null
  /-- The links in memory lead from the head through the free frames to null. -/
  linked : FramePool.Linked map l.system.ram l.system.store.frames.head l.free
  free_eq : l.system.store.frames.free = l.free.length
  total_eq : l.system.store.frames.total =
    l.free.length + l.held.length + l.tables.length + l.arena.length
  arena_eq : l.system.heap.arenaBytes = frameSize * l.arena.length
  /-- The trees consist of the frames that were taken for tables. -/
  forest : PageTree.Forest map l.system.ram l.roots l.tables
  /-- The blocks of the heap lie in the arena. -/
  blocks : ∀ b ∈ l.freeBlocks ++ l.liveBlocks, ∀ a ∈ b, map.frameAt a ∈ l.arena

theorem Balanced.partitioned {memoryMaps : List (List Region)} {fs : List Frame}
    {free live aside : List Run} (stock : Stock map (FramePool.addedFrames map memoryMaps))
    (h : Balanced map (FramePool.addedFrames map memoryMaps).length
      (FramePool.addedFrames map memoryMaps) l fs free live aside) :
    Partitioned map memoryMaps l := by
  have hlinked := h.pool.linked
  have hlength := h.frames.length_eq
  rw [h.map_eq] at hlinked
  simp only [List.length_append] at hlength
  refine ⟨?_, ?_, ?_, ?_, ?_, h.bytes, h.forest, ?_⟩
  · rw [h.free_eq]
    exact h.nodup stock.nodup
  · intro f
    rw [h.free_eq, h.frames.mem_iff, FramePool.mem_addedFrames, Region.mem_wholeFrames]
  · rwa [h.free_eq]
  · rw [h.free_eq, h.pool.free]
  · rw [h.free_eq, h.total_eq, hlength]
  · intro b hb a ha
    rw [h.freeBlocks_eq, h.liveBlocks_eq] at hb
    exact h.block_mem_arena hb ha

/-- After any run of permitted requests, each ended with a value, an error or a fault, the frames
that a pool was filled with are partitioned. -/
theorem partitioned_performAll {memoryMaps : List (List Region)} {m : Ram} {log : Log}
    (hn : (memoryMaps.flatten.filter Region.isUsable).Pairwise
      fun r r' => r.frames.toList.Disjoint r'.frames.toList)
    {requests : List Request} (hq : (filled map memoryMaps m log).PermitsAll requests) :
    Partitioned map memoryMaps ((filled map memoryMaps m log).performAll requests) := by
  obtain ⟨stock, hstart⟩ := sound_filled map (Region.nodup_wholeFrames hn) m log
  obtain ⟨fs, free, live, aside, h⟩ := hstart.performAll stock hq
  exact h.partitioned stock

/-- Two memory maps; a frame goes to a direct caller and comes back, others become a table and part
of the heap. -/
theorem partitioned_performAll_two_maps :
    let memoryMaps : List (List Region) :=
      [[⟨⟨0x1000⟩, 0x3000, .usable⟩], [⟨⟨0x7000⟩, 0x2000, .usable⟩]]
    let start := filled ⟨0xffff800000000000⟩ memoryMaps (.uniform 0xaa) (.empty none)
    let requests : List Request :=
      [.takeFrame, .createTable, .initHeap 1, .returnFrame (.ofNumber 7)]
    ((memoryMaps.flatten.filter Region.isUsable).Pairwise
        fun r r' => r.frames.toList.Disjoint r'.frames.toList) ∧
      start.PermitsAll requests ∧ (start.performAll requests).free.map Page.number = [7, 2, 3] ∧
      Partitioned ⟨0xffff800000000000⟩ memoryMaps (start.performAll requests) := by
  refine ⟨?_, by decide +kernel, by decide +kernel, partitioned_performAll ?_ (by decide +kernel)⟩
  all_goals
    change List.Pairwise (fun r r' : Region => ∀ f ∈ r.frames.toList, f ∉ r'.frames.toList) _
    decide

end Ledger

end PagedMemory
