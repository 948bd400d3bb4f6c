import PagedMemory.Proofs.Ownership.Partition
/-!
# Blocks without gaps

Under an offset of the direct map that is a multiple of the frame size, the free blocks and the
blocks in use cover every byte that the heap took, each byte once and none beyond the end of the
address space. The null address plays a part in that: it lies in a frame that is never free, so no
block reaches it.
-/
namespace PagedMemory

namespace DirectMap

variable {map : DirectMap}

/-- The frame at null is one whose alias is null. -/
theorem alias_frameAt_null (h : frameSize ∣ map.offset.toNat) :
    map.aliasOf (map.frameAt .null) = .null := by
  have hs : frameSize = 4096 := rfl
  have hd := (map.frameAt_eq_iff (map.frameAt .null) .null).mp rfl
  have hb := (map.frameAt .null).toNat_base
  have hv : (map.aliasOf (map.frameAt .null)).toNat =
      ((map.frameAt .null).base.toNat + map.offset.toNat) % 2 ^ 64 := UInt64.toNat_add _ _
  have hp : PageSize.small.bytes = 4096 := rfl
  have hz : (Address.null : VirtualAddress).toNat = 0 := rfl
  apply Address.toNat_inj.mp
  rw [Address.distance_eq] at hd
  rw [hs] at h hd
  rw [hp] at hb
  have ha := (map.aliasOf (map.frameAt .null)).toNat_lt
  omega

end DirectMap

namespace Run

variable {map : DirectMap} {r : Run}

/-- The alignment of a block is that of its address too. -/
theorem Shaped.dvd_toNat_start (h : r.Shaped map) (hmap : heapAlign ∣ map.offset.toNat) :
    heapAlign ∣ r.start.toNat := by
  have hp : (map.toPhysical r.start).toNat = (2 ^ 64 - map.offset.toNat + r.start.toNat) % 2 ^ 64 :=
    UInt64.toNat_sub _ _
  have hd := h.dvd_start
  have ho := map.offset.toNat_lt
  rw [heapAlign] at hd hmap ⊢
  omega

/-- A run that misses null ends within the address space. -/
theorem toNat_add_length_le (hr : r.length < 2 ^ 64) (hnull : .null ∉ r) :
    r.start.toNat + r.length ≤ 2 ^ 64 := by
  have hd := r.start.distance_eq .null
  have hz : (Address.null : VirtualAddress).toNat = 0 := rfl
  have ha := r.start.toNat_lt
  rw [mem_iff] at hnull
  omega

end Run

/-- If the direct map keeps pages aligned, the frame around null begins there and is never handed
out. -/
theorem Stock.frameAt_null_notMem {map : DirectMap} {all : List Frame} (h : Stock map all)
    (hmap : frameSize ∣ map.offset.toNat) : map.frameAt .null ∉ all := fun hmem =>
  h.alias_ne_null _ hmem (DirectMap.alias_frameAt_null hmap)

namespace Ledger

/-- What the books say of the blocks of the heap. -/
structure Tiled (map : DirectMap) (l : Ledger) : Prop where
  /-- No byte is in two blocks. -/
  apart : (l.freeBlocks ++ l.liveBlocks).Pairwise Run.Apart
  /-- The blocks have the bytes of the frames that the heap took. -/
  covered : ∀ a, (∃ b ∈ l.freeBlocks ++ l.liveBlocks, a ∈ b) ↔
    ∃ f ∈ l.arena, a ∈ Run.ofFrame (map.aliasOf f)
  /-- No block goes on behind the last address. -/
  unwrapped : ∀ b ∈ l.freeBlocks ++ l.liveBlocks, b.start.toNat + b.length ≤ 2 ^ 64
  aligned : ∀ b ∈ l.freeBlocks ++ l.liveBlocks,
    heapAlign ∣ b.start.toNat ∧ heapAlign ∣ b.length ∧ 0 < b.length
  /-- The links in memory lead from the first free block through the others to null. -/
  linked : FreeList.Linked l.system.ram l.system.heap.list.first l.freeBlocks
  bytes_eq : l.system.heap.freeBytes l.system.ram + (l.liveBlocks.map Run.length).sum =
    l.system.heap.arenaBytes
  arena_eq : l.system.heap.arenaBytes = frameSize * l.arena.length
  nodup : l.arena.Nodup

variable {map : DirectMap} {total : Nat} {all fs : List Frame} {s : System} {l : Ledger}
variable {free live aside : List Run}

/-- Only a block in the frame around null goes on behind the last address. -/
theorem Balanced.frameAt_null_mem_arena (h : Balanced map total all l fs free live aside) {b : Run}
    (hb : b ∈ l.freeBlocks ++ l.liveBlocks) (hlong : 2 ^ 64 < b.start.toNat + b.length) :
    map.frameAt .null ∈ l.arena := by
  rw [h.freeBlocks_eq, h.liveBlocks_eq] at hb
  have hlt := h.carved.length_lt (List.mem_append_left aside hb)
  by_contra hnull
  have hle := Run.toNat_add_length_le hlt fun hmem => hnull (h.block_mem_arena hb hmem)
  omega

theorem Balanced.tiled (h : Balanced map total all l fs free live aside) (stock : Stock map all)
    (hmap : frameSize ∣ map.offset.toNat) : Tiled map l := by
  have hnull := stock.frameAt_null_notMem hmap
  -- no block starts at null, so none is lost
  cases h.aside_eq hnull
  have htiles := h.carved.tiles
  rw [List.append_nil] at htiles
  have hfree := FreeList.freeBytes_eq_sum l.system.heap.list l.system.ram
  rw [h.carved.runs_eq] at hfree
  refine ⟨?_, ?_, ?_, ?_, ?_, ?_, h.bytes, (h.nodup stock.nodup).of_append_right⟩
  · rw [h.freeBlocks_eq, h.liveBlocks_eq]
    exact htiles.apart
  · intro a
    simp only [h.freeBlocks_eq, h.liveBlocks_eq, htiles.covered, Run.mem_ofFrame, exists_eq_right']
  · intro b hb
    by_contra! hlong
    exact hnull (h.mem_all (.inr (.inr (.inr (h.frameAt_null_mem_arena hb hlong)))))
  · intro b hb
    rw [h.freeBlocks_eq, h.liveBlocks_eq] at hb
    have hshape := htiles.shaped b hb
    exact ⟨hshape.dvd_toNat_start (Nat.dvd_trans (by decide) hmap), hshape.dvd_length,
      Nat.lt_of_lt_of_le (by decide) hshape.header_le⟩
  · rw [h.freeBlocks_eq]
    exact h.carved.linked
  · rw [Heap.freeBytes, hfree, h.bytes, h.liveBlocks_eq, ← htiles.total, List.map_append,
      List.sum_append]

/-- Frames that are on the list of a pool make a stock. -/
theorem stock_of_holds (hpool : s.store.frames.Holds s.ram all)
    (hmap : frameSize ∣ s.store.frames.map.offset.toNat) : Stock s.store.frames.map all := by
  have hnull : s.store.frames.map.frameAt .null ∉ all := fun hmem =>
    hpool.linked.alias_ne_null _ hmem (DirectMap.alias_frameAt_null hmap)
  exact ⟨hpool.nodup, Page.length_lt_pages hpool.nodup hnull, hpool.linked.alias_ne_null⟩

/-- After any run of permitted requests to a fresh heap over a pool with any frames in any order,
the free blocks and the blocks in use tile the frames that the heap took. -/
theorem tiled_performAll (hs : s.Shared) (hkernel : s.kernelMap = some .missing)
    (hheap : s.heap = .empty) (hpool : s.store.frames.Holds s.ram all)
    (hmap : frameSize ∣ s.store.frames.map.offset.toNat) {requests : List Request}
    (hq : (opened s).PermitsAll requests) :
    Tiled s.store.frames.map ((opened s).performAll requests) := by
  have stock := stock_of_holds hpool hmap
  obtain ⟨fs, free, live, aside, h⟩ :=
    (sound_opened hs hkernel hheap hpool stock).performAll stock hq
  exact h.tiled stock hmap

/-- Four frames, of which the heap first takes two that lie apart and one that extends the second;
the first of two blocks is freed. -/
theorem tiled_performAll_four_frames :
    let frames : List Frame := [.ofNumber 5, .ofNumber 2, .ofNumber 3, .ofNumber 9]
    let s := System.ofFrames ⟨0xffff800000000000⟩ frames
    let requests : List Request :=
      [.initHeap 0x3000, .allocate 100, .allocate 5000, .free ⟨0xffff800000002010⟩]
    (s.Shared ∧ s.kernelMap = some .missing ∧ s.heap = .empty ∧
        s.store.frames.Holds s.ram frames ∧ frameSize ∣ s.store.frames.map.offset.toNat) ∧
      (opened s).PermitsAll requests ∧
      ((opened s).performAll requests).freeBlocks.map Run.length = [128, 3040, 4096] ∧
      Tiled s.store.frames.map ((opened s).performAll requests) := by
  have hpool := System.holds_ofFrames ⟨0xffff800000000000⟩
    [.ofNumber 5, .ofNumber 2, .ofNumber 3, .ofNumber 9] (by decide) (by decide)
  refine ⟨⟨⟨rfl, rfl, rfl⟩, rfl, rfl, hpool, by decide +kernel⟩, by decide +kernel,
    by decide +kernel, ?_⟩
  exact tiled_performAll ⟨rfl, rfl, rfl⟩ rfl rfl hpool (by decide +kernel) (by decide +kernel)

end Ledger

end PagedMemory
