import PagedMemory.Proofs.Arithmetic.Growths
import PagedMemory.Proofs.Arithmetic.Heap
import PagedMemory.Proofs.Ownership.Growth
import PagedMemory.Proofs.Ownership.Tiling
import PagedMemory.Proofs.Ownership.View
/-!
# No fault in the allocators

A machine that checks its arithmetic finds nothing wrong with a frame pool and a heap over it.
What they count are frames, and of these the list of the pool and the arena of the heap together
never have more than fit into the address space; the heap cannot have grown more often than it
took one. Sizes may be anything that a word can hold, as the programs themselves check what comes
of rounding them. A frame whose alias is null never gets onto the list, so nobody can hold one.

Addresses are worked out as well, those within a block and the one behind its last byte. They do not
leave the address space if the direct map keeps pages aligned.
-/
namespace PagedMemory

namespace Ledger

variable {map : DirectMap} {total : Nat} {all fs : List Frame} {l : Ledger}
variable {free live aside : List Run} {q : Request}

/-! ## Growths are counted -/

theorem grewByFrames_onHeap {ε α : Type} {x : EStateM ε HeapStore α} (hx : Heap.GrowsByFrames x)
    {s : System} (h : s.heap.GrewByFrames) : (outcome (System.onHeap x) s).2.heap.GrewByFrames := by
  have hheap : ∀ t : HeapStore, (s.setHeapStore t).heap = t.heap := by
    intro t
    rw [System.setHeapStore]
    split <;> rfl
  refine Ends.outcome (p := fun r : Option α × System => r.2.heap.GrewByFrames) (Ends.onPart ?_)
  exact (hx.ends s.heapStore).mono (fun _ t ht => hheap t ▸ ht h) fun _ t ht => hheap t ▸ ht h

theorem grewByFrames_perform (h : l.system.heap.GrewByFrames) (q : Request) :
    (l.perform q).system.heap.GrewByFrames := by
  cases hheap : q.isHeap with
  | false =>
    rw [(heap_perform hheap).1]
    exact h
  | true =>
    cases q with
    | initHeap bytes => exact grewByFrames_onHeap (.init bytes) h
    | growHeap pages => exact grewByFrames_onHeap (.expand pages) h
    | allocate size =>
      rw [perform, system_served]
      exact grewByFrames_onHeap (.allocate size) h
    | free p => exact grewByFrames_onHeap (.free p) h
    | reallocate p size =>
      rw [perform, system_served]
      exact grewByFrames_onHeap (.reallocate p size) h
    | allocLayout layout =>
      rw [perform, system_served]
      exact grewByFrames_onHeap (.allocLayout layout) h
    | allocZeroed layout =>
      rw [perform, system_served]
      exact grewByFrames_onHeap (.allocZeroed layout) h
    | reallocLayout p layout size =>
      rw [perform, system_served]
      exact grewByFrames_onHeap (.reallocLayout p layout size) h
    | takeFrame | returnFrame | createTable | initPaging | mapPage | translate | loadKernelMap
    | write => cases hheap

theorem grewByFrames_performAll (h : l.system.heap.GrewByFrames) (requests : List Request) :
    (l.performAll requests).system.heap.GrewByFrames := by
  induction requests generalizing l with
  | nil => exact h
  | cons q rest ih => exact ih (grewByFrames_perform h q)

theorem grewByFrames_filled (map : DirectMap) (memoryMaps : List (List Region)) (m : Ram)
    (log : Log) : (filled map memoryMaps m log).system.heap.GrewByFrames := by
  have hheap : (filled map memoryMaps m log).system.heap = .empty := rfl
  rw [hheap]
  exact Heap.grewByFrames_empty

/-- The counters of a heap are bounded by its arena. -/
theorem Balanced.tallied (h : Balanced map total all l fs free live aside)
    (hgrew : l.system.heap.GrewByFrames) : l.system.heapStore.heap.Tallied l.arena := by
  rw [h.heap_eq]
  refine ⟨?_, h.bytes⟩
  rw [Heap.GrewByFrames, h.bytes, Nat.mul_comm] at hgrew
  exact Nat.le_of_mul_le_mul_left hgrew (by decide)

/-! ## One operation -/

/-- What it means that a machine with checked arithmetic finds nothing wrong: filling the pool did
not end in a fault, and whatever words the operations on the pool and the heap are given, none of
them does. Frames are given back by those who hold them, payloads by those who have them in use.
To take a frame and to free a payload check all that they work out already. -/
structure Faultless (map : DirectMap) (memoryMaps : List (List Region)) (l : Ledger) : Prop where
  filling : ∀ m log, FaultFree id (FramePool.checkedAddMemoryMaps memoryMaps)
    (FramePool.addMemoryMaps memoryMaps) ⟨m, .empty map, log⟩
  /-- What the heap or anybody else takes from the pool, or gives back, does not alias null. -/
  alias_ne_null : ∀ f ∈ l.free ++ l.held, l.system.store.frames.map.aliasOf f ≠ .null
  /-- Only a block in the frame around the null address goes on behind the last address. -/
  wrapped : ∀ b ∈ l.freeBlocks ++ l.liveBlocks, 2 ^ 64 < b.start.toNat + b.length →
    map.frameAt .null ∈ l.arena
  takeFrame : FaultFree .fault (System.onStore FramePool.allocate)
    (System.onStore FramePool.allocate) l.system
  returnFrame : ∀ f ∈ l.held, FaultFree id (System.onStore (FramePool.checkedRelease f))
    (System.onStore (FramePool.release f)) l.system
  initHeap : ∀ bytes : UInt64, FaultFree .fault (System.onHeap (Heap.checkedInit bytes.toNat))
    (System.onHeap (Heap.init bytes.toNat)) l.system
  growHeap : ∀ pages : UInt64, FaultFree id (System.onHeap (Heap.checkedExpand pages.toNat))
    (System.onHeap (Heap.expand pages.toNat)) l.system
  allocate : ∀ size : UInt64, FaultFree .fault (System.onHeap (Heap.checkedAllocate size.toNat))
    (System.onHeap (Heap.allocate size.toNat)) l.system
  free : ∀ p, p = .null ∨ p ∈ l.live →
    FaultFree id (System.onHeap (Heap.free p)) (System.onHeap (Heap.free p)) l.system
  reallocate : ∀ p, p = .null ∨ p ∈ l.live → ∀ size : UInt64,
    FaultFree .fault (System.onHeap (Heap.checkedReallocate p size.toNat))
      (System.onHeap (Heap.reallocate p size.toNat)) l.system
  allocLayout : ∀ layout : Layout, layout.size < 2 ^ 64 →
    FaultFree id (System.onHeap (Heap.checkedAllocLayout layout))
      (System.onHeap (Heap.allocLayout layout)) l.system
  allocZeroed : ∀ layout : Layout, layout.size < 2 ^ 64 →
    FaultFree id (System.onHeap (Heap.checkedAllocZeroed layout))
      (System.onHeap (Heap.allocZeroed layout)) l.system
  reallocLayout : ∀ p, p = .null ∨ p ∈ l.live → ∀ (layout : Layout) (size : UInt64),
    FaultFree id (System.onHeap (Heap.checkedReallocLayout p layout size.toNat))
      (System.onHeap (Heap.reallocLayout p layout size.toNat)) l.system

namespace Balanced

theorem alias_ne_null (h : Balanced map total all l fs free live aside) (stock : Stock map all)
    {f : Frame} (hf : f ∈ l.free ++ l.held) : l.system.store.frames.map.aliasOf f ≠ .null := by
  rw [h.map_eq]
  rw [h.free_eq] at hf
  refine stock.alias_ne_null f (h.mem_all ?_)
  rcases List.mem_append.mp hf with hf | hf
  · exact .inl hf
  · exact .inr (.inl hf)

theorem faultFree_takeFrame (h : Balanced map total all l fs free live aside) :
    FaultFree .fault (System.onStore FramePool.allocate) (System.onStore FramePool.allocate)
      l.system := by
  have hends : Ends FramePool.allocate l.system.store (fun _ _ => True)
      (fun stop _ => stop = .error .outOfFrames) := by
    rw [FramePool.allocate]
    cases fs with
    | nil => exact Ends.bind_of_ok (Op.ofStep_of_ok (FramePool.take?_of_nil h.pool)) rfl
    | cons f fs =>
      obtain ⟨pool, htake, -⟩ := FramePool.take?_of_cons h.pool
      exact Ends.bind_of_ok (Op.ofStep_of_ok htake) trivial
  refine .onPart (.of_ends rfl hends ?_)
  rintro f t ⟨⟩

theorem faultFree_returnFrame (h : Balanced map total all l fs free live aside)
    (stock : Stock map all) {f : Frame} (hf : f ∈ l.held) :
    FaultFree id (System.onStore (FramePool.checkedRelease f))
      (System.onStore (FramePool.release f)) l.system := by
  obtain ⟨⟨hfh, -⟩, -⟩ := h.disjoint stock.nodup
  have hroom := h.heap.room
  have hnull := h.alias_ne_null stock (List.mem_append_right _ hf)
  obtain ⟨pool, hpush, -⟩ := FramePool.push_of_ne_null h.pool hnull fun hmem => hfh hmem hf
  have hends : Ends (FramePool.release f) l.system.store (fun _ _ => True) (fun _ _ => False) := by
    rw [FramePool.release]
    exact Ends.bind_of_ok hpush trivial
  refine .onPart (.of_ends (FramePool.checkedRelease_eq f ?_) hends fun _ _ => id)
  rw [h.pool.free]
  omega

theorem faultFree_growHeap (h : Balanced map total all l fs free live aside)
    (hc : l.system.heapStore.heap.Tallied l.arena) (pages : Nat) :
    FaultFree id (System.onHeap (Heap.checkedExpand pages)) (System.onHeap (Heap.expand pages))
      l.system :=
  .onPart (.of_ends (h.heap.checkedExpand_eq hc pages) (h.heap.advanced_of_expand pages)
    fun _ _ => id)

theorem faultFree_initHeap (h : Balanced map total all l fs free live aside)
    (hc : l.system.heapStore.heap.Tallied l.arena) {bytes : Nat} (hbytes : bytes < 2 ^ 64) :
    FaultFree .fault (System.onHeap (Heap.checkedInit bytes)) (System.onHeap (Heap.init bytes))
      l.system := by
  refine .onPart (.of_ends (h.heap.checkedInit_eq hc hbytes) (h.heap.advanced_of_init bytes) ?_)
  rintro f t ⟨⟨⟩, -⟩

/-- A heap that does not allocate says why. -/
theorem faultFree_allocate (h : Balanced map total all l fs free live aside)
    (hc : l.system.heapStore.heap.Tallied l.arena) {size : Nat} (hsize : size < 2 ^ 64) :
    FaultFree .fault (System.onHeap (Heap.checkedAllocate size))
      (System.onHeap (Heap.allocate size)) l.system := by
  refine .onPart (.of_ends (h.heap.checkedAllocate_eq hc hsize) (h.heap.allocate size) ?_)
  intro f t ht
  obtain ⟨⟨e, hstop⟩, -⟩ := ht.advanced h.heap []
  cases hstop

theorem faultFree_free (h : Balanced map total all l fs free live aside) {p : VirtualAddress}
    (hp : p = .null ∨ p ∈ l.live) :
    FaultFree id (System.onHeap (Heap.free p)) (System.onHeap (Heap.free p)) l.system := by
  have hends : Ends (Heap.free p) l.system.heapStore (fun _ _ => True) (fun _ _ => False) := by
    by_cases hnull : p = .null
    · cases hnull
      trivial
    · obtain ⟨b, rest, rfl, hperm, -⟩ := h.exists_block hnull (hp.resolve_left hnull)
      exact ((h.heap.live_perm hperm).advanced_of_free hnull).mono (fun _ _ _ => trivial)
        fun _ _ => id
  exact .onPart (.of_ends rfl hends fun _ _ => id)

theorem faultFree_reallocate (h : Balanced map total all l fs free live aside)
    (hc : l.system.heapStore.heap.Tallied l.arena) {p : VirtualAddress}
    (hp : p = .null ∨ p ∈ l.live) {size : Nat} (hsize : size < 2 ^ 64) :
    FaultFree .fault (System.onHeap (Heap.checkedReallocate p size))
      (System.onHeap (Heap.reallocate p size)) l.system := by
  have hends : Ends (Heap.reallocate p size) l.system.heapStore (fun _ _ => True)
      (fun stop _ => ∃ e, stop = .error e) := by
    by_cases hnull : p = .null
    · cases hnull
      exact (h.heap.reallocate_null size).mono (fun _ _ _ => trivial)
        fun _ _ ht => (ht.advanced h.heap []).1
    · obtain ⟨b, rest, rfl, hperm, -⟩ := h.exists_block hnull (hp.resolve_left hnull)
      have hheap := h.heap.live_perm hperm
      exact (hheap.reallocate_block hnull size).mono (fun _ _ _ => trivial)
        fun _ _ ht => (ht.advanced hheap []).1
  refine .onPart (.of_ends (h.heap.checkedReallocate_eq hc p hsize) hends ?_)
  rintro f t ⟨e, ⟨⟩⟩

theorem faultFree_allocLayout (h : Balanced map total all l fs free live aside)
    (hc : l.system.heapStore.heap.Tallied l.arena) {layout : Layout}
    (hsize : layout.size < 2 ^ 64) :
    FaultFree id (System.onHeap (Heap.checkedAllocLayout layout))
      (System.onHeap (Heap.allocLayout layout)) l.system :=
  .onPart (.of_ends (h.heap.checkedAllocLayout_eq hc hsize) (h.heap.served_of_allocLayout layout)
    fun _ _ => id)

theorem faultFree_allocZeroed (h : Balanced map total all l fs free live aside)
    (hc : l.system.heapStore.heap.Tallied l.arena) {layout : Layout}
    (hsize : layout.size < 2 ^ 64) :
    FaultFree id (System.onHeap (Heap.checkedAllocZeroed layout))
      (System.onHeap (Heap.allocZeroed layout)) l.system :=
  .onPart (.of_ends (h.heap.checkedAllocZeroed_eq hc hsize) (h.heap.served_of_allocZeroed layout)
    fun _ _ => id)

theorem faultFree_reallocLayout (h : Balanced map total all l fs free live aside)
    (hc : l.system.heapStore.heap.Tallied l.arena) {p : VirtualAddress}
    (hp : p = .null ∨ p ∈ l.live) (layout : Layout) {size : Nat} (hsize : size < 2 ^ 64) :
    FaultFree id (System.onHeap (Heap.checkedReallocLayout p layout size))
      (System.onHeap (Heap.reallocLayout p layout size)) l.system := by
  have hends : Ends (Heap.reallocLayout p layout size) l.system.heapStore (fun _ _ => True)
      (fun _ _ => False) := by
    by_cases hnull : p = .null
    · cases hnull
      exact (h.heap.served_of_reallocLayout_null layout size).mono (fun _ _ _ => trivial)
        fun _ _ => id
    · obtain ⟨b, rest, rfl, hperm, -⟩ := h.exists_block hnull (hp.resolve_left hnull)
      exact ((h.heap.live_perm hperm).served_of_reallocLayout hnull layout size).mono
        (fun _ _ _ => trivial) fun _ _ => id
  exact .onPart (.of_ends (h.heap.checkedReallocLayout_eq hc p layout hsize) hends fun _ _ => id)

end Balanced

/-! ## Every state that can be reached -/

/-- The frames of regions that share none are few enough to be counted. -/
theorem faultFree_filling {memoryMaps : List (List Region)}
    (hn : (Region.wholeFrames memoryMaps.flatten).Nodup) (m : Ram) (log : Log) :
    FaultFree id (FramePool.checkedAddMemoryMaps memoryMaps)
      (FramePool.addMemoryMaps memoryMaps) ⟨m, .empty map, log⟩ := by
  have hfew := Region.length_wholeFrames_lt hn
  have hends := FramePool.addMemoryMaps_ends (s := ⟨m, .empty map, log⟩) memoryMaps
    (FramePool.holds_empty map m) (by simpa using hn)
  have hcount : (FramePool.empty map).free + (Region.wholeFrames memoryMaps.flatten).length <
      2 ^ 64 := by
    change 0 + _ < _
    omega
  exact .of_ends (FramePool.checkedAddMemoryMaps_eq memoryMaps _ hcount hcount) hends fun _ _ => id

/-- After any run of permitted requests a machine that checks its arithmetic finds nothing wrong,
whatever comes next; and under an offset of the direct map that is a multiple of the frame size, no
block goes on behind the last address. -/
theorem Reached.faultless {memoryMaps : List (List Region)} {requests : List Request}
    (h : Reached map memoryMaps requests l) :
    Faultless map memoryMaps l ∧ (frameSize ∣ map.offset.toNat →
      ∀ b ∈ l.freeBlocks ++ l.liveBlocks, b.start.toNat + b.length ≤ 2 ^ 64) := by
  obtain ⟨stock, fs, free, live, aside, hbalanced⟩ := h.sound
  have hgrew : l.system.heap.GrewByFrames := by
    obtain ⟨m, log, -, rfl⟩ := h.run
    exact grewByFrames_performAll (grewByFrames_filled map memoryMaps m log) requests
  have hc := hbalanced.tallied hgrew
  refine ⟨?_, fun hmap => (hbalanced.tiled stock hmap).unwrapped⟩
  constructor
  case filling => exact faultFree_filling (Region.nodup_wholeFrames h.disjoint)
  case alias_ne_null => exact fun f hf => hbalanced.alias_ne_null stock hf
  case wrapped => exact fun b hb hlong => hbalanced.frameAt_null_mem_arena hb hlong
  case takeFrame => exact hbalanced.faultFree_takeFrame
  case returnFrame => exact fun f hf => hbalanced.faultFree_returnFrame stock hf
  case initHeap => exact fun bytes => hbalanced.faultFree_initHeap hc bytes.toNat_lt
  case growHeap => exact fun pages => hbalanced.faultFree_growHeap hc pages.toNat
  case allocate => exact fun size => hbalanced.faultFree_allocate hc size.toNat_lt
  case free => exact fun p hp => hbalanced.faultFree_free hp
  case reallocate => exact fun p hp size => hbalanced.faultFree_reallocate hc hp size.toNat_lt
  case allocLayout => exact fun layout hsize => hbalanced.faultFree_allocLayout hc hsize
  case allocZeroed => exact fun layout hsize => hbalanced.faultFree_allocZeroed hc hsize
  case reallocLayout =>
    exact fun p hp layout size => hbalanced.faultFree_reallocLayout hc hp layout size.toNat_lt

/-- A heap that was asked for more than there is, a payload in use and a frame that is held. -/
theorem faultless_largest_size :
    let memoryMaps : List (List Region) := [[⟨⟨0x1000⟩, 0x3000, .usable⟩]]
    let requests : List Request :=
      [.initHeap 1, .allocate 100, .takeFrame, .allocate (2 ^ 64 - 1), .growHeap (2 ^ 64 - 1)]
    let l := (filled ⟨0xffff800000000000⟩ memoryMaps (.uniform 0xaa) (.empty none)).performAll
      requests
    Reached ⟨0xffff800000000000⟩ memoryMaps requests l ∧ l.live.length = 1 ∧
      l.held.map Page.number = [2] ∧ l.free = [] ∧
      Faultless ⟨0xffff800000000000⟩ memoryMaps l ∧
      ∀ b ∈ l.freeBlocks ++ l.liveBlocks, b.start.toNat + b.length ≤ 2 ^ 64 := by
  intro memoryMaps requests l
  have hl : Reached ⟨0xffff800000000000⟩ memoryMaps requests l :=
    ⟨by decide, .uniform 0xaa, .empty none, by decide +kernel, rfl⟩
  obtain ⟨hfaultless, hends⟩ := Reached.faultless hl
  exact ⟨hl, by decide +kernel, by decide +kernel, by decide +kernel, hfaultless,
    hends (by decide)⟩

end Ledger

end PagedMemory
