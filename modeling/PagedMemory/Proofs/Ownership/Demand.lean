import PagedMemory.Proofs.Heap.Demand
import PagedMemory.Proofs.Ownership.FreeOrder
import PagedMemory.Proofs.Ownership.Growth
import PagedMemory.Proofs.Ownership.Tiling
/-!
# When a request for memory has the heap grow, and by how much

A request is served from a free block, if one is large enough. Otherwise the heap takes the frames
that the request fills, or ten if that is more, or all that there are; and it takes none if there are
too few for the request. What it takes it keeps, even if the request is refused after all. It is served
if the frames are contiguous, which they are as long as there is one region and no frame is given back.
-/
namespace PagedMemory

open FreeList

namespace System

theorem setHeapStore_with_log {s : System} (h : s.Shared) (log : Log) :
    s.setHeapStore { s.heapStore with store := { s.heapStore.store with log } } =
      { s with log } := by
  obtain ⟨pool, hpool⟩ := Option.isSome_iff_exists.mp h.pool
  rw [h.setHeapStore_eq, h.heapStore_eq]
  simp [System.setStore, store, hpool]

end System

namespace Ledger

variable {map : DirectMap} {total : Nat} {all fs : List Frame} {l : Ledger}
variable {free live aside : List Run} {size : Nat}

/-- How many frames a request takes if no free block is large enough for it and enough are free. -/
def framesToGrow (l : Ledger) (size : Nat) : Nat :=
  min (max (Heap.demandFrames size) heapExpandPages) l.system.store.frames.free

/-- How requests for memory are answered. -/
structure MeetsDemand (map : DirectMap) (l : Ledger) (size : Nat) : Prop where
  /-- A free block is large enough: the request is served and no frame is taken. -/
  fitting : (∃ b ∈ l.freeBlocks, Heap.demand size ≤ b.length) →
    Ends (System.onHeap (Heap.allocate size)) l.system (fun _ t => TookFrames l 0 t)
      fun _ _ => False
  /-- None is, and the size cannot be rounded up or there are too few frames: the request is refused
  and nothing but the log changes. -/
  lacking : (∀ b ∈ l.freeBlocks, b.length < Heap.demand size) →
    2 ^ 64 ≤ Heap.roundUp (max size 1) heapAlign ∨
      l.system.store.frames.free < Heap.demandFrames size →
    ∃ log, System.onHeap (Heap.allocate size) l.system =
      .error (.error (.outOfMemory size)) { l.system with log }
  /-- None is, but there are enough frames: some are taken, whatever comes of that. -/
  growing : (∀ b ∈ l.freeBlocks, b.length < Heap.demand size) →
    Heap.roundUp (max size 1) heapAlign < 2 ^ 64 →
    Heap.demandFrames size ≤ l.system.store.frames.free →
    l.framesToGrow size ≠ 0 ∧
      Ends (System.onHeap (Heap.allocate size)) l.system
        (fun _ t => TookFrames l (l.framesToGrow size) t)
        fun stop t => stop = .error (.outOfMemory size) ∧ TookFrames l (l.framesToGrow size) t
  /-- If these are contiguous in the order in which they are taken, the request is served with what
  follows the header at the start of the lowest one. -/
  contiguous : (∀ b ∈ l.freeBlocks, b.length < Heap.demand size) →
    Heap.roundUp (max size 1) heapAlign < 2 ^ 64 →
    Heap.demandFrames size ≤ l.system.store.frames.free →
    ∀ low, Contiguous (l.free.take (l.framesToGrow size)) low →
      ∃ t, System.onHeap (Heap.allocate size) l.system = .ok (payloadOf (map.aliasOf low)) t
  /-- The lowest one has the lowest alias, unless the frame around null is among them. -/
  wrapped : ∀ low, Contiguous (l.free.take (l.framesToGrow size)) low →
    ∀ f ∈ l.free.take (l.framesToGrow size), (map.aliasOf f).toNat < (map.aliasOf low).toNat →
      map.frameAt .null ∈ l.free.take (l.framesToGrow size)

namespace Balanced

theorem tookFrames_of_allocated (h : Balanced map total all l fs free live aside)
    {p : VirtualAddress} {t : HeapStore}
    (ht : Heap.Allocated l.system.heapStore fs free live aside l.arena size p t) :
    TookFrames l (Heap.framesTaken fs.length free size) (l.system.setHeapStore t) := by
  obtain ⟨payload, pre, b, post, u, -, -, -, -, -, hu, ht⟩ := ht
  refine h.tookFrames (Heap.framesTaken_le _ _ _) ht.holds.pool ?_ ?_
  · rw [ht.counts.1, hu.expansions]
  · rw [ht.counts.2, hu.arenaBytes]

theorem tookFrames_of_notAllocated (h : Balanced map total all l fs free live aside)
    (hattached : l.system.heap.attached = true) {stop : Stop HeapError} {t : HeapStore}
    (ht : Heap.NotAllocated l.system.heapStore fs free live aside l.arena size stop t) :
    stop = .error (.outOfMemory size) ∧
      TookFrames l (Heap.framesTaken fs.length free size) (l.system.setHeapStore t) := by
  rcases ht with ⟨-, hdetached, -⟩ | ⟨hstop, -, hgrew, -⟩
  · rw [h.heap_eq] at hdetached
    exact nomatch hattached.symm.trans hdetached
  · exact ⟨hstop, h.tookFrames (Heap.framesTaken_le _ _ _) hgrew.holds.pool hgrew.expansions
      hgrew.arenaBytes⟩

theorem meetsDemand (h : Balanced map total all l fs free live aside)
    (hlast : ∀ f ∈ all, f.number + 1 < PageSize.small.pages)
    (hattached : l.system.heap.attached = true) (size : Nat) : MeetsDemand map l size := by
  have hheap : l.system.heapStore.heap.attached = true := h.heap_eq ▸ hattached
  have hfs : ∀ f ∈ fs, f.number + 1 < PageSize.small.pages := fun f hf =>
    hlast f (h.mem_all (.inl hf))
  have hstore := h.store_eq
  constructor
  case fitting =>
    rw [h.freeBlocks_eq]
    intro hfit
    obtain ⟨hk, hends⟩ := h.heap.allocate_of_fitting hheap hfit
    refine Ends.onPart (hends.mono ?_ fun _ _ => False.elim)
    intro p t ht
    exact hk ▸ h.tookFrames_of_allocated ht
  case lacking =>
    rw [h.freeBlocks_eq, ← hstore]
    intro hsmall hlacking
    obtain ⟨log, hrun⟩ := h.heap.allocate_of_lacking hheap hsmall hlacking
    refine ⟨log, ?_⟩
    rw [System.onHeap, onPart, hrun, ← System.setHeapStore_with_log h.shared]
  case growing =>
    rw [h.freeBlocks_eq, framesToGrow, ← hstore]
    intro hsmall hround henough
    have hk := h.heap.framesTaken_of_growing hsmall hround henough
    rw [← hk]
    refine ⟨?_, Ends.onPart ((h.heap.allocate size).mono ?_ ?_)⟩
    · have := Heap.demandFrames_pos size
      omega
    · intro p t ht
      exact h.tookFrames_of_allocated ht
    · intro stop t ht
      exact h.tookFrames_of_notAllocated hattached ht
  case contiguous =>
    rw [h.freeBlocks_eq, framesToGrow, ← hstore, h.free_eq]
    intro hsmall hround henough low hlow
    have hk := h.heap.framesTaken_of_growing hsmall hround henough
    have hends := h.heap.allocate_of_contiguous hheap hsmall hround henough hfs (hk ▸ hlow)
    rw [hstore, h.map_eq] at hends
    obtain ⟨p, t, hrun, rfl⟩ := hends.exists_ok
    refine ⟨l.system.setHeapStore t, ?_⟩
    rw [System.onHeap, onPart, hrun]
  case wrapped =>
    rw [h.free_eq]
    intro low hlow f hf hlt
    by_contra hnull
    have hle := hlow.alias_le (fun g hg => hfs g (List.mem_of_mem_take hg)) hnull hf
    omega

end Balanced

/-! ## One region -/

variable {memoryMaps : List (List Region)} {requests : List Request} {r : Region}

/-- With one usable region in all memory maps, its frames are all that a pool gets. -/
theorem addedFrames_of_single (hr : memoryMaps.flatten.filter Region.isUsable = [r])
    (hnull : ∀ f ∈ r.frames.toList, map.aliasOf f ≠ .null) :
    FramePool.addedFrames map memoryMaps = r.frames.toList := by
  have hnone : ∀ rest : List (List Region), rest.flatten.filter Region.isUsable = [] →
      FramePool.addedFrames map rest = [] := by
    intro rest hrest
    apply List.eq_nil_iff_forall_not_mem.mpr
    intro f hf
    have hmem := (FramePool.mem_addedFrames.mp hf).1
    rw [Region.wholeFrames, hrest] at hmem
    cases hmem
  have hall : FramePool.listable map r.frames.toList = r.frames.toList :=
    List.filter_eq_self.mpr fun f hf => by
      rw [(Address.isNull_eq_false_iff _).mpr (hnull f hf)]
      rfl
  induction memoryMaps with
  | nil => cases hr
  | cons memoryMap rest ih =>
    rw [FramePool.addedFrames_cons, Region.wholeFrames]
    rw [List.flatten_cons, List.filter_append, List.append_eq_singleton_iff] at hr
    rcases hr with ⟨hfirst, hrest⟩ | ⟨hfirst, hrest⟩
    · rw [ih hrest, hfirst]
      exact List.append_nil _
    · rw [hnone rest hrest, hfirst, List.flatMap_singleton, hall, List.nil_append]

/-- Before anything is asked for, all frames are free. -/
theorem free_filled (map : DirectMap) (m : Ram) (log : Log)
    (hn : (Region.wholeFrames memoryMaps.flatten).Nodup) :
    (filled map memoryMaps m log).free = FramePool.addedFrames map memoryMaps := by
  obtain ⟨counts, s, hs, -, hpool, -⟩ := FramePool.addMemoryMaps_empty map m log hn
  rw [filled, outcome, hs]
  exact hpool.freeFrames_eq

theorem numbers_toList (frames : FrameRange) :
    frames.toList.map Page.number = List.range' frames.next frames.size := by
  rw [FrameRange.toList, List.map_map]
  refine (List.map_congr_left fun n hn => ?_).trans (List.map_id _)
  have hs : frames.size = frames.stop - frames.next := rfl
  rw [List.mem_range'_1] at hn
  exact frames.number_ofNumber (by omega)

/-- As nothing was given back, the free frames are the last ones of the region. -/
theorem Reached.free_of_single (h : Reached map memoryMaps requests l)
    (hr : memoryMaps.flatten.filter Region.isUsable = [r])
    (hnull : ∀ f ∈ r.frames.toList, map.aliasOf f ≠ .null)
    (hreturn : ∀ q ∈ requests, q.returnsFrame = false) :
    ∃ first, l.free.map Page.number = List.range' first l.free.length := by
  obtain ⟨m, log, hq, rfl⟩ := h.run
  have hn := Region.nodup_wholeFrames h.disjoint
  obtain ⟨stock, hstart⟩ := sound_filled map hn m log
  have hsuffix := hstart.free_suffix stock hq hreturn
  rw [free_filled map m log hn, addedFrames_of_single hr hnull] at hsuffix
  generalize ((filled map memoryMaps m log).performAll requests).free = frames at *
  have hdrop := List.suffix_iff_eq_drop.mp hsuffix
  refine ⟨r.frames.next + (r.frames.toList.length - frames.length), ?_⟩
  have hle := hsuffix.length_le
  have hlength := r.frames.length_toList
  conv_lhs => rw [hdrop]
  rw [List.map_drop, numbers_toList, List.drop_range']
  congr 1
  · omega
  · omega

/-- The first ones of consecutive frames are contiguous. -/
theorem exists_contiguous_take {frames : List Frame} {first k : Nat}
    (hframes : frames.map Page.number = List.range' first frames.length) (hk : k ≠ 0)
    (hpos : 0 < frames.length) : ∃ low, Contiguous (frames.take k) low := by
  cases frames with
  | nil => cases hpos
  | cons low rest =>
    have hlow : low.number = first := by
      rw [List.map_cons, List.length_cons, List.range'_succ] at hframes
      exact (List.cons.inj hframes).1
    refine ⟨low, ?_, .inl ?_⟩
    · rw [List.length_take]
      omega
    · rw [List.map_take, hframes, hlow, List.length_take]
      refine List.ext_getElem (by simp) fun i _ _ => ?_
      simp

/-- Then a request is served just in case a free block is large enough for it or the free frames are
as many as it fills. -/
theorem Reached.allocate_iff_of_single (h : Reached map memoryMaps requests l)
    (hattached : l.system.heap.attached = true)
    (hr : memoryMaps.flatten.filter Region.isUsable = [r])
    (hnull : ∀ f ∈ r.frames.toList, map.aliasOf f ≠ .null)
    (hreturn : ∀ q ∈ requests, q.returnsFrame = false) (size : Nat) :
    (∃ p t, System.onHeap (Heap.allocate size) l.system = .ok p t) ↔
      (∃ b ∈ l.freeBlocks, Heap.demand size ≤ b.length) ∨
        Heap.demandFrames size ≤ l.system.store.frames.free := by
  obtain ⟨first, hfirst⟩ := h.free_of_single hr hnull hreturn
  obtain ⟨stock, fs, free, live, aside, hbalanced⟩ := h.sound
  have hmeets := hbalanced.meetsDemand (fun f hf => number_lt_of_mem_addedFrames hf) hattached size
  by_cases hfit : ∃ b ∈ l.freeBlocks, Heap.demand size ≤ b.length
  · obtain ⟨p, t, hrun, -⟩ := (hmeets.fitting hfit).exists_ok
    exact iff_of_true ⟨p, t, hrun⟩ (.inl hfit)
  · have hsmall : ∀ b ∈ l.freeBlocks, b.length < Heap.demand size := by
      intro b hb
      by_contra hle
      exact hfit ⟨b, hb, Nat.not_lt.mp hle⟩
    by_cases henough : Heap.demandFrames size ≤ l.system.store.frames.free
    · have hfew : l.system.store.frames.free < 2 ^ 52 := by
        have hroom := hbalanced.heap.room
        rw [hbalanced.pool.free]
        omega
      have hround : Heap.roundUp (max size 1) heapAlign < 2 ^ 64 := by
        by_contra hle
        have := Heap.lt_demandFrames_of_overflow (Nat.not_lt.mp hle) hfew
        omega
      have hpos : 0 < l.free.length := by
        have := Heap.demandFrames_pos size
        rw [← hbalanced.free_length]
        omega
      obtain ⟨low, hlow⟩ :=
        exists_contiguous_take hfirst (hmeets.growing hsmall hround henough).1 hpos
      obtain ⟨t, hrun⟩ := hmeets.contiguous hsmall hround henough low hlow
      exact iff_of_true ⟨_, t, hrun⟩ (.inr henough)
    · obtain ⟨log, hrun⟩ := hmeets.lacking hsmall (.inr (Nat.not_le.mp henough))
      refine iff_of_false ?_ (not_or.mpr ⟨hfit, henough⟩)
      rintro ⟨p, t, hok⟩
      exact nomatch hrun.symm.trans hok

/-- In whatever state a heap and its pool are, requests for memory are answered as `MeetsDemand`
says. Under an offset of the direct map that is a multiple of the frame size, a payload in contiguous
frames lies behind the lowest of their aliases. With one usable region and no frame given back, a
block or frames enough are all that it takes. -/
theorem Reached.answers_allocate (h : Reached map memoryMaps requests l)
    (hattached : l.system.heap.attached = true) (size : Nat) :
    MeetsDemand map l size ∧
      (frameSize ∣ map.offset.toNat →
        ∀ low, Contiguous (l.free.take (l.framesToGrow size)) low →
          ∀ f ∈ l.free.take (l.framesToGrow size),
            (map.aliasOf low).toNat ≤ (map.aliasOf f).toNat) ∧
      ∀ r, memoryMaps.flatten.filter Region.isUsable = [r] →
        (∀ f ∈ r.frames.toList, map.aliasOf f ≠ .null) →
        (∀ q ∈ requests, q.returnsFrame = false) →
        ((∃ p t, System.onHeap (Heap.allocate size) l.system = .ok p t) ↔
          (∃ b ∈ l.freeBlocks, Heap.demand size ≤ b.length) ∨
            Heap.demandFrames size ≤ l.system.store.frames.free) := by
  obtain ⟨stock, fs, free, live, aside, hbalanced⟩ := h.sound
  have hlast : ∀ f ∈ FramePool.addedFrames map memoryMaps, f.number + 1 < PageSize.small.pages :=
    fun f hf => number_lt_of_mem_addedFrames hf
  have hmeets := hbalanced.meetsDemand hlast hattached size
  refine ⟨hmeets, ?_, ?_⟩
  · intro hmap low hlow f hf
    by_contra! hlt
    have hnull := List.mem_of_mem_take (hmeets.wrapped low hlow f hf hlt)
    exact stock.frameAt_null_notMem hmap (hbalanced.mem_all (.inl (hbalanced.free_eq ▸ hnull)))
  · intro r hr hnull hreturn
    exact h.allocate_iff_of_single hattached hr hnull hreturn size

/-- Seven frames in one region, one of which is a table and one of which the heap has; a request of one
byte less than would need five frames takes all of the others and is served. -/
theorem answers_allocate_seven_frames :
    let map : DirectMap := ⟨0xffff800000000000⟩
    let region : Region := ⟨⟨0x1000⟩, 0x7000, .usable⟩
    let requests : List Request := [.initHeap 1, .createTable, .allocate 100]
    let l := (filled map [[region]] (.uniform 0xaa) (.empty none)).performAll requests
    Reached map [[region]] requests l ∧ l.system.heap.attached = true ∧
      l.free.map Page.number = [3, 4, 5, 6, 7] ∧ Heap.demandFrames 16368 = 4 ∧
      MeetsDemand map l 16368 ∧
      (∀ low, Contiguous (l.free.take (l.framesToGrow 16368)) low →
        ∀ f ∈ l.free.take (l.framesToGrow 16368),
          (map.aliasOf low).toNat ≤ (map.aliasOf f).toNat) ∧
      ∃ p t, System.onHeap (Heap.allocate 16368) l.system = .ok p t := by
  intro map region requests l
  have hl : Reached map [[region]] requests l :=
    ⟨by decide, .uniform 0xaa, .empty none, by decide +kernel, rfl⟩
  have hattached : l.system.heap.attached = true := by decide +kernel
  obtain ⟨hmeets, haligned, hsingle⟩ := Reached.answers_allocate hl hattached 16368
  have henough : Heap.demandFrames 16368 ≤ l.system.store.frames.free := by decide +kernel
  exact ⟨hl, hattached, by decide +kernel, by decide, hmeets, haligned (by decide),
    (hsingle region (by decide) (by decide) (by decide)).mpr (.inr henough)⟩

end Ledger

end PagedMemory
