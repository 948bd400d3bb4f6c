import PagedMemory.Proofs.Heap.Allocation
import PagedMemory.Proofs.Heap.MaximalRuns
/-!
# What a request demands

A request needs a block for its payload and a header. If no free block is that large, the heap takes
the frames that such a block fills, and some more. The count of these frames is worked out with a sum
that stops at the largest word; it is nevertheless the number of frames that the block fills. Frames
that come one directly after the other make a single block, so the request is served from it.
-/
namespace PagedMemory

open FreeList

namespace Heap

/-- The bytes of the block that a request needs. -/
def demand (size : Nat) : Nat := roundUp (max size 1) heapAlign + headerSize

/-- The number of frames that such a block fills. -/
def demandFrames (size : Nat) : Nat := (demand size + (frameSize - 1)) / frameSize

variable {size payload : Nat}

theorem demand_pos (size : Nat) : 0 < demand size := Nat.add_pos_right _ (by decide)

theorem demand_le (size : Nat) : demand size ≤ demandFrames size * frameSize := by
  simp only [demandFrames, frameSize]
  omega

theorem demandFrames_pos (size : Nat) : 0 < demandFrames size := by
  have := demand_pos size
  simp only [demandFrames, frameSize]
  omega

theorem payloadFor?_eq_none_iff :
    payloadFor? size = none ↔ 2 ^ 64 ≤ roundUp (max size 1) heapAlign := by
  rw [payloadFor?]
  split
  · rename_i hlt
    exact iff_of_false (by simp) (Nat.not_le.mpr hlt)
  · rename_i hle
    exact iff_of_true rfl (Nat.not_lt.mp hle)

theorem payloadFor?_of_lt (h : roundUp (max size 1) heapAlign < 2 ^ 64) :
    payloadFor? size = some (roundUp (max size 1) heapAlign) := if_pos h

theorem demand_eq (h : payloadFor? size = some payload) : demand size = headerSize + payload := by
  have hround : roundUp (max size 1) heapAlign = payload := (payloadFor?_eq_some h).1.symm
  rw [demand, hround, Nat.add_comm]

/-- That the sum is cut off at the largest word makes no difference: the one payload for which it is
cut off fills the address space with its header. -/
theorem framesFor_eq (h : payloadFor? size = some payload) : framesFor payload = demandFrames size := by
  obtain ⟨hmultiple, hlt⟩ := payloadFor?_eq_some h
  rw [framesFor, demandFrames, demand_eq h]
  simp only [headerSize, frameSize]
  omega

/-- More frames than the address space has are never free, so a size that cannot be rounded up is
refused like any other one for which there are too few. -/
theorem lt_demandFrames_of_overflow {frames : Nat} (h : 2 ^ 64 ≤ roundUp (max size 1) heapAlign)
    (hframes : frames < 2 ^ 52) : frames < demandFrames size := by
  simp only [demandFrames, demand, headerSize, frameSize]
  omega

end Heap

/-- Frames of which each lies directly after, or each directly before, the one that came before it;
`low` is the lowest one. -/
structure Contiguous (fs : List Frame) (low : Frame) : Prop where
  pos : 0 < fs.length
  numbers : fs.map Page.number = List.range' low.number fs.length ∨
    fs.map Page.number = (List.range' low.number fs.length).reverse

namespace Contiguous

variable {map : DirectMap} {fs : List Frame} {low : Frame}

theorem mem_numbers (h : Contiguous fs low) {n : Nat} :
    n ∈ fs.map Page.number ↔ low.number ≤ n ∧ n < low.number + fs.length := by
  rcases h.numbers with hup | hdown
  · rw [hup, List.mem_range'_1]
  · rw [hdown, List.mem_reverse, List.mem_range'_1]

theorem mem_iff (h : Contiguous fs low) {f : Frame} :
    f ∈ fs ↔ low.number ≤ f.number ∧ f.number < low.number + fs.length := by
  rw [← h.mem_numbers]
  constructor
  · exact List.mem_map_of_mem
  · intro hf
    obtain ⟨g, hg, hgf⟩ := List.mem_map.mp hf
    exact Page.ext_number hgf ▸ hg

/-- Upwards or downwards, the numbers join to one span. -/
theorem ofNumbers_eq (h : Contiguous fs low) :
    Span.ofNumbers (fs.map Page.number) = [⟨low.number, fs.length⟩] := by
  have hpos := h.pos
  have hnumbers := h.numbers
  cases hlength : fs.length with
  | zero => omega
  | succ k =>
    rw [hlength] at hnumbers
    rcases hnumbers with hup | hdown
    · rw [hup, List.range'_succ, Span.ofNumbers]
      exact (Span.joined_ascending ⟨low.number, 1⟩ k).trans (by rw [Nat.add_comm])
    · rw [hdown, List.range'_concat, Nat.one_mul, List.reverse_append, List.reverse_singleton,
        List.singleton_append, Span.ofNumbers]
      exact (Span.joined_descending ⟨low.number + k, 1⟩ Nat.one_pos rfl).trans (by rw [Nat.add_comm])

/-- They make one block. -/
theorem ofFrames_eq (h : Contiguous fs low) (hfs : ∀ f ∈ fs, f.number + 1 < PageSize.small.pages) :
    Run.ofFrames map fs = [⟨map.aliasOf low, fs.length * frameSize⟩] := by
  rw [Span.ofFrames_eq hfs, h.ofNumbers_eq, List.map_singleton, Span.run, Page.ofNumber_number]

/-- The alias of the lowest frame is the lowest one, unless the frames lie around the null address. -/
theorem alias_le (h : Contiguous fs low) (hfs : ∀ f ∈ fs, f.number + 1 < PageSize.small.pages)
    (hnull : map.frameAt .null ∉ fs) {f : Frame} (hf : f ∈ fs) :
    (map.aliasOf low).toNat ≤ (map.aliasOf f).toNat := by
  by_contra! hlt
  obtain ⟨hle, hlast⟩ := h.mem_iff.mp hf
  have hpages : PageSize.small.pages = 2 ^ 52 := rfl
  have hnumber := hfs f hf
  rw [hpages] at hnumber
  -- the frames up to that one go around the top of the address space
  have hspan : (⟨low.number, f.number - low.number + 1⟩ : Span).Fits := by
    rw [Span.Fits, hpages]
    dsimp only
    omega
  have hstep := map.aliasOf_add low.number (f.number - low.number)
  rw [Page.ofNumber_number, Nat.add_sub_cancel' hle, Page.ofNumber_number] at hstep
  have halias := (map.aliasOf low).toNat_add ((f.number - low.number) * frameSize)
  rw [hstep] at halias
  have hbound := (map.aliasOf low).toNat_lt
  have hdistance := (map.aliasOf low).distance_eq .null
  have hzero : (Address.null : VirtualAddress).toNat = 0 := rfl
  rw [hzero] at hdistance
  have hmem : Address.null ∈ Span.run map ⟨low.number, f.number - low.number + 1⟩ := by
    rw [Run.mem_iff, Span.run, Page.ofNumber_number]
    dsimp only [frameSize] at *
    omega
  rw [Span.mem_run hspan, Span.mem_numbers] at hmem
  dsimp only at hmem
  exact hnull (h.mem_iff.mpr ⟨hmem.1, by omega⟩)

end Contiguous

namespace Heap

variable {s : HeapStore} {fs : List Frame} {free live aside : List Run} {arena : List Frame}
variable {size : Nat}

/-- If a free block is large enough, one is taken. -/
theorem Holds.allocate_of_fitting (h : Holds s fs free live aside arena)
    (hattached : s.heap.attached = true) (hfit : ∃ b ∈ free, demand size ≤ b.length) :
    framesTaken fs.length free size = 0 ∧
      Ends (Heap.allocate size) s (Allocated s fs free live aside arena size) fun _ _ => False := by
  obtain ⟨b, hb, hfit⟩ := hfit
  have hlen := h.carved.length_lt (List.mem_append_left _ (List.mem_append_left live hb))
  have hround : roundUp (max size 1) heapAlign < 2 ^ 64 := by
    rw [demand] at hfit
    omega
  have hp := payloadFor?_of_lt hround
  rw [demand_eq hp] at hfit
  refine ⟨framesTaken_of_fit fs.length hp hb hfit, ?_⟩
  refine (h.allocate size).mono (fun _ _ ht => ht) ?_
  rintro stop t (⟨-, hdetached, -⟩ | ⟨-, -, -, hsmall⟩)
  · exact nomatch hattached.symm.trans hdetached
  · exact absurd (hsmall _ hp b (List.mem_append_right _ hb)) (Nat.not_lt.mpr hfit)

/-- If none is and the size cannot be rounded up or the frames are too few, nothing changes. -/
theorem Holds.allocate_of_lacking (h : Holds s fs free live aside arena)
    (hattached : s.heap.attached = true) (hsmall : ∀ b ∈ free, b.length < demand size)
    (hlacking : 2 ^ 64 ≤ roundUp (max size 1) heapAlign ∨ s.store.frames.free < demandFrames size) :
    ∃ log, Heap.allocate size s =
      .error (.error (.outOfMemory size)) { s with store := { s.store with log } } := by
  cases hp : payloadFor? size with
  | none => exact ⟨s.store.log, allocate_of_overflow hattached hp⟩
  | some payload =>
    have hnotOverflow : ¬ 2 ^ 64 ≤ roundUp (max size 1) heapAlign := fun hle =>
      nomatch hp.symm.trans (payloadFor?_eq_none_iff.mpr hle)
    rw [demand_eq hp] at hsmall
    refine Heap.allocate_of_few hattached hp (h.takeBlock_of_small hsmall) ?_
    rw [framesFor_eq hp]
    exact hlacking.resolve_left hnotOverflow

/-- If they are enough, as many frames are taken, whatever comes of that. -/
theorem Holds.framesTaken_of_growing (h : Holds s fs free live aside arena)
    (hsmall : ∀ b ∈ free, b.length < demand size)
    (hround : roundUp (max size 1) heapAlign < 2 ^ 64)
    (henough : demandFrames size ≤ s.store.frames.free) :
    framesTaken fs.length free size =
      min (max (demandFrames size) heapExpandPages) s.store.frames.free := by
  have hp := payloadFor?_of_lt hround
  rw [demand_eq hp] at hsmall
  rw [h.pool.free, ← framesFor_eq hp] at *
  exact framesTaken_of_enough hp hsmall henough

/-- Frames that are contiguous in the order in which they come serve the request. -/
theorem Holds.allocate_of_contiguous (h : Holds s fs free live aside arena)
    (hattached : s.heap.attached = true) (hsmall : ∀ b ∈ free, b.length < demand size)
    (hround : roundUp (max size 1) heapAlign < 2 ^ 64)
    (henough : demandFrames size ≤ s.store.frames.free)
    (hfs : ∀ f ∈ fs, f.number + 1 < PageSize.small.pages) {low : Frame}
    (hlow : Contiguous (fs.take (framesTaken fs.length free size)) low) :
    Ends (Heap.allocate size) s (fun p _ => p = payloadOf (s.store.frames.map.aliasOf low))
      fun _ _ => False := by
  have hp := payloadFor?_of_lt hround
  have hk := h.framesTaken_of_growing hsmall hround henough
  -- the block of all frames is the first one on the list, and it is large enough
  set k := framesTaken fs.length free size
  set block : Run := ⟨s.store.frames.map.aliasOf low, (fs.take k).length * frameSize⟩
  have hgrown : grownBlocks s.store.frames.map fs free size = [] ++ block :: free := by
    rw [grownBlocks, hlow.ofFrames_eq fun f hf => hfs f (List.mem_of_mem_take hf)]
    rfl
  have hlength : headerSize + roundUp (max size 1) heapAlign ≤ block.length := by
    have hframes : demandFrames size ≤ (fs.take k).length := by
      rw [List.length_take, hk, ← h.pool.free]
      omega
    rw [← demand_eq hp]
    exact (demand_le size).trans (Nat.mul_le_mul_right frameSize hframes)
  refine (h.allocate size).mono ?_ ?_
  · rintro p t ⟨payload, pre, b, post, -, hpayload, rfl, hsplit, hpre, hb, -, -⟩
    cases hp.symm.trans hpayload
    obtain ⟨-, rfl, -⟩ := first_fit_unique (hgrown.symm.trans hsplit) (by simp) hlength hpre hb
    rfl
  · rintro stop t (⟨-, hdetached, -⟩ | ⟨-, -, -, hnone⟩)
    · cases hattached.symm.trans hdetached
    · have hmem : block ∈ grownBlocks s.store.frames.map fs free size := by
        rw [hgrown]
        exact List.mem_cons_self
      exact absurd (hnone _ hp block hmem) (Nat.not_lt.mpr hlength)

end Heap

end PagedMemory
