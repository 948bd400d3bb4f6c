import PagedMemory.Proofs.Frame.Stack
/-!
# In which order a pool hands out its frames

A pool is filled from the back: the last frame of the last region of a memory map goes onto the list
first. So a pool that nobody gave a frame back to hands them out in the order of the map, the frames
of each region from the lowest to the highest. A map that is added later comes first. No promise is
made that the regions of a map are sorted, that they begin and end with a frame or that they end at
all below the top of the address space.
-/
namespace PagedMemory

/-- Frames one above the other. -/
def Frame.Ascending (fs : List Frame) : Prop :=
  fs.Pairwise fun f g => f.base.toNat < g.base.toNat

namespace FrameRange

theorem ascending_toList (r : FrameRange) : Frame.Ascending r.toList := by
  have hs : r.size = r.stop - r.next := rfl
  rw [Frame.Ascending, toList, List.pairwise_map]
  refine List.Pairwise.imp_of_mem ?_ (List.pairwise_lt_range' (s := r.next) (n := r.size))
  intro a b ha hb hab
  rw [List.mem_range'_1] at ha hb
  rw [Page.toNat_base, Page.toNat_base, r.number_ofNumber (by omega), r.number_ofNumber (by omega)]
  exact Nat.mul_lt_mul_of_pos_right hab PageSize.small.bytes_pos

end FrameRange

namespace Region

/-- A frame lies inside of a region with all of its bytes. -/
def Contains (r : Region) (f : Frame) : Prop :=
  r.base.toNat ≤ f.base.toNat ∧ f.base.toNat + frameSize ≤ r.limit

/-- The frames of a region are those inside of it, also where rounding its base up would lead out of
the address space. -/
theorem mem_frames {r : Region} {f : Frame} : f ∈ r.frames.toList ↔ r.Contains f := by
  have hs : PageSize.small.bytes = 4096 := rfl
  have hb := r.base.toNat_lt
  have hl := r.limit_lt
  have hmax : r.limit ≤ 2 ^ 64 - 1 := Nat.min_le_right _ _
  simp only [FrameRange.mem_toList, frames, FrameRange.between, Contains, Page.toNat_base, hs,
    frameSize, firstFrameStart, Address.alignUp?]
  split
  · rw [Option.getD_some, Address.toNat_ofNat]
    omega
  · have hlast : (⟨0xffffffffffffffff⟩ : PhysicalAddress).toNat = 2 ^ 64 - 1 := rfl
    rw [Option.getD_none, hlast]
    omega

/-- If the first of two regions does not begin above the second, and they share no frame, then its
frames are all below. -/
theorem base_lt_of_mem_frames {r r' : Region} (hle : r.base.toNat ≤ r'.base.toNat)
    (hd : r.frames.toList.Disjoint r'.frames.toList) {f g : Frame} (hf : f ∈ r.frames.toList)
    (hg : g ∈ r'.frames.toList) : f.base.toNat < g.base.toNat := by
  by_contra! hgf
  have hfr := mem_frames.mp hf
  have hgr := mem_frames.mp hg
  have hin : g ∈ r.frames.toList := by
    refine mem_frames.mpr ⟨hle.trans hgr.1, ?_⟩
    exact (Nat.add_le_add_right hgf frameSize).trans hfr.2
  exact hd hin hg

/-- The frames of a sorted memory map are sorted. -/
theorem ascending_wholeFrames {memoryMap : List Region}
    (hn : (memoryMap.filter isUsable).Pairwise
      fun r r' => r.frames.toList.Disjoint r'.frames.toList)
    (hs : (memoryMap.filter isUsable).Pairwise fun r r' => r.base.toNat ≤ r'.base.toNat) :
    Frame.Ascending (wholeFrames memoryMap) := by
  rw [Frame.Ascending, wholeFrames, List.pairwise_flatMap]
  constructor
  · intro r _
    exact r.frames.ascending_toList
  · refine (hn.and hs).imp ?_
    intro r r' h f hf g hg
    exact base_lt_of_mem_frames h.2 h.1 hf hg

end Region

namespace FramePool

/-- What a stack of frames replies if it is asked for frames again and again. -/
theorem Stack.replies_replicate_allocate (fs held : List Frame) (n : Nat) :
    (Stack.replies ⟨fs, held⟩ (List.replicate n .allocate)).1 =
      (fs.take n).map (fun f => .ok (some f)) ++
        List.replicate (n - fs.length) (.error (.error .outOfFrames)) := by
  induction n generalizing fs held with
  | zero => simp [Stack.replies]
  | succ n ih =>
    cases fs with
    | nil => simp [List.replicate_succ, Stack.replies, Stack.step, ih]
    | cons f fs => simp [List.replicate_succ, Stack.replies, Stack.step, ih]

theorem Stack.permitsAll_replicate_allocate (map : DirectMap) (stack : Stack) (n : Nat) :
    stack.PermitsAll map (List.replicate n .allocate) := by
  induction n generalizing stack with
  | zero => trivial
  | succ n ih => exact ⟨trivial, ih _⟩

/-- A memory map offers a frame: it lies in a usable region, and its alias is not null. -/
def Offers (map : DirectMap) (memoryMap : List Region) (f : Frame) : Prop :=
  ∃ r ∈ memoryMap, r.isUsable ∧ r.Contains f ∧ map.aliasOf f ≠ .null

theorem mem_listable_wholeFrames {map : DirectMap} {memoryMap : List Region} {f : Frame} :
    f ∈ listable map (Region.wholeFrames memoryMap) ↔ Offers map memoryMap f := by
  simp only [mem_listable, Region.mem_wholeFrames, Region.mem_frames, Offers]
  grind

/-- As each frame is named once, those that are counted are those on offer. -/
theorem length_listable_wholeFrames (map : DirectMap) {memoryMap : List Region}
    (hn : (Region.wholeFrames memoryMap).Nodup) :
    (listable map (Region.wholeFrames memoryMap)).length = {f | Offers map memoryMap f}.ncard := by
  have hset : {f | Offers map memoryMap f} =
      ((listable map (Region.wholeFrames memoryMap)).toFinset : Set Frame) := by
    ext f
    rw [Set.mem_ofPred_eq, ← mem_listable_wholeFrames, Finset.mem_coe, List.mem_toFinset]
  have hlisted : (listable map (Region.wholeFrames memoryMap)).Nodup := hn.filter _
  rw [hset, Set.ncard_coe_finset, List.toFinset_card_of_nodup hlisted]

/-- How a pool that was filled from memory maps, with the number of frames that each of them had,
answers whoever asks for frames until there are none. -/
structure HandsOut (map : DirectMap) (memoryMaps : List (List Region)) (counts : List Nat)
    (s : Store FramePool) : Prop where
  /-- Each memory map adds the frames that it offers. -/
  offered : counts = memoryMaps.map fun memoryMap => {f | Offers map memoryMap f}.ncard
  total : s.frames.total = counts.sum
  free : s.frames.free = counts.sum
  /-- The last map comes first, and the regions of each map in their order. -/
  replies : ∀ n, (FramePool.replies s (List.replicate n .allocate)).1 =
    ((memoryMaps.reverse.flatMap fun memoryMap => (memoryMap.filter Region.isUsable).flatMap
        fun r => listable map r.frames.toList).take n).map (fun f => .ok (some f)) ++
      List.replicate (n - counts.sum) (.error (.error .outOfFrames))
  /-- Each region gives the frames inside of it, from the lowest to the highest. -/
  region : ∀ memoryMap ∈ memoryMaps, ∀ r ∈ memoryMap,
    Frame.Ascending (listable map r.frames.toList) ∧
      ∀ f, f ∈ listable map r.frames.toList ↔ r.Contains f ∧ map.aliasOf f ≠ .null
  /-- All frames of a single sorted map come in ascending order. -/
  sorted : ∀ memoryMap, memoryMaps = [memoryMap] →
    (memoryMap.Pairwise fun r r' => r.base.toNat ≤ r'.base.toNat) →
      Frame.Ascending ((memoryMap.filter Region.isUsable).flatMap
        fun r => listable map r.frames.toList)

theorem listable_flatMap (map : DirectMap) (rs : List Region) :
    listable map (rs.flatMap fun r => r.frames.toList) =
      rs.flatMap fun r => listable map r.frames.toList := by
  simp only [listable, List.filter_flatMap]

/-- A fresh pool, over any contents of memory, hands out what the memory maps offer. -/
theorem handsOut_addMemoryMaps (map : DirectMap) (m : Ram) (log : Log)
    {memoryMaps : List (List Region)}
    (hn : (memoryMaps.flatten.filter Region.isUsable).Pairwise
      fun r r' => r.frames.toList.Disjoint r'.frames.toList) :
    ∃ counts s, addMemoryMaps memoryMaps ⟨m, .empty map, log⟩ = .ok counts s ∧
      HandsOut map memoryMaps counts s := by
  have hnodup := Region.nodup_wholeFrames hn
  have hfill := addMemoryMaps_ends (s := ⟨m, .empty map, log⟩) memoryMaps (holds_empty map m)
    (by simpa using hnodup)
  obtain ⟨counts, s, hs, hmap, hpool, htotal, hcounts⟩ := hfill.exists_ok
  rw [List.append_nil] at hpool
  have hlength : (addedFrames map memoryMaps).length = counts.sum :=
    hcounts ▸ length_addedFrames map memoryMaps
  have hkeeps : Keeps map s ⟨addedFrames map memoryMaps, []⟩ :=
    ⟨hmap, hpool, (List.append_nil _).symm ▸ hpool.nodup, by simp⟩
  refine ⟨counts, s, hs, ?_⟩
  constructor
  case offered =>
    rw [hcounts]
    refine List.map_congr_left fun memoryMap hmem => ?_
    exact length_listable_wholeFrames map (Region.nodup_wholeFrames
      (hn.sublist ((List.sublist_flatten_of_mem hmem).filter _)))
  case total => exact htotal.trans (Nat.zero_add _)
  case free => exact hpool.free.trans hlength
  case replies =>
    intro n
    have hreplies := (hkeeps.replies (Stack.permitsAll_replicate_allocate map _ n)).1
    rw [hreplies, Stack.replies_replicate_allocate, hlength]
    simp only [addedFrames, Region.wholeFrames, listable_flatMap]
  case region =>
    intro memoryMap _ r _
    refine ⟨r.frames.ascending_toList.sublist List.filter_sublist, fun f => ?_⟩
    rw [mem_listable, Region.mem_frames]
  case sorted =>
    rintro memoryMap rfl hsorted
    rw [← listable_flatMap]
    rw [List.flatten_singleton] at hn
    exact (Region.ascending_wholeFrames hn (hsorted.sublist List.filter_sublist)).sublist
      List.filter_sublist

/-- Regions out of order, the alias of one frame null; one region has partial edges and one runs over
the top of the address space. The map that is added last comes first. -/
theorem handsOut_addMemoryMaps_unsorted :
    let map : DirectMap := ⟨0xffffffffffffa000⟩
    let memoryMaps : List (List Region) :=
      [[⟨⟨0x9000⟩, 0x1000, .usable⟩, ⟨⟨0x3800⟩, 0x3900, .usable⟩, ⟨⟨0x1000⟩, 0x1000, .reserved⟩],
        [⟨⟨0xffffffffffffd123⟩, 0xffffffffffffffff, .usable⟩]]
    ((memoryMaps.flatten.filter Region.isUsable).Pairwise
        fun r r' => r.frames.toList.Disjoint r'.frames.toList) ∧
      addedFrames map memoryMaps =
        [.ofNumber 0xffffffffffffe, .ofNumber 9, .ofNumber 4, .ofNumber 5] ∧
      ∃ counts s, addMemoryMaps memoryMaps ⟨.uniform 0xaa, .empty map, .empty none⟩ =
          .ok counts s ∧
        HandsOut map memoryMaps counts s := by
  intro map memoryMaps
  have hn : (memoryMaps.flatten.filter Region.isUsable).Pairwise
      fun r r' => r.frames.toList.Disjoint r'.frames.toList := by decide +kernel
  exact ⟨hn, by decide +kernel, handsOut_addMemoryMaps map _ _ hn⟩

end FramePool

end PagedMemory
