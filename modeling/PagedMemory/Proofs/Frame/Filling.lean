import PagedMemory.Proofs.Frame.FreeFrames
/-!
# Filling a pool

What a pool holds once memory maps were added to it: the whole frames of the usable regions, in the
order in which the map and each region name them, in front of what the pool held before. A frame
whose alias is null is left out.
-/
namespace PagedMemory

namespace FrameRange

theorem nodup_toList (r : FrameRange) : r.toList.Nodup := by
  refine (List.nodup_range' (s := r.next) (n := r.size)).map_on ?_
  intro a ha b hb hab
  rw [List.mem_range'_1] at ha hb
  have hs : r.size = r.stop - r.next := rfl
  rw [← r.number_ofNumber (show a < r.stop by omega), hab,
    r.number_ofNumber (show b < r.stop by omega)]

end FrameRange

namespace Region

/-- The last frame of the address space is never inside of a region: its end is not. -/
theorem number_lt_of_mem_frames {r : Region} {f : Frame} (hf : f ∈ r.frames.toList) :
    f.number + 1 < PageSize.small.pages := by
  have hl := r.limit_lt
  have hp : PageSize.small.pages = 2 ^ 52 := rfl
  have hmax : r.limit ≤ 2 ^ 64 - 1 := Nat.min_le_right _ _
  have hs := FrameRange.mem_toList.mp hf
  simp only [frames, FrameRange.between] at hs
  omega

/-- The whole frames of the usable regions of a memory map, in the order of the map. -/
def wholeFrames (memoryMap : List Region) : List Frame :=
  (memoryMap.filter isUsable).flatMap fun r => r.frames.toList

/-- Whether two regions share a frame can be computed. -/
instance (fs gs : List Frame) : Decidable (fs.Disjoint gs) :=
  inferInstanceAs (Decidable (∀ f ∈ fs, f ∉ gs))

/-- Usable regions without a common frame name no frame twice. -/
theorem nodup_wholeFrames {memoryMap : List Region}
    (h : (memoryMap.filter isUsable).Pairwise fun r r' => r.frames.toList.Disjoint r'.frames.toList) :
    (wholeFrames memoryMap).Nodup := by
  rw [wholeFrames, List.nodup_flatMap]
  exact ⟨fun r _ => r.frames.nodup_toList, h⟩

/-- Frames that are all different are fewer than the address space has, and the last of those is in
no region. -/
theorem length_wholeFrames_lt {memoryMap : List Region} (h : (wholeFrames memoryMap).Nodup) :
    (wholeFrames memoryMap).length < 2 ^ 52 := by
  have hlast : PageSize.small.pages - 1 < PageSize.small.pages := by decide
  refine Page.length_lt_pages h (p := ⟨PageSize.small.pages - 1, hlast⟩) ?_
  intro hmem
  obtain ⟨r, -, hf⟩ := List.mem_flatMap.mp hmem
  have := number_lt_of_mem_frames hf
  simp only at this
  omega

theorem mem_wholeFrames {memoryMap : List Region} {f : Frame} :
    f ∈ wholeFrames memoryMap ↔ ∃ r ∈ memoryMap, r.isUsable ∧ f ∈ r.frames.toList := by
  simp [wholeFrames, and_assoc]

end Region

namespace FramePool

/-- The frames of a list that a pool can keep: those whose alias is not null. -/
def listable (map : DirectMap) (fs : List Frame) : List Frame :=
  fs.filter fun f => !(map.aliasOf f).isNull

@[simp] theorem mem_listable {map : DirectMap} {fs : List Frame} {f : Frame} :
    f ∈ listable map fs ↔ f ∈ fs ∧ map.aliasOf f ≠ .null := by
  simp [listable, ← Address.isNull_iff]

theorem listable_append (map : DirectMap) (fs gs : List Frame) :
    listable map (fs ++ gs) = listable map fs ++ listable map gs := List.filter_append ..

theorem listable_reverse (map : DirectMap) (fs : List Frame) :
    listable map fs.reverse = (listable map fs).reverse := List.filter_reverse

theorem listable_cons_of_null {map : DirectMap} {f : Frame} (fs : List Frame)
    (h : map.aliasOf f = .null) : listable map (f :: fs) = listable map fs := by
  rw [← Address.isNull_iff] at h
  simp [listable, h]

theorem listable_cons_of_ne_null {map : DirectMap} {f : Frame} (fs : List Frame)
    (h : map.aliasOf f ≠ .null) : listable map (f :: fs) = f :: listable map fs := by
  rw [← Address.isNull_eq_false_iff] at h
  simp [listable, h]

theorem length_listable_le (map : DirectMap) (fs : List Frame) :
    (listable map fs).length ≤ fs.length := List.length_filter_le ..

/-- Summing up touches the log only; the sum is a fault if it is written and the bytes of that many
frames are more than a word can count. -/
theorem reportAdded_ends (n : Nat) (s : Store FramePool) :
    Ends (reportAdded n) s (fun _ t => ∃ log, t = { s with log })
      (fun f t => f = .mulOverflow ∧ t = s ∧ 2 ^ 52 ≤ n) := by
  rw [reportAdded]
  split
  · exact ⟨_, rfl⟩
  · rw [Ends.get_bind_iff]
    split
    · split
      · refine ⟨rfl, rfl, ?_⟩
        rename_i hbig
        rw [frameSize] at hbig
        omega
      · exact ⟨_, rfl⟩
    · exact ⟨s.log, rfl⟩

/-- How a step that adds frames to a pool may end: with a number, the pool holding those frames in
front of the ones from before. -/
def Added (s : Store FramePool) (fs gs : List Frame) (n : Nat) (t : Store FramePool) : Prop :=
  t.frames.map = s.frames.map ∧ t.frames.Holds t.ram (gs ++ fs) ∧ n = gs.length

theorem addFrames_ends {s : Store FramePool} {fs : List Frame} (gs : List Frame)
    (h : s.frames.Holds s.ram fs) (hn : (gs ++ fs).Nodup) :
    Ends (addFrames gs) s
      (fun n t => Added s fs (listable s.frames.map gs).reverse n t ∧
        t.frames.total = s.frames.total) (fun _ _ => False) := by
  induction gs generalizing s fs with
  | nil => exact ⟨⟨rfl, h, rfl⟩, rfl⟩
  | cons g gs ih =>
    obtain ⟨hg, hgs⟩ := List.nodup_cons.mp hn
    have hfs : g ∉ fs := fun hf => hg (List.mem_append_right gs hf)
    rw [addFrames]
    by_cases hnull : s.frames.map.aliasOf g = .null
    -- such a frame could not be told from the end of the list, so it is left out
    · refine Ends.bind_of_ok (push_of_null hnull) ?_
      rw [listable_cons_of_null gs hnull]
      exact ih h hgs
    · obtain ⟨pool, hpush, hmap, htotal, hpool⟩ := push_of_ne_null h hnull hfs
      refine Ends.bind_of_ok hpush ?_
      have hmove : (gs ++ g :: fs).Nodup := by
        rw [List.nodup_middle]
        exact List.nodup_cons.mpr ⟨hg, hgs⟩
      refine Ends.bind (ih hpool hmove) ?_
      rintro n t ⟨⟨hmap', hpool', hn'⟩, htotal'⟩
      simp only [hmap] at hmap' hpool' hn'
      rw [Ends.pure_iff, listable_cons_of_ne_null gs hnull]
      exact ⟨⟨hmap', by simpa using hpool', by simp [hn']⟩, htotal'.trans htotal⟩

/-- Regions are gone through from the last to the first, so the list has them in their order. -/
theorem addRegions_ends {s : Store FramePool} {fs : List Frame} (rs : List Region)
    (h : s.frames.Holds s.ram fs)
    (hn : ((rs.reverse.flatMap fun r => r.frames.toList) ++ fs).Nodup) :
    Ends (addRegions rs) s
      (fun n t => Added s fs
          (listable s.frames.map (rs.reverse.flatMap fun r => r.frames.toList)) n t ∧
        t.frames.total = s.frames.total) (fun _ _ => False) := by
  induction rs generalizing s fs with
  | nil => exact ⟨⟨rfl, h, rfl⟩, rfl⟩
  | cons r rs ih =>
    simp only [List.reverse_cons, List.flatMap_append, List.flatMap_cons, List.flatMap_nil,
      List.append_nil, List.append_assoc] at hn ⊢
    have hr : (r.frames.toList.reverse ++ fs).Nodup :=
      ((List.reverse_perm _).append_right fs).nodup_iff.mpr hn.of_append_right
    rw [addRegions]
    refine Ends.bind (addFrames_ends _ h hr) ?_
    rintro n t ⟨⟨hmap, hpool, rfl⟩, htotal⟩
    -- frames are pushed from the last to the first, which turns them around once more
    rw [listable_reverse, List.reverse_reverse] at hpool ⊢
    have hrest : ((rs.reverse.flatMap fun r => r.frames.toList) ++
        (listable s.frames.map r.frames.toList ++ fs)).Nodup := by
      refine hn.sublist ?_
      exact (List.Sublist.refl _).append (List.filter_sublist.append (List.Sublist.refl fs))
    rw [Ends.logLine_bind_iff]
    refine Ends.bind (ih hpool hrest) ?_
    rintro k u ⟨⟨hmap', hpool', rfl⟩, htotal'⟩
    simp only [hmap] at hmap' hpool' ⊢
    rw [Ends.pure_iff, listable_append]
    refine ⟨⟨hmap', by simpa using hpool', ?_⟩, htotal'.trans htotal⟩
    rw [List.length_append]
    omega

/-- Adding a memory map puts its whole usable frames in front of the list, in the order of the map,
and counts them. -/
theorem addMemoryMap_ends {s : Store FramePool} {fs : List Frame} (memoryMap : List Region)
    (h : s.frames.Holds s.ram fs) (hn : (Region.wholeFrames memoryMap ++ fs).Nodup) :
    Ends (addMemoryMap memoryMap) s
      (fun n t => Added s fs (listable s.frames.map (Region.wholeFrames memoryMap)) n t ∧
        t.frames.total = s.frames.total + n) (fun _ _ => False) := by
  have hwhole : Region.wholeFrames memoryMap =
      (memoryMap.reverse.filter Region.isUsable).reverse.flatMap fun r => r.frames.toList := by
    rw [Region.wholeFrames, List.filter_reverse, List.reverse_reverse]
  have hlen := Region.length_wholeFrames_lt hn.of_append_left
  rw [hwhole] at hn hlen ⊢
  rw [addMemoryMap]
  refine Ends.bind (addRegions_ends _ h hn) ?_
  rintro n t ⟨⟨hmap, hpool, hcount⟩, htotal⟩
  rw [Ends.modify_bind_iff]
  refine Ends.bind ((reportAdded_ends n _).mono (fun _ _ h => h) ?_) ?_
  · rintro f u ⟨-, -, hbig⟩
    have hle := (length_listable_le s.frames.map _).trans_lt hlen
    omega
  · rintro - u ⟨log, rfl⟩
    rw [Ends.pure_iff]
    exact ⟨⟨hmap, hpool.with_total _, hcount⟩, congrArg (· + n) htotal⟩

/-- Adds memory maps one after the other and tells how many frames each of them had. -/
def addMemoryMaps : List (List Region) → Step (Store FramePool) (List Nat)
  | [] => return []
  | memoryMap :: rest => do
    let n ← addMemoryMap memoryMap
    return n :: (← addMemoryMaps rest)

/-- The frames that a pool holds once memory maps were added to it: the last map comes first. -/
def addedFrames (map : DirectMap) (memoryMaps : List (List Region)) : List Frame :=
  memoryMaps.reverse.flatMap fun memoryMap => listable map (Region.wholeFrames memoryMap)

theorem addedFrames_cons (map : DirectMap) (memoryMap : List Region)
    (rest : List (List Region)) : addedFrames map (memoryMap :: rest) =
      addedFrames map rest ++ listable map (Region.wholeFrames memoryMap) := by
  simp [addedFrames]

theorem mem_addedFrames {map : DirectMap} {memoryMaps : List (List Region)} {f : Frame} :
    f ∈ addedFrames map memoryMaps ↔
      f ∈ Region.wholeFrames memoryMaps.flatten ∧ map.aliasOf f ≠ .null := by
  simp only [addedFrames, List.mem_flatMap, List.mem_reverse, mem_listable,
    Region.mem_wholeFrames, List.mem_flatten]
  constructor
  · rintro ⟨memoryMap, hm, ⟨r, hr, hu, hf⟩, hn⟩
    exact ⟨⟨r, ⟨memoryMap, hm, hr⟩, hu, hf⟩, hn⟩
  · rintro ⟨⟨r, ⟨memoryMap, hm, hr⟩, hu, hf⟩, hn⟩
    exact ⟨memoryMap, hm, ⟨r, hr, hu, hf⟩, hn⟩

theorem length_addedFrames (map : DirectMap) (memoryMaps : List (List Region)) :
    (addedFrames map memoryMaps).length =
      (memoryMaps.map fun memoryMap => (listable map (Region.wholeFrames memoryMap)).length).sum := by
  rw [addedFrames, List.length_flatMap, List.map_reverse, List.sum_reverse]

theorem addMemoryMaps_ends {s : Store FramePool} {fs : List Frame} (maps : List (List Region))
    (h : s.frames.Holds s.ram fs) (hn : (Region.wholeFrames maps.flatten ++ fs).Nodup) :
    Ends (addMemoryMaps maps) s
      (fun ns t => t.frames.map = s.frames.map ∧
        t.frames.Holds t.ram (addedFrames s.frames.map maps ++ fs) ∧
        t.frames.total = s.frames.total + ns.sum ∧
        ns = maps.map fun memoryMap =>
          (listable s.frames.map (Region.wholeFrames memoryMap)).length) (fun _ _ => False) := by
  induction maps generalizing s fs with
  | nil => exact ⟨rfl, h, rfl, rfl⟩
  | cons memoryMap rest ih =>
    have hsplit : Region.wholeFrames (memoryMap :: rest).flatten =
        Region.wholeFrames memoryMap ++ Region.wholeFrames rest.flatten := by
      simp [Region.wholeFrames]
    -- what the first map adds is behind the frames of the maps after it
    rw [hsplit, List.append_assoc] at hn
    have hfirst : (Region.wholeFrames memoryMap ++ fs).Nodup :=
      hn.sublist ((List.Sublist.refl _).append (List.sublist_append_right _ fs))
    rw [addMemoryMaps]
    refine Ends.bind (addMemoryMap_ends memoryMap h hfirst) ?_
    rintro n t ⟨⟨hmap, hpool, hcount⟩, htotal⟩
    have hrest : (Region.wholeFrames rest.flatten ++
        (listable s.frames.map (Region.wholeFrames memoryMap) ++ fs)).Nodup := by
      have hperm := List.perm_append_comm_assoc (Region.wholeFrames memoryMap)
        (Region.wholeFrames rest.flatten) fs
      refine (hperm.nodup_iff.mp hn).sublist ?_
      exact (List.Sublist.refl _).append (List.filter_sublist.append (List.Sublist.refl fs))
    refine Ends.bind (ih hpool hrest) ?_
    rintro ns u ⟨hmap', hpool', htotal', hcounts⟩
    rw [hmap] at hmap' hpool' hcounts
    rw [Ends.pure_iff, addedFrames_cons]
    refine ⟨hmap', by simpa using hpool', ?_, ?_⟩
    · rw [htotal', htotal, List.sum_cons, Nat.add_assoc]
    · rw [List.map_cons, hcounts, hcount]

/-- An empty pool that memory maps are added to has their frames, whatever is in memory. -/
theorem addMemoryMaps_empty (map : DirectMap) (m : Ram) (log : Log) {maps : List (List Region)}
    (hn : (Region.wholeFrames maps.flatten).Nodup) :
    ∃ counts s, addMemoryMaps maps ⟨m, .empty map, log⟩ = .ok counts s ∧ s.frames.map = map ∧
      s.frames.Holds s.ram (addedFrames map maps) ∧ s.frames.free = counts.sum := by
  have hfill := addMemoryMaps_ends (s := ⟨m, .empty map, log⟩) maps (holds_empty map m)
    (by simpa using hn)
  obtain ⟨counts, s, hs, hmap, hpool, -, hcounts⟩ := hfill.exists_ok
  rw [List.append_nil] at hpool
  refine ⟨counts, s, hs, hmap, hpool, ?_⟩
  rw [hpool.free, hcounts]
  exact length_addedFrames map maps

end FramePool

end PagedMemory
