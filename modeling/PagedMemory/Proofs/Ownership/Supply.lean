import PagedMemory.Proofs.Ownership.Agreement
import PagedMemory.Proofs.Ownership.Partition
/-!
# Memory maps that come late

A memory map may be added to a pool of which frames are in use already. Its usable frames are new to
the stock: they go on the free list, and what was handed out before is not touched. Two systems that
look alike count the same frames and look alike afterwards.
-/
namespace PagedMemory

open FramePool

namespace Region

theorem wholeFrames_append (rs rs' : List Region) :
    wholeFrames (rs ++ rs') = wholeFrames rs ++ wholeFrames rs' := by
  simp [wholeFrames]

end Region

namespace FramePool

theorem addedFrames_concat (map : DirectMap) (memoryMaps : List (List Region))
    (memoryMap : List Region) : addedFrames map (memoryMaps ++ [memoryMap]) =
      listable map (Region.wholeFrames memoryMap) ++ addedFrames map memoryMaps := by
  simp [addedFrames]

/-- The frames of disjoint memory maps are added once. -/
theorem nodup_addedFrames {map : DirectMap} {memoryMaps : List (List Region)}
    (hn : (Region.wholeFrames memoryMaps.flatten).Nodup) : (addedFrames map memoryMaps).Nodup := by
  obtain ⟨counts, s, -, -, hpool, -⟩ := addMemoryMaps_empty map (.uniform 0) (.empty none) hn
  exact hpool.nodup

end FramePool

namespace Ledger

/-- The ledger after a memory map was added to the pool. -/
def supply (l : Ledger) (memoryMap : List Region) : Ledger :=
  { l with system := (outcome (System.onStore (addMemoryMap memoryMap)) l.system).2 }

variable {map : DirectMap} {total : Nat} {all fs : List Frame} {l l' : Ledger}
variable {free live aside : List Run} {memoryMaps : List (List Region)} {memoryMap : List Region}

/-- Frames that are new to the stock go on the free list; memory in the old ones is as it was. -/
theorem Balanced.supplied (h : Balanced map total all l fs free live aside) {added : List Frame}
    (stock : Stock map (added ++ all)) {t : Store FramePool} (hmap : t.frames.map = map)
    (hpool : t.frames.Holds t.ram (added ++ fs))
    (hm : l.system.ram.OnlyChanges (fun a => map.frameAt a ∉ all) t.ram) :
    Balanced map t.frames.total (added ++ all) { l with system := l.system.setStore t }
      (added ++ fs) free live aside := by
  have hstore := h.shared.store_setStore t
  have hcarved : Carved map t.ram l.system.heap.list free live aside l.arena := by
    refine h.carved.congr hm fun b hb a ha hnew => hnew ?_
    exact h.mem_all (.inr (.inr (.inr (h.header_mem_arena hb ha))))
  have hforest : PageTree.Forest map t.ram l.roots l.tables :=
    h.forest_congr hm fun a hnew ha => hnew (h.mem_all (.inr (.inr (.inl ha))))
  refine .of_carved stock (h.shared.setStore t) ?_ ?_ ?_ hcarved h.payloads hforest ?_ h.bytes ?_
  · exact (congrArg (fun s => s.frames.map) hstore).trans hmap
  · exact congrArg (fun s => s.frames.total) hstore
  · change (l.system.setStore t).store.frames.Holds t.ram _
    rwa [hstore]
  · simpa using h.frames.append_left added
  · exact fun hnull => h.aside_eq fun hmem => hnull (List.mem_append_right added hmem)

/-- New frames are neither tables nor do blocks lie in them. -/
theorem Balanced.views_supplied (h : Balanced map total all l fs free live aside)
    {all' fs' : List Frame} {total' : Nat} {t : Store FramePool}
    (h' : Balanced map total' all' { l with system := l.system.setStore t } fs' free live aside)
    (hm : l.system.ram.OnlyChanges (fun a => map.frameAt a ∉ all) t.ram) :
    ({ l with system := l.system.setStore t } : Ledger).treesView = l.treesView ∧
      ({ l with system := l.system.setStore t } : Ledger).heapView = l.heapView := by
  constructor
  · have htables : tablesIn map t.ram l.tables = tablesIn map l.system.ram l.tables := by
      refine tablesIn_congr fun f hf => ?_
      refine PageTree.entryAt_congr hm fun a hnew ha => hnew (h.mem_all (.inr (.inr (.inl ?_))))
      exact ha ▸ hf
    rw [treesView, treesView, h'.map_eq, h.map_eq]
    exact congrArg (TreesView.mk _ _) htables
  · exact h.heapView_eq_of_carved rfl rfl rfl h'.carved

/-- The usable frames of a disjoint memory map are not in the stock yet. -/
theorem notMem_addedFrames (hn : (Region.wholeFrames (memoryMaps ++ [memoryMap]).flatten).Nodup)
    {f : Frame} (hf : f ∈ Region.wholeFrames memoryMap) : f ∉ addedFrames map memoryMaps := by
  rw [List.flatten_concat, Region.wholeFrames_append] at hn
  exact fun hmem => List.disjoint_of_nodup_append hn (mem_addedFrames.mp hmem).1 hf

theorem Balanced.nodup_wholeFrames_append
    (h : Balanced map total (addedFrames map memoryMaps) l fs free live aside)
    (hn : (Region.wholeFrames (memoryMaps ++ [memoryMap]).flatten).Nodup) :
    (Region.wholeFrames memoryMap ++ fs).Nodup := by
  refine List.nodup_append.mpr ⟨?_, h.pool.nodup, ?_⟩
  · rw [List.flatten_concat, Region.wholeFrames_append] at hn
    exact hn.of_append_right
  · rintro f hf g hg rfl
    exact notMem_addedFrames hn hf (h.mem_all (.inl hg))

/-- A memory map that is new to a system goes to its pool and leaves all else as it was. -/
theorem Sound.supply
    (h : Sound map (addedFrames map memoryMaps).length (addedFrames map memoryMaps) l)
    (hn : (Region.wholeFrames (memoryMaps ++ [memoryMap]).flatten).Nodup) :
    Sound map (addedFrames map (memoryMaps ++ [memoryMap])).length
        (addedFrames map (memoryMaps ++ [memoryMap])) (l.supply memoryMap) ∧
      (l.supply memoryMap).treesView = l.treesView ∧
      (l.supply memoryMap).heapView = l.heapView := by
  obtain ⟨fs, free, live, aside, h⟩ := h
  have hfresh := h.nodup_wholeFrames_append hn
  refine Ends.outcome (p := fun r => Sound map _ _ { l with system := r.2 } ∧
    ({ l with system := r.2 } : Ledger).treesView = l.treesView ∧
    ({ l with system := r.2 } : Ledger).heapView = l.heapView) (Ends.onPart ?_)
  refine ((addMemoryMap_ends memoryMap h.pool hfresh).and
    (addMemoryMap_touches memoryMap l.system.store)).mono ?_ fun _ _ hf => hf.1.elim
  rintro n t ⟨⟨⟨hmap, hpool, hcount⟩, htotal⟩, -, hm⟩
  rw [h.map_eq] at hmap hpool hcount hm
  have hstock : Stock map _ := stock_addedFrames (nodup_addedFrames hn)
  rw [addedFrames_concat] at hstock ⊢
  have hm' : l.system.ram.OnlyChanges (fun a => map.frameAt a ∉ addedFrames map memoryMaps) t.ram :=
    hm.mono fun a ha => notMem_addedFrames hn ha
  have hsupplied := h.supplied hstock hmap hpool hm'
  have htotal' : t.frames.total = (listable map (Region.wholeFrames memoryMap) ++
      addedFrames map memoryMaps).length := by
    rw [htotal, h.total_eq, hcount, List.length_append, Nat.add_comm]
  refine ⟨?_, h.views_supplied hsupplied hm'⟩
  rw [← htotal']
  exact ⟨_, free, live, aside, hsupplied⟩

namespace Alike

/-- A new memory map counts the same in both systems, and they look alike with it. -/
theorem supply
    (h : Alike map (addedFrames map memoryMaps).length (addedFrames map memoryMaps) l l')
    (hn : (Region.wholeFrames (memoryMaps ++ [memoryMap]).flatten).Nodup) :
    (ending (System.onStore (addMemoryMap memoryMap)) l'.system).1 =
        (ending (System.onStore (addMemoryMap memoryMap)) l.system).1 ∧
      Alike map (addedFrames map (memoryMaps ++ [memoryMap])).length
        (addedFrames map (memoryMaps ++ [memoryMap])) (l.supply memoryMap)
        (l'.supply memoryMap) := by
  obtain ⟨fs, free, live, ⟨aside, hl⟩, -⟩ := h.balanced
  have hfresh : (Region.wholeFrames memoryMap ++ l.free).Nodup := by
    rw [hl.free_eq]
    exact hl.nodup_wholeFrames_append hn
  have hagree := h.onStore ((h.stores.addMemoryMap hfresh).mono (fun _ _ _ ht => ht)
    fun _ _ _ => False.elim)
  have hpool : (l'.supply memoryMap).poolView = (l.supply memoryMap).poolView :=
    Agree.outcome (p := fun r r' => ({ l' with system := r'.2 } : Ledger).poolView =
      ({ l with system := r.2 } : Ledger).poolView)
      (hagree.mono (fun _ _ _ ht => poolView_eq ht h.held_eq) fun _ _ _ ht =>
        poolView_eq ht h.held_eq)
  obtain ⟨hleft, htrees, hheap⟩ := h.left.supply hn
  obtain ⟨hright, htrees', hheap'⟩ := h.right.supply hn
  refine ⟨hagree.ending_eq, hleft, hright, ?_⟩
  rw [Ledger.view, Ledger.view, hpool, htrees, hheap, htrees', hheap']
  exact congrArg (fun v => View.mk _ v.trees v.heap) h.view

end Alike

end Ledger

end PagedMemory
