import PagedMemory.Proofs.Frame.Agreement
import PagedMemory.Proofs.Paging.Trees
/-!
# Trees that agree

Page tables are read entry by entry, and a table is cleared before it is linked. So two pools that
handed out the same frames for tables, and whose tables have the same entries, go on doing so: all
that is read on the way of an address is an entry of such a table or a link of the pool.
-/
namespace PagedMemory

open PageTree

namespace FramePool

variable {map : DirectMap} {total : Nat} {before fs out out' : List Frame} {m m' : Ram}
  {s s' t : Store FramePool} {f : Frame}

/-- What is out is known from what the pool still keeps. -/
theorem Supplies.out_unique (h : Supplies map total before fs m s out)
    (h' : Supplies map total before fs m' s out') : out = out' := by
  obtain ⟨taken, rest, rfl, rfl, hrest⟩ := h.taken
  obtain ⟨taken', rest', hsplit, rfl, hrest'⟩ := h'.taken
  have hsame : rest = rest' := hrest.freeFrames_eq.symm.trans hrest'.freeFrames_eq
  rw [← hsame] at hsplit
  rw [List.append_cancel_right hsplit]

/-- And what the pool still keeps from what is out. -/
theorem Supplies.rest_unique (h : Supplies map total before fs m s out)
    (h' : Supplies map total before fs m' s' out) :
    ∃ rest, s.frames.Holds s.ram rest ∧ s'.frames.Holds s'.ram rest := by
  obtain ⟨taken, rest, rfl, rfl, hrest⟩ := h.taken
  obtain ⟨taken', rest', hsplit, hout, hrest'⟩ := h'.taken
  rw [← List.reverse_injective (List.append_cancel_right hout)] at hsplit
  rw [← List.append_cancel_left hsplit] at hrest'
  exact ⟨rest, hrest, hrest'⟩

/-- Two pools that handed out the same frames, to be tables with the same entries. -/
structure Twins (map : DirectMap) (total : Nat) (before fs : List Frame) (m m' : Ram)
    (s s' : Store FramePool) (out : List Frame) : Prop where
  left : Supplies map total before fs m s out
  right : Supplies map total before fs m' s' out
  entries : ∀ f ∈ out, ∀ i, entryAt map s'.ram f i = entryAt map s.ram f i

namespace Twins

theorem pools (h : Twins map total before fs m m' s s' out) : Alike s s' := by
  obtain ⟨rest, hrest, hrest'⟩ := h.left.rest_unique h.right
  exact .of_holds hrest hrest' (h.right.map_eq.trans h.left.map_eq.symm)
    (h.right.total_eq.trans h.left.total_eq.symm)

theorem log (h : Twins map total before fs m m' s s' out) (log log' : Log) :
    Twins map total before fs m m' { s with log } { s' with log := log' } out :=
  ⟨⟨h.left.map_eq, h.left.total_eq, h.left.taken, h.left.ram⟩,
    ⟨h.right.map_eq, h.right.total_eq, h.right.taken, h.right.ram⟩, h.entries⟩

theorem clearTable (h : Twins map total before fs m m' s s' out) (hn : (before ++ fs).Nodup)
    (hf : f ∈ out) :
    Twins map total before fs m m' { s with ram := s.ram.clearTable (map.aliasOf f) }
      { s' with ram := s'.ram.clearTable (map.aliasOf f) } out := by
  refine ⟨ok_clearTable (w := .whole map) (honest_supplies hn) h.left hf,
    ok_clearTable (w := .whole map) (honest_supplies hn) h.right hf, ?_⟩
  intro g hg i
  by_cases hgf : g = f
  · rw [hgf]
    exact (entryAt_clearTable _ _ _).trans (entryAt_clearTable _ _ _).symm
  · have hother : ∀ r : Ram,
        entryAt map (r.clearTable (map.aliasOf f)) g i = entryAt map r g i := fun r =>
      entryAt_congr (onlyChanges_clearTable r f) (fun a ha he => hgf (he.symm.trans ha)) i
    exact (hother _).trans ((h.entries g hg i).trans (hother _).symm)

theorem setEntry (h : Twins map total before fs m m' s s' out) (hn : (before ++ fs).Nodup)
    (hf : f ∈ out) (i : TableIndex) (e : Entry) :
    Twins map total before fs m m' { s with ram := s.ram.setEntry (map.aliasOf f) i e }
      { s' with ram := s'.ram.setEntry (map.aliasOf f) i e } out := by
  refine ⟨ok_setEntry (w := .whole map) (honest_supplies hn) h.left hf i e,
    ok_setEntry (w := .whole map) (honest_supplies hn) h.right hf i e, ?_⟩
  intro g hg j
  by_cases hgj : (g, j) = (f, i)
  · cases hgj
    exact (entryAt_setEntry _ _ _ _).trans (entryAt_setEntry _ _ _ _).symm
  · exact (entryAt_setEntry_of_ne _ e hgj).trans
      ((h.entries g hg j).trans (entryAt_setEntry_of_ne _ e hgj).symm)

/-- The frame that is handed out is the same, and in both memories it is full of zeros now. -/
theorem take (h : Twins map total before fs m m' s s' out) (hn : (before ++ fs).Nodup) :
    Agree (take? s) (take? s')
      (fun found t t' => Twins map total before fs m m' t t' (found.toList ++ out))
      (fun _ _ _ => False) := by
  obtain ⟨rest, hrest, hrest'⟩ := h.pools.lists
  cases rest with
  | nil => exact .of_ok (take?_of_nil hrest) (take?_of_nil hrest') h
  | cons f rest =>
    obtain ⟨pool, htake, -⟩ := take?_of_cons hrest
    obtain ⟨pool', htake', -⟩ := take?_of_cons hrest'
    rw [h.left.map_eq] at htake
    rw [h.right.map_eq] at htake'
    refine .of_ok htake htake' ?_
    obtain ⟨hm, -, ht⟩ := ((honest_supplies hn).take h.left).of_ok htake
    obtain ⟨hm', -, ht'⟩ := ((honest_supplies hn).take h.right).of_ok htake'
    refine ⟨ht, ht', ?_⟩
    intro g hg i
    rcases List.mem_cons.mp hg with rfl | hg
    · exact (entryAt_clearTable s'.ram _ _).trans (entryAt_clearTable s.ram _ _).symm
    · have hout : ∀ {r r' : Ram}, r.OnlyChanges (fun a => map.frameAt a ∉ out) r' →
          entryAt map r' g i = entryAt map r g i := fun hm =>
        entryAt_congr hm (fun a ha he => ha (he ▸ hg)) i
      exact (hout hm').trans ((h.entries g hg i).trans (hout hm).symm)

end Twins

end FramePool

namespace PageTree

open FramePool

variable {map : DirectMap} {total : Nat} {before fs out roots : List Frame} {m m' : Ram}
  {s s' : Store FramePool} {space : AddressSpace}

/-- Some frames are out, and the pools are twins. -/
def Paired (map : DirectMap) (total : Nat) (before fs : List Frame) (m m' : Ram)
    (s s' : Store FramePool) : Prop := ∃ out, Twins map total before fs m m' s s' out

/-- An entry of a table in use is followed to the same table. -/
theorem nextTable_agree (h : Twins map total before fs m m' s s' out) (hn : (before ++ fs).Nodup)
    (hw : space.window = .whole map) {parent : Frame} (hparent : parent ∈ out) (i : TableIndex)
    (level : TableLevel) :
    Agree (space.nextTable parent i level s) (space.nextTable parent i level s')
      (fun _ => Paired map total before fs m m') (fun _ => Paired map total before fs m m') := by
  have hentry : s'.ram.entry (map.aliasOf parent) i = s.ram.entry (map.aliasOf parent) i :=
    h.entries parent hparent i
  rw [AddressSpace.nextTable, hw]
  simp only [Window.table_whole, Agree.check_ok_bind_iff, Agree.get_bind_iff, hentry]
  by_cases htable : (s.ram.entry (map.aliasOf parent) i).isTable = true
  · simp only [if_pos htable, Agree.pure_iff]
    exact ⟨out, h⟩
  · simp only [if_neg htable]
    refine Agree.bind (Agree.ofStep ((h.take hn).mono (fun _ _ _ ht => ht)
      fun _ _ _ => False.elim)) ?_
    rintro (_ | g) t t' ht
    · exact ⟨rfl, out, ht⟩
    · have hg : g ∈ g :: out := List.mem_cons_self
      have hcleared := ht.clearTable hn hg
      simp only [Agree.check_ok_bind_iff, Agree.updateRam_bind_iff]
      cases Entry.table g with
      | error e =>
        rw [Agree.check_error_bind_iff]
        exact ⟨_, hcleared⟩
      | ok link =>
        simp only [Agree.check_ok_bind_iff, Agree.updateRam_bind_iff, Agree.logLine_bind_iff,
          Agree.pure_iff]
        exact ⟨_, (hcleared.setEntry hn (List.mem_cons_of_mem g hparent) i link).log _ _⟩

/-- And the way to it goes on from there. -/
theorem nextTable_follows (hs : Stands (Supplies map total before fs m) map roots s out)
    (h : Twins map total before fs m m' s s' out) (hn : (before ++ fs).Nodup)
    (hw : space.window = .whole map) {r parent : Frame} {p : List TableIndex} (i : TableIndex)
    (level : TableLevel) (hr : r ∈ roots) (hp : p.length ≤ 2)
    (hwalk : walk map s.ram r p = some parent) :
    Agree (space.nextTable parent i level s) (space.nextTable parent i level s')
      (fun f t t' => ∃ out', Stands (Supplies map total before fs m) map roots t out' ∧
        Twins map total before fs m m' t t' out' ∧ walk map t.ram r (p ++ [i]) = some f)
      (fun _ => Paired map total before fs m m') := by
  have hparent : parent ∈ out := hs.forest.owned hr (Nat.le_succ_of_le hp) hwalk
  obtain ⟨window, root⟩ := space
  cases hw
  have hends : Ends (AddressSpace.nextTable ⟨.whole map, root⟩ parent i level) s _ _ :=
    nextTable_ends (honest_supplies hn) hs i level hr hp hwalk
  refine ((nextTable_agree h hn rfl hparent i level).with_ends hends).mono ?_ fun _ _ _ ht => ht.1
  rintro f t t' ⟨⟨out', ht⟩, out'', hs', -, hwalk', -⟩
  cases hs'.ok.out_unique ht.left
  exact ⟨_, hs', ht, hwalk'⟩

/-- A page is mapped through the same tables, by the same entry. -/
theorem mapPage_agree (hs : Stands (Supplies map total before fs m) map roots s out)
    (h : Twins map total before fs m m' s s' out) (hn : (before ++ fs).Nodup)
    (hw : space.window = .whole map) (hroot : space.root ∈ roots) (va : VirtualAddress)
    (pa : PhysicalAddress) (size : PageSize) :
    Agree (space.mapPage va pa size s) (space.mapPage va pa size s')
      (fun _ => Paired map total before fs m m') (fun _ => Paired map total before fs m m') := by
  rw [AddressSpace.mapPage]
  refine Agree.bind (nextTable_follows hs h hn hw (p := []) _ .pml3 hroot (Nat.zero_le 2) rfl) ?_
  rintro pml3 s3 s3' ⟨out3, hs3, h3, hwalk3⟩
  refine Agree.bind (nextTable_follows hs3 h3 hn hw (p := [_]) _ .pml2 hroot (Nat.le_succ 1)
    hwalk3) ?_
  rintro pml2 s2 s2' ⟨out2, hs2, h2, hwalk2⟩
  change walk map s2.ram space.root (pathToPml2 va) = some pml2 at hwalk2
  cases size with
  | large =>
    have hmem : pml2 ∈ out2 := hs2.forest.owned (p := pathToPml2 va) hroot (Nat.le_succ 2) hwalk2
    simp only [hw, Window.table_whole, Agree.check_ok_bind_iff]
    cases Entry.largeLeaf (.containing pa) with
    | error e =>
      rw [Agree.check_error_bind_iff]
      exact ⟨_, h2⟩
    | ok e =>
      rw [Agree.check_ok_bind_iff, Agree.updateRam_iff]
      exact ⟨_, h2.setEntry hn hmem _ e⟩
  | small =>
    refine Agree.bind (nextTable_follows hs2 h2 hn hw (p := pathToPml2 va) _ .pml1 hroot
      (Nat.le_refl 2) hwalk2) ?_
    rintro pml1 s1 s1' ⟨out1, hs1, h1, hwalk1⟩
    change walk map s1.ram space.root (pathToPml1 va) = some pml1 at hwalk1
    have hmem : pml1 ∈ out1 := hs1.forest.owned (p := pathToPml1 va) hroot (Nat.le_refl 3) hwalk1
    simp only [hw, Window.table_whole, Agree.check_ok_bind_iff]
    cases Entry.leaf (.containing pa) with
    | error e =>
      rw [Agree.check_error_bind_iff]
      exact ⟨_, h1⟩
    | ok e =>
      rw [Agree.check_ok_bind_iff, Agree.updateRam_iff]
      exact ⟨_, h1.setEntry hn hmem _ e⟩

/-- A new tree has the same root. -/
theorem create_agree (h : Twins map total before fs m m' s s' out) (hn : (before ++ fs).Nodup) :
    Agree (AddressSpace.create (.whole map) s) (AddressSpace.create (.whole map) s')
      (fun _ => Paired map total before fs m m') (fun _ => Paired map total before fs m m') := by
  rw [AddressSpace.create]
  refine Agree.bind (Agree.ofStep ((h.take hn).mono (fun _ _ _ ht => ht)
    fun _ _ _ => False.elim)) ?_
  rintro (_ | g) t t' ht
  · exact ⟨rfl, out, ht⟩
  · simp only [Window.table_whole, Agree.check_ok_bind_iff, Agree.updateRam_bind_iff,
      Agree.logLine_bind_iff, Agree.pure_iff]
    exact ⟨_, (ht.clearTable hn List.mem_cons_self).log _ _⟩

end PageTree

namespace Paging

variable {map : DirectMap} {total : Nat} {before fs roots : List Frame} {m m' : Ram}
  {s s' : PagingStore} {space : AddressSpace}

/-- Two stores with the same kernel map that handed out the same frames, to be tables with the same
entries. -/
structure Matched (map : DirectMap) (total : Nat) (before fs : List Frame) (m m' : Ram)
    (s s' : PagingStore) : Prop where
  kernelMap : s'.kernelMap = s.kernelMap
  paired : PageTree.Paired map total before fs m m' s.store s'.store

/-- And with trees that are made of these tables. -/
structure Alike (map : DirectMap) (total : Nat) (before fs : List Frame) (m m' : Ram)
    (roots : List Frame) (s s' : PagingStore) : Prop extends
    Matched map total before fs m m' s s' where
  rooted : Rooted map total before fs m roots s

namespace Alike

theorem mono (h : Alike map total before fs m m' roots s s') {roots' : List Frame}
    (hr : roots' ⊆ roots) : Alike map total before fs m m' roots' s s' :=
  ⟨h.toMatched, h.rooted.mono hr⟩

/-- The frames that make up the trees are those that the pools handed out. -/
theorem exists_twins (h : Alike map total before fs m m' roots s s') :
    ∃ out, Stands (FramePool.Supplies map total before fs m) map roots s.store out ∧
      FramePool.Twins map total before fs m m' s.store s'.store out := by
  obtain ⟨out, hs⟩ := h.rooted
  obtain ⟨out', ht⟩ := h.paired
  cases hs.ok.out_unique ht.left
  exact ⟨out, hs, ht⟩

theorem map_eq (h : Alike map total before fs m m' roots s s') :
    s.store.frames.map = map ∧ s'.store.frames.map = map := by
  obtain ⟨out, -, ht⟩ := h.exists_twins
  exact ⟨ht.left.map_eq, ht.right.map_eq⟩

theorem with_log (h : Alike map total before fs m m' roots s s') (log log' : Log) :
    Alike map total before fs m m' roots { s with store := { s.store with log } }
      { s' with store := { s'.store with log := log' } } := by
  obtain ⟨out, ht⟩ := h.paired
  exact ⟨⟨h.kernelMap, out, ht.log _ _⟩, h.rooted.with_log _ _⟩

theorem with_kernelMap (h : Alike map total before fs m m' roots s s') (kernelMap : KernelMap) :
    Alike map total before fs m m' roots { s with kernelMap } { s' with kernelMap } :=
  ⟨⟨rfl, h.paired⟩, h.rooted.with_log kernelMap s.store.log⟩

theorem leafOf_eq (h : Alike map total before fs m m' roots s s') {r : Frame} (hr : r ∈ roots)
    (x : VirtualAddress) : leafOf map s'.store.ram r x = leafOf map s.store.ram r x := by
  obtain ⟨out, hs, ht⟩ := h.exists_twins
  exact hs.forest.leafOf_congr ht.entries hr x

/-- What is done to the pool leaves the kernel map alone. -/
theorem onStore_agree {α : Type} {f : MapError → PagingError} {x : Op MapError (Store FramePool) α}
    (h : Alike map total before fs m m' roots s s')
    (hx : Agree (x s.store) (x s'.store) (fun _ => PageTree.Paired map total before fs m m')
      (fun _ => PageTree.Paired map total before fs m m')) :
    Agree (Paging.onStore (Op.mapError f x) s) (Paging.onStore (Op.mapError f x) s')
      (fun _ => Matched map total before fs m m') (fun _ => Matched map total before fs m m') := by
  refine Agree.onPart (Agree.mapError (hx.mono ?_ ?_))
  · exact fun _ _ _ hu => ⟨h.kernelMap, hu⟩
  · rintro (_ | _) _ _ hu <;> exact ⟨h.kernelMap, hu⟩

theorem createSpace (h : Alike map total before fs m m' roots s s') (hn : (before ++ fs).Nodup) :
    Agree (Paging.createSpace s) (Paging.createSpace s')
      (fun space t t' => space.window = .whole map ∧
        Alike map total before fs m m' (space.root :: roots) t t')
      (fun _ => Alike map total before fs m m' roots) := by
  obtain ⟨out, -, ht⟩ := h.exists_twins
  have hends := h.rooted.createSpace_ends hn
  rw [Paging.createSpace, Ends.get_bind_iff, h.map_eq.1] at hends
  rw [Paging.createSpace, Agree.get_bind_iff, h.map_eq.1, h.map_eq.2]
  refine ((h.onStore_agree (create_agree ht hn)).with_ends hends).mono ?_ ?_
  · rintro space t t' ⟨hmatched, hw, -, -, hleads⟩
    exact ⟨hw, hmatched, hleads.rooted⟩
  · rintro e t t' ⟨hmatched, hleads⟩
    exact ⟨hmatched, hleads.rooted⟩

theorem mapPage (h : Alike map total before fs m m' roots s s') (hn : (before ++ fs).Nodup)
    (hw : space.window = .whole map) (hroot : space.root ∈ roots) (virt : VirtualAddress)
    (phys : PhysicalAddress) (size : PageSize) :
    Agree (Paging.mapPage space virt phys size s) (Paging.mapPage space virt phys size s')
      (fun _ => Alike map total before fs m m' roots)
      (fun _ => Alike map total before fs m m' roots) := by
  obtain ⟨out, hs, ht⟩ := h.exists_twins
  have hagree := h.onStore_agree (f := .mapping virt phys)
    (mapPage_agree hs ht hn hw hroot virt phys size)
  refine (hagree.with_ends (h.rooted.mapPage_ends hn hw hroot virt phys size)).mono ?_ ?_
  · rintro _ t t' ⟨hmatched, hleads, -⟩
    exact ⟨hmatched, hleads.rooted⟩
  · rintro _ t t' ⟨hmatched, hleads⟩
    exact ⟨hmatched, hleads.rooted⟩

theorem mapFrames (h : Alike map total before fs m m' roots s s') (hn : (before ++ fs).Nodup)
    (hw : space.window = .whole map) (hroot : space.root ∈ roots)
    (virtualOf : PhysicalAddress → VirtualAddress) (gs : List Frame) :
    Agree (Paging.mapFrames space virtualOf gs s) (Paging.mapFrames space virtualOf gs s')
      (fun _ => Alike map total before fs m m' roots)
      (fun _ => Alike map total before fs m m' roots) := by
  induction gs generalizing s s' with
  | nil => exact ⟨rfl, h⟩
  | cons g gs ih =>
    rw [Paging.mapFrames]
    exact Agree.bind (h.mapPage hn hw hroot _ _ _) fun _ _ _ ht => ih ht

theorem mapRegion (h : Alike map total before fs m m' roots s s') (hn : (before ++ fs).Nodup)
    (hw : space.window = .whole map) (hroot : space.root ∈ roots) (image : KernelImage)
    (r : Region) :
    Agree (Paging.mapRegion space image r s) (Paging.mapRegion space image r s')
      (fun _ => Alike map total before fs m m' roots)
      (fun _ => Alike map total before fs m m' roots) := by
  rw [Paging.mapRegion]
  split
  · exact ⟨rfl, h.with_log _ _⟩
  · refine Agree.bind (h.mapFrames hn hw hroot _ _) ?_
    intro _ t t' ht
    exact ⟨rfl, ht.with_log _ _⟩

theorem mapRegions (h : Alike map total before fs m m' roots s s') (hn : (before ++ fs).Nodup)
    (hw : space.window = .whole map) (hroot : space.root ∈ roots) (image : KernelImage)
    (rs : List Region) :
    Agree (Paging.mapRegions space image rs s) (Paging.mapRegions space image rs s')
      (fun _ => Alike map total before fs m m' roots)
      (fun _ => Alike map total before fs m m' roots) := by
  induction rs generalizing s s' with
  | nil => exact ⟨rfl, h⟩
  | cons r rs ih =>
    rw [Paging.mapRegions]
    exact Agree.bind (h.mapRegion hn hw hroot image r) fun _ _ _ ht => ih ht

theorem initPaging (h : Alike map total before fs m m' roots s s') (hn : (before ++ fs).Nodup)
    (memoryMap : List Region) (image : KernelImage) :
    Agree (Paging.initPaging memoryMap image s) (Paging.initPaging memoryMap image s')
      (fun root t t' => t.kernelMap = .built root ∧
        Alike map total before fs m m' (root :: roots) t t')
      (fun _ => Alike map total before fs m m' roots) := by
  rw [Paging.initPaging, Agree.get_bind_iff, h.kernelMap]
  cases hkernel : s.kernelMap.root?.isSome with
  | true =>
    simp only [if_true, Agree.fail_bind_iff]
    exact h
  | false =>
    simp only [Bool.false_eq_true, if_false]
    refine Agree.bind (h.createSpace hn) ?_
    rintro space t t' ⟨hw, ht⟩
    refine Agree.bind ((ht.mapRegions hn hw List.mem_cons_self image memoryMap).mono
      (fun _ _ _ hu => hu) fun _ _ _ hu => hu.mono (List.subset_cons_self _ _)) ?_
    intro _ u u' hu
    exact ⟨rfl, rfl, (hu.with_kernelMap (.built space.root)).with_log _ _⟩

theorem createTable (h : Alike map total before fs m m' roots s s') (hn : (before ++ fs).Nodup) :
    Agree (Paging.createTable s) (Paging.createTable s')
      (fun tree => Alike map total before fs m m' (tree.root :: roots))
      (fun _ => Alike map total before fs m m' roots) := by
  rw [Paging.createTable]
  exact Agree.bind (h.createSpace hn) fun _ _ _ ht => ⟨rfl, ht.2⟩

/-- The tree that a request is about. -/
theorem targetRoot_eq (h : Alike map total before fs m m' roots s s') (target : Option PageMap) :
    targetRoot? s' target = targetRoot? s target := by
  cases target with
  | none => exact congrArg KernelMap.root? h.kernelMap
  | some tree => rfl

theorem memoryMap (h : Alike map total before fs m m' roots s s') (hn : (before ++ fs).Nodup)
    {target : Option PageMap} (htarget : ∀ root ∈ targetRoot? s target, root ∈ roots)
    (virt : VirtualAddress) (phys : PhysicalAddress) (size : PageSize) :
    Agree (Paging.memoryMap target virt phys size s) (Paging.memoryMap target virt phys size s')
      (fun _ => Alike map total before fs m m' roots)
      (fun _ => Alike map total before fs m m' roots) := by
  obtain ⟨hmap, hmap'⟩ := h.map_eq
  rw [Paging.memoryMap, Agree.get_bind_iff, h.targetRoot_eq]
  cases hroot : targetRoot? s target with
  | none => exact ⟨rfl, h⟩
  | some root =>
    have hspace : space s' root = space s root := by rw [space, space, hmap, hmap']
    simp only [hspace]
    exact h.mapPage hn (by rw [space, hmap]) (htarget root hroot) virt phys size

theorem loadKernelMap (h : Alike map total before fs m m' roots s s') :
    Agree (Paging.loadKernelMap s) (Paging.loadKernelMap s')
      (fun _ => Alike map total before fs m m' roots)
      (fun _ => Alike map total before fs m m' roots) := by
  rw [Paging.loadKernelMap, Agree.get_bind_iff, h.kernelMap]
  cases s.kernelMap.root? with
  | none => exact ⟨rfl, h⟩
  | some root =>
    dsimp only
    cases Cr3.ofRoot root with
    | error f => exact ⟨rfl, h⟩
    | ok value => exact ⟨rfl, (h.with_kernelMap (.active root)).with_log _ _⟩

/-- An address is looked up in tables only. -/
theorem translate_eq (h : Alike map total before fs m m' roots s s') {target : Option PageMap}
    (htarget : ∀ root ∈ targetRoot? s target, root ∈ roots) (x : VirtualAddress) :
    translate s' target x = translate s target x := by
  obtain ⟨hmap, hmap'⟩ := h.map_eq
  rw [Paging.translate_eq, Paging.translate_eq, h.targetRoot_eq, hmap, hmap']
  cases hroot : targetRoot? s target with
  | none => rw [Option.bind_none, Option.bind_none]
  | some root => rw [Option.bind_some, Option.bind_some, h.leafOf_eq (htarget root hroot)]

end Alike

end Paging

end PagedMemory
