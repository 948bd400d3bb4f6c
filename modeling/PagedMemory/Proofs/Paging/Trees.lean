import PagedMemory.Paging.KernelMap
import PagedMemory.Proofs.Frame.FreeFrames
import PagedMemory.Proofs.Paging.AddressMap
/-!
# Trees over a frame pool

A pool is an honest supply of frames for tables. Whatever is asked of the trees that draw on it, and
however that ends, the tables of all trees are frames that were taken from the front of the list of
the pool, the trees share none of them, and memory changes in frames of the pool only.
-/
namespace PagedMemory

/-- A pool that held the frames `fs` in memory `m`, after some of them were taken from the front and
joined those that were out `before`. Memory has changed in these frames only. -/
structure FramePool.Supplies (map : DirectMap) (total : Nat) (before fs : List Frame) (m : Ram)
    (s : Store FramePool) (out : List Frame) : Prop where
  map_eq : s.frames.map = map
  total_eq : s.frames.total = total
  taken : ∃ taken rest, fs = taken ++ rest ∧ out = taken.reverse ++ before ∧
    s.frames.Holds s.ram rest
  ram : m.OnlyChanges (fun a => map.frameAt a ∈ before ++ fs) s.ram

namespace FramePool

variable {map : DirectMap} {total : Nat} {before fs out : List Frame} {m : Ram}
  {s : Store FramePool}

theorem supplies_self (h : s.frames.Holds s.ram fs) :
    Supplies s.frames.map s.frames.total before fs s.ram s before :=
  ⟨rfl, rfl, ⟨[], fs, rfl, rfl, h⟩, .refl _ _⟩

theorem Supplies.subset (h : Supplies map total before fs m s out) : out ⊆ before ++ fs := by
  obtain ⟨taken, rest, rfl, rfl, -⟩ := h.taken
  intro f hf
  rcases List.mem_append.mp hf with hf | hf
  · exact List.mem_append_right before (List.mem_append_left rest (List.mem_reverse.mp hf))
  · exact List.mem_append_left _ hf

/-- A frame that is still free is not out. -/
theorem notMem_out {taken rest : List Frame} (hn : (before ++ (taken ++ rest)).Nodup) {f : Frame}
    (hf : f ∈ rest) : f ∉ taken.reverse ++ before := by
  obtain ⟨-, hfs, hbefore⟩ := List.nodup_append.mp hn
  intro hmem
  rcases List.mem_append.mp hmem with hmem | hmem
  · exact (List.nodup_append.mp hfs).2.2 f (List.mem_reverse.mp hmem) f hf rfl
  · exact hbefore f hmem f (List.mem_append_right taken hf) rfl

/-- A pool whose frames are all different is an honest supply. -/
theorem honest_supplies (hn : (before ++ fs).Nodup) :
    FrameSource.Honest FramePool (.whole map) (Supplies map total before fs m) where
  reached _ _ := rfl
  write := by
    intro s out n h hm
    obtain ⟨taken, rest, rfl, rfl, hrest⟩ := h.taken
    have hpool : s.frames.Holds n rest := by
      apply hrest.congr hm
      intro a ha hmem
      exact notMem_out hn hmem (h.map_eq ▸ ha)
    exact ⟨h.map_eq, h.total_eq, ⟨taken, rest, rfl, rfl, hpool⟩,
      h.ram.trans (hm.mono fun a ha => h.subset ha)⟩
  log _ h := ⟨h.map_eq, h.total_eq, h.taken, h.ram⟩
  take := by
    intro s out h
    obtain ⟨taken, rest, rfl, rfl, hrest⟩ := h.taken
    cases rest with
    | nil => exact Ends.of_eq_ok (take?_of_nil hrest) ⟨.refl _ _, h⟩
    | cons f rest =>
      obtain ⟨pool, htake, hmap, htotal, hpool⟩ := take?_of_cons hrest
      have hf : f ∉ taken.reverse ++ before := notMem_out hn List.mem_cons_self
      have hfill : s.ram.OnlyChanges (fun a => map.frameAt a = f)
          (s.ram.fill (s.frames.map.aliasOf f) frameSize 0) :=
        (s.ram.onlyChanges_fill _ _ _).mono fun a ha =>
          h.map_eq ▸ (s.frames.map.frameAt_eq_iff f a).mpr ha
      refine Ends.of_eq_ok htake ⟨hfill.mono ?_, hf, hmap.trans h.map_eq,
        htotal.trans h.total_eq, ⟨taken ++ [f], rest, by simp, by simp, hpool⟩,
        h.ram.trans (hfill.mono ?_)⟩
      · intro a ha
        change map.frameAt a ∉ taken.reverse ++ before
        rwa [ha]
      · intro a ha
        rw [ha]
        simp

end FramePool

namespace Paging

open PageTree

/-- Trees with given roots over a pool: their tables are frames taken from it. -/
def Rooted (map : DirectMap) (total : Nat) (before fs : List Frame) (m : Ram)
    (roots : List Frame) (s : PagingStore) : Prop :=
  ∃ out, Stands (FramePool.Supplies map total before fs m) map roots s.store out

variable {map : DirectMap} {total : Nat} {before fs roots : List Frame} {m : Ram}
  {s : PagingStore}

theorem Rooted.mono (h : Rooted map total before fs m roots s) {roots' : List Frame}
    (hr : roots' ⊆ roots) : Rooted map total before fs m roots' s := by
  obtain ⟨out, hs⟩ := h
  exact ⟨out, hs.ok, hs.forest.mono hr (List.Subset.refl out)⟩

theorem Rooted.map_eq (h : Rooted map total before fs m roots s) : s.store.frames.map = map := by
  obtain ⟨out, hs⟩ := h
  exact hs.ok.map_eq

theorem Rooted.with_log (h : Rooted map total before fs m roots s) (kernelMap : KernelMap)
    (log : Log) : Rooted map total before fs m roots ⟨kernelMap, { s.store with log }⟩ := by
  obtain ⟨out, hs⟩ := h
  exact ⟨out, ⟨hs.ok.map_eq, hs.ok.total_eq, hs.ok.taken, hs.ok.ram⟩, hs.forest⟩

/-- What an operation leads to that leaves the kernel map alone: the leaves that `same` names are as
they were. -/
structure Leads (map : DirectMap) (total : Nat) (before fs : List Frame) (m : Ram)
    (roots : List Frame) (same : Frame → VirtualAddress → Prop) (s t : PagingStore) : Prop where
  rooted : Rooted map total before fs m roots t
  kernelMap : t.kernelMap = s.kernelMap
  leaves : ∀ r x, same r x → leafOf map t.store.ram r x = leafOf map s.store.ram r x

namespace Leads

variable {same : Frame → VirtualAddress → Prop} {t u : PagingStore}

theorem refl (h : Rooted map total before fs m roots s)
    (same : Frame → VirtualAddress → Prop) : Leads map total before fs m roots same s s :=
  ⟨h, rfl, fun _ _ _ => rfl⟩

theorem trans (h : Leads map total before fs m roots same s t)
    (h' : Leads map total before fs m roots same t u) :
    Leads map total before fs m roots same s u :=
  ⟨h'.rooted, h'.kernelMap.trans h.kernelMap,
    fun r x hx => (h'.leaves r x hx).trans (h.leaves r x hx)⟩

/-- Less may be said of an operation. -/
theorem mono (h : Leads map total before fs m roots same s t)
    {same' : Frame → VirtualAddress → Prop} (hsame : ∀ r x, same' r x → same r x) :
    Leads map total before fs m roots same' s t :=
  ⟨h.rooted, h.kernelMap, fun r x hx => h.leaves r x (hsame r x hx)⟩

theorem with_log (h : Leads map total before fs m roots same s t) (log : Log) :
    Leads map total before fs m roots same s { t with store := { t.store with log } } :=
  ⟨h.rooted.with_log _ _, h.kernelMap, h.leaves⟩

end Leads

/-- A new tree has a root of its own and maps nothing. -/
theorem Rooted.createSpace_ends (h : Rooted map total before fs m roots s)
    (hn : (before ++ fs).Nodup) :
    Ends createSpace s
      (fun space t => space.window = .whole map ∧ space.root ∉ roots ∧
        (∀ x, leafOf map t.store.ram space.root x = none) ∧
        Leads map total before fs m (space.root :: roots) (fun r _ => r ∈ roots) s t)
      (fun _ t => Leads map total before fs m roots (fun r _ => r ∈ roots) s t) := by
  have hmap := h.map_eq
  obtain ⟨out, hs⟩ := h
  rw [createSpace, Ends.get_bind_iff, hmap]
  refine Ends.onPart (Ends.mapError ((create_ends (w := .whole map)
    (FramePool.honest_supplies hn) hs).mono ?_ ?_))
  · intro space t ht
    obtain ⟨hw, hout, ht, hkeeps, hnone⟩ := ht
    have hroot : space.root ∉ roots := fun hr =>
      hout (hs.forest.owned (p := []) hr (Nat.zero_le 3) rfl)
    exact ⟨hw, hroot, hnone, ⟨_, ht⟩, rfl, fun r x hr => hkeeps r hr x⟩
  · rintro stop t ⟨rfl, ht, hkeeps⟩
    exact ⟨⟨_, ht⟩, rfl, fun r x hr => hkeeps r hr x⟩

/-- The leaves of trees outside of the 2 MiB region of an address below one root. -/
def Outside (roots : List Frame) (root : Frame) (va : VirtualAddress) (r : Frame)
    (x : VirtualAddress) : Prop :=
  r ∈ roots ∧ ¬ (r = root ∧ pathToPml1 x = pathToPml1 va)

/-- The leaves of trees other than the one below a root. -/
def Elsewhere (roots : List Frame) (root r : Frame) (_ : VirtualAddress) : Prop :=
  r ∈ roots ∧ r ≠ root

theorem Elsewhere.outside {root r : Frame} {x : VirtualAddress} (h : Elsewhere roots root r x)
    (va : VirtualAddress) : Outside roots root va r x :=
  ⟨h.1, fun hx => h.2 hx.1⟩

/-- Mapping a page concerns its 2 MiB region only, and if it succeeds it does to the map that the
tree stands for what the request says. -/
theorem Rooted.mapPage_ends (h : Rooted map total before fs m roots s) (hn : (before ++ fs).Nodup)
    {space : AddressSpace} (hw : space.window = .whole map) (hroot : space.root ∈ roots)
    (virt : VirtualAddress) (phys : PhysicalAddress) (size : PageSize) :
    Ends (Paging.mapPage space virt phys size) s
      (fun _ t => Leads map total before fs m roots (Outside roots space.root virt) s t ∧
        ∀ M, Represents map s.store.ram space.root M →
          Represents map t.store.ram space.root (M.carryOut ⟨virt, phys, size⟩))
      (fun _ t => Leads map total before fs m roots (Outside roots space.root virt) s t) := by
  obtain ⟨out, hs⟩ := h
  obtain ⟨window, root⟩ := space
  cases hw
  have hleads : ∀ t out', Stands (FramePool.Supplies map total before fs m) map roots t out' →
      KeepsOutside map roots root virt s.store t →
      Leads map total before fs m roots (Outside roots root virt) s { s with store := t } :=
    fun t out' ht hkeeps => ⟨⟨out', ht⟩, rfl, fun r x hx => hkeeps r hx.1 x hx.2⟩
  refine Ends.onPart (Ends.mapError ((PageTree.mapPage_ends (FramePool.honest_supplies hn) hs hroot
    virt phys size).mono ?_ ?_))
  · intro _ t ht
    have hkeeps := ht.outside
    obtain ⟨out', ht, -, e, he, hleaf⟩ := ht
    refine ⟨hleads t out' ht hkeeps, ?_⟩
    intro M hM
    refine hM.carryOut he ?_
    intro x
    exact (hleaf root hroot x).trans (if_pos rfl)
  · intro stop t ht
    have hkeeps := ht.outside
    obtain ⟨out', ht, -⟩ := ht
    cases stop <;> exact hleads t out' ht hkeeps

/-! ## The kernel map -/

/-- Requests that map frames one after the other, each at the alias of its base. -/
def frameRequests (virtualOf : PhysicalAddress → VirtualAddress) (gs : List Frame) :
    List MapRequest :=
  gs.map fun g => ⟨virtualOf g.base, g.base, .small⟩

/-- The requests that map a region, none if its memory is bad. -/
def regionRequests (map : DirectMap) (image : KernelImage) (r : Region) : List MapRequest :=
  if r.kind = .badMemory then []
  else frameRequests (regionAlias map image r.kind) r.coveringFrames.toList

/-- The requests that make up the kernel map, in their order. -/
def kernelRequests (map : DirectMap) (image : KernelImage) (memoryMap : List Region) :
    List MapRequest :=
  memoryMap.flatMap (regionRequests map image)

/-- What carrying out requests in the tree below a root leads to. -/
structure CarriedOut (map : DirectMap) (total : Nat) (before fs : List Frame) (m : Ram)
    (roots : List Frame) (root : Frame) (qs : List MapRequest) (s t : PagingStore) : Prop where
  leads : Leads map total before fs m roots (Elsewhere roots root) s t
  represents : ∀ M, Represents map s.store.ram root M →
    Represents map t.store.ram root (M.carryOutAll qs)

theorem CarriedOut.nil (h : Rooted map total before fs m roots s) (root : Frame) :
    CarriedOut map total before fs m roots root [] s s :=
  ⟨.refl h _, fun _ hM => hM⟩

theorem CarriedOut.append {root : Frame} {qs qs' : List MapRequest} {t u : PagingStore}
    (h : CarriedOut map total before fs m roots root qs s t)
    (h' : CarriedOut map total before fs m roots root qs' t u) :
    CarriedOut map total before fs m roots root (qs ++ qs') s u := by
  refine ⟨h.leads.trans h'.leads, ?_⟩
  intro M hM
  rw [AddressMap.carryOutAll_append]
  exact h'.represents _ (h.represents M hM)

theorem Rooted.mapFrames_ends (h : Rooted map total before fs m roots s) (hn : (before ++ fs).Nodup)
    {space : AddressSpace} (hw : space.window = .whole map) (hroot : space.root ∈ roots)
    (virtualOf : PhysicalAddress → VirtualAddress) (gs : List Frame) :
    Ends (mapFrames space virtualOf gs) s
      (fun _ t => CarriedOut map total before fs m roots space.root (frameRequests virtualOf gs) s t)
      (fun _ t => Leads map total before fs m roots (Elsewhere roots space.root) s t) := by
  induction gs generalizing s with
  | nil => exact .nil h space.root
  | cons g gs ih =>
    rw [mapFrames]
    refine Ends.bind ((h.mapPage_ends hn hw hroot _ _ _).mono (fun _ _ ht => ht) ?_) ?_
    · intro _ t ht
      exact ht.mono fun r x hx => hx.outside _
    · intro _ t ht
      have hfirst : CarriedOut map total before fs m roots space.root
          (frameRequests virtualOf [g]) s t :=
        ⟨ht.1.mono fun r x hx => hx.outside _, ht.2⟩
      exact (ih ht.1.rooted).mono (fun _ _ hu => hfirst.append hu)
        fun _ _ hu => hfirst.leads.trans hu

theorem Rooted.mapRegion_ends (h : Rooted map total before fs m roots s) (hn : (before ++ fs).Nodup)
    {space : AddressSpace} (hw : space.window = .whole map) (hroot : space.root ∈ roots)
    (image : KernelImage) (r : Region) :
    Ends (mapRegion space image r) s
      (fun _ t => CarriedOut map total before fs m roots space.root (regionRequests map image r) s t)
      (fun _ t => Leads map total before fs m roots (Elsewhere roots space.root) s t) := by
  have hmap : space.window.map = map := by rw [hw]; rfl
  rw [mapRegion, regionRequests, hmap]
  split
  · exact ⟨(Leads.refl h _).with_log _, fun _ hM => hM⟩
  · refine Ends.bind (h.mapFrames_ends hn hw hroot _ _) ?_
    intro _ t ht
    exact ⟨ht.leads.with_log _, ht.represents⟩

theorem Rooted.mapRegions_ends (h : Rooted map total before fs m roots s) (hn : (before ++ fs).Nodup)
    {space : AddressSpace} (hw : space.window = .whole map) (hroot : space.root ∈ roots)
    (image : KernelImage) (rs : List Region) :
    Ends (mapRegions space image rs) s
      (fun _ t => CarriedOut map total before fs m roots space.root (kernelRequests map image rs) s t)
      (fun _ t => Leads map total before fs m roots (Elsewhere roots space.root) s t) := by
  induction rs generalizing s with
  | nil => exact .nil h space.root
  | cons r rs ih =>
    rw [mapRegions]
    refine Ends.bind (h.mapRegion_ends hn hw hroot image r) ?_
    intro _ t ht
    exact (ih ht.leads.rooted).mono (fun _ _ hu => ht.append hu) fun _ _ hu => ht.leads.trans hu

/-- What building the kernel map leads to: a new tree that stands for its requests, apart from the
trees that there are. -/
structure Built (map : DirectMap) (total : Nat) (before fs : List Frame) (m : Ram)
    (roots : List Frame) (qs : List MapRequest) (root : Frame) (s t : PagingStore) : Prop where
  missing : s.kernelMap.root? = none
  rooted : Rooted map total before fs m (root :: roots) t
  fresh : root ∉ roots
  kernelMap : t.kernelMap = .built root
  leaves : ∀ r ∈ roots, ∀ x, leafOf map t.store.ram r x = leafOf map s.store.ram r x
  represents : Represents map t.store.ram root (AddressMap.empty.carryOutAll qs)

/-- Building the kernel map adds its root to the trees. If it fails the kernel map is still missing,
and what was taken for it stays taken. -/
theorem Rooted.initPaging_ends (h : Rooted map total before fs m roots s) (hn : (before ++ fs).Nodup)
    (memoryMap : List Region) (image : KernelImage) :
    Ends (initPaging memoryMap image) s
      (fun root t =>
        Built map total before fs m roots (kernelRequests map image memoryMap) root s t)
      (fun _ t => Leads map total before fs m roots (fun r _ => r ∈ roots) s t) := by
  rw [initPaging, Ends.get_bind_iff]
  cases hkernel : s.kernelMap.root?.isSome with
  | true => exact .refl h _
  | false =>
    have hmissing : s.kernelMap.root? = none := by simpa using hkernel
    simp only [Bool.false_eq_true, if_false]
    refine Ends.bind (h.createSpace_ends hn) ?_
    intro space t ht
    obtain ⟨hw, hfresh, hnone, ht⟩ := ht
    -- the trees that there were are other trees than the new one
    have hother : ∀ r, r ∈ roots → Elsewhere (space.root :: roots) space.root r =
        fun _ => True := by
      intro r hr
      funext x
      exact eq_true ⟨List.mem_cons_of_mem _ hr, fun he => hfresh (he ▸ hr)⟩
    refine Ends.bind ((ht.rooted.mapRegions_ends hn hw List.mem_cons_self image memoryMap).mono
      (fun _ _ hu => hu) ?_) ?_
    · intro _ u hu
      refine ⟨hu.rooted.mono (List.subset_cons_self _ _), hu.kernelMap.trans ht.kernelMap, ?_⟩
      intro r x hr
      exact (hu.leaves r x ((hother r hr).symm ▸ trivial)).trans (ht.leaves r x hr)
    · intro _ u hu
      have hempty : Represents map t.store.ram space.root .empty := by
        intro x
        rw [hnone x]
        rfl
      refine ⟨hmissing, hu.leads.rooted.with_log _ _, hfresh, rfl, ?_, hu.represents _ hempty⟩
      intro r hr x
      exact (hu.leads.leaves r x ((hother r hr).symm ▸ trivial)).trans (ht.leaves r x hr)

/-! ## Further trees -/

theorem Rooted.createTable_ends (h : Rooted map total before fs m roots s)
    (hn : (before ++ fs).Nodup) :
    Ends createTable s
      (fun tree t => tree.root ∉ roots ∧
        Leads map total before fs m (tree.root :: roots) (fun r _ => r ∈ roots) s t)
      (fun _ t => Leads map total before fs m roots (fun r _ => r ∈ roots) s t) := by
  rw [createTable]
  exact Ends.bind (h.createSpace_ends hn) fun space t ht => ⟨ht.2.1, ht.2.2.2⟩

theorem Rooted.memoryMap_ends (h : Rooted map total before fs m roots s) (hn : (before ++ fs).Nodup)
    {target : Option PageMap} (htarget : ∀ root ∈ targetRoot? s target, root ∈ roots)
    (virt : VirtualAddress) (phys : PhysicalAddress) (size : PageSize) :
    Ends (memoryMap target virt phys size) s
      (fun _ t => Leads map total before fs m roots
        (fun r x => ∀ root ∈ targetRoot? s target, Outside roots root virt r x) s t)
      (fun _ t => Leads map total before fs m roots
        (fun r x => ∀ root ∈ targetRoot? s target, Outside roots root virt r x) s t) := by
  rw [memoryMap, Ends.get_bind_iff]
  cases hroot : targetRoot? s target with
  | none => exact .refl h _
  | some root =>
    have hw : (space s root).window = .whole map := by rw [space, h.map_eq]
    refine (h.mapPage_ends hn hw (htarget root hroot) virt phys size).mono ?_ ?_
    · intro _ t ht
      exact ht.1.mono fun r x hx => hx root rfl
    · intro _ t ht
      exact ht.mono fun r x hx => hx root rfl

/-- Loading the kernel map touches neither memory nor the pool. -/
theorem Rooted.loadKernelMap_ends (h : Rooted map total before fs m roots s) :
    Ends loadKernelMap s
      (fun _ t => Rooted map total before fs m roots t ∧ t.kernelMap.root? = s.kernelMap.root? ∧
        t.store.ram = s.store.ram)
      (fun _ t => t = s) := by
  rw [loadKernelMap, Ends.get_bind_iff]
  cases hroot : s.kernelMap.root? with
  | none => rfl
  | some root =>
    dsimp only
    cases Cr3.ofRoot root with
    | error f => rfl
    | ok value => exact ⟨h.with_log _ _, rfl, rfl⟩

/-! ## Looking addresses up -/

/-- All of memory is seen through the direct map, so looking an address up never faults. -/
theorem leaf_space (s : PagingStore) (root : Frame) (x : VirtualAddress) :
    (space s root).leaf s.store.ram x =
      .ok (leafOf s.store.frames.map s.store.ram root x) :=
  leaf_eq (fun _ _ _ _ => rfl) x

theorem translate_eq (s : PagingStore) (target : Option PageMap) (x : VirtualAddress) :
    translate s target x = .ok ((targetRoot? s target).bind fun root =>
      (leafOf s.store.frames.map s.store.ram root x).map (AddressSpace.leafTarget x)) := by
  rw [translate]
  cases targetRoot? s target with
  | none => rfl
  | some root =>
    simp only [AddressSpace.translate, leaf_space]
    rfl

end Paging

end PagedMemory
