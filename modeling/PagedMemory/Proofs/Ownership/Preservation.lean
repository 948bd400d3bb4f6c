import PagedMemory.Proofs.Ownership.Balance
/-!
# Every request keeps the books balanced

One lemma for each part of a system that requests go to, then the step and the run: whatever
permitted requests are made of a system whose books balance, they balance afterwards, and each has
written to its own footprint only. None of the requests needs to succeed.
-/
namespace PagedMemory

open FreeList

namespace Ledger

variable {map : DirectMap} {total : Nat} {all fs : List Frame} {l : Ledger}
variable {free live aside : List Run}

/-- The block of a payload that is given back; null has none. -/
def givenBlock (l : Ledger) (p : VirtualAddress) : List Run :=
  if p.isNull then [] else [blockAround l.system.ram p]

/-- The addresses that a request may write: what is free already, and what it is given. Mapping
pages may write all tables. -/
def Footprint (l : Ledger) : Request → VirtualAddress → Prop
  | .takeFrame => fun a => l.system.store.frames.map.frameAt a ∈ l.free
  | .returnFrame f => fun a => l.system.store.frames.map.frameAt a = f
  | .createTable | .initPaging .. | .mapPage .. | .loadKernelMap =>
    fun a => l.system.store.frames.map.frameAt a ∈ l.tables ++ l.free
  | .translate .. => fun _ => False
  | .initHeap _ | .growHeap _ | .allocate _ | .allocLayout _ | .allocZeroed _ =>
    Heap.Within l.system.store.frames.map l.free l.freeBlocks
  | .free p => Heap.Within l.system.store.frames.map l.free (l.givenBlock p)
  | .reallocate p _ | .reallocLayout p _ _ =>
    Heap.Within l.system.store.frames.map l.free (l.givenBlock p ++ l.freeBlocks)
  | .write a _ => (· = a)

namespace Balanced

/-! ## Frames -/

theorem perform_takeFrame (h : Balanced map total all l fs free live aside) (stock : Stock map all) :
    Next map total all (fun a => map.frameAt a ∈ fs) l (l.perform .takeFrame) := by
  refine Ends.outcome (p := fun r => Next map total all _ l
    { l with system := r.2, held := r.1.toList ++ l.held }) (Ends.onPart ?_)
  rw [FramePool.allocate]
  cases fs with
  | nil =>
    refine Ends.bind_of_ok (Op.ofStep_of_ok (FramePool.take?_of_nil h.pool)) ?_
    exact h.stored stock h.map_eq h.total_eq h.pool (.refl _ _)
      (fun _ ha => List.mem_append_left _ ha) (.refl _)
  | cons f fs =>
    obtain ⟨pool, htake, hmap, htotal, hpool⟩ := FramePool.take?_of_cons h.pool
    refine Ends.bind_of_ok (Op.ofStep_of_ok htake) ?_
    refine h.stored stock (hmap.trans h.map_eq) (htotal.trans h.total_eq) hpool ?_
      (fun _ ha => List.mem_append_left _ ha) List.perm_middle
    apply (Ram.onlyChanges_fill _ _ _ _).mono
    intro a ha
    rw [← h.map_eq, (l.system.store.frames.map.frameAt_eq_iff f a).mpr ha]
    exact List.mem_cons_self

theorem perform_returnFrame (h : Balanced map total all l fs free live aside) (stock : Stock map all)
    {f : Frame} (hf : f ∈ l.held) :
    Next map total all (fun a => map.frameAt a = f) l (l.perform (.returnFrame f)) := by
  refine Ends.outcome (p := fun r => Next map total all _ l
    { l with system := r.2, held := l.held.erase f }) (Ends.onPart ?_)
  obtain ⟨⟨hfh, -⟩, -⟩ := h.disjoint stock.nodup
  have hnull := stock.alias_ne_null f (h.mem_all (.inr (.inl hf)))
  rw [← h.map_eq] at hnull
  obtain ⟨pool, hpush, hmap, htotal, hpool⟩ :=
    FramePool.push_of_ne_null h.pool hnull fun hmem => hfh hmem hf
  rw [FramePool.release]
  refine Ends.bind_of_ok hpush ?_
  refine h.stored stock (hmap.trans h.map_eq) (htotal.trans h.total_eq) hpool ?_ ?_ ?_
  · apply (Ram.onlyChanges_writeWord _ _ _).mono
    intro a ha
    rw [← h.map_eq, Ram.frameAt_of_distance_alias ha]
  · rintro a rfl
    exact List.mem_append_right fs hf
  · exact List.perm_middle.symm.trans ((List.perm_cons_erase hf).symm.append_left fs)

/-! ## Page tables -/

/-- The trees of a ledger stand over its pool. -/
theorem rooted (h : Balanced map total all l fs free live aside) :
    Paging.Rooted map total l.tables fs l.system.ram l.roots l.system.paging := by
  have hs : FramePool.Supplies _ _ l.tables fs l.system.ram l.system.store l.tables :=
    FramePool.supplies_self h.pool
  rw [h.map_eq, h.total_eq] at hs
  exact ⟨l.tables, hs, h.forest⟩

theorem nodup_tables (h : Balanced map total all l fs free live aside) (stock : Stock map all) :
    (l.tables ++ fs).Nodup := by
  obtain ⟨⟨-, hft, -⟩, -⟩ := h.disjoint stock.nodup
  have hn := (h.nodup stock.nodup).of_append_left
  exact hn.of_append_right.append h.pool.nodup fun f ht hf => hft hf ht

/-- What leaves the kernel map alone and makes no tree. -/
theorem paged_of_leads (h : Balanced map total all l fs free live aside) (stock : Stock map all)
    {same : Frame → VirtualAddress → Prop} {t : PagingStore}
    (ht : Paging.Leads map total l.tables fs l.system.ram l.roots same l.system.paging t) :
    Next map total all (fun a => map.frameAt a ∈ l.tables ++ fs) l
      (l.paged (l.system.setPaging t)) := by
  refine h.paged stock ht.rooted ?_ (List.subset_append_right _ _)
  rw [ht.kernelMap]
  exact List.subset_append_left _ _

theorem perform_createTable (h : Balanced map total all l fs free live aside)
    (stock : Stock map all) :
    Next map total all (fun a => map.frameAt a ∈ l.tables ++ fs) l (l.perform .createTable) := by
  refine Ends.outcome (p := fun r => Next map total all _ l
    { l.paged r.2 with trees := r.1.toList ++ l.trees }) (Ends.onPart ?_)
  refine (h.rooted.createTable_ends (h.nodup_tables stock)).mono ?_ ?_
  · intro tree t ht
    refine h.paged stock ht.2.rooted ?_ ?_
    · rw [ht.2.kernelMap]
      exact List.subset_cons_of_subset _ (List.subset_append_left _ _)
    · exact List.cons_subset_cons _ (List.subset_append_right _ _)
  · intro _ t ht
    exact h.paged_of_leads stock ht

theorem perform_initPaging (h : Balanced map total all l fs free live aside) (stock : Stock map all)
    (memoryMap : List Region) (image : KernelImage) :
    Next map total all (fun a => map.frameAt a ∈ l.tables ++ fs) l
      (l.perform (.initPaging memoryMap image)) := by
  refine Ends.outcome (p := fun r => Next map total all _ l (l.paged r.2)) (Ends.onPart ?_)
  refine (h.rooted.initPaging_ends (h.nodup_tables stock) memoryMap image).mono ?_ ?_
  · intro root t ht
    refine h.paged stock ht.rooted ?_ (List.subset_cons_of_subset _ (List.subset_append_right _ _))
    simp [ht.kernelMap, KernelMap.root?]
  · intro _ t ht
    exact h.paged_of_leads stock ht

/-- The tree that a request is about is one of those that there are. -/
theorem root_mem_roots {target : Option PageMap} (htarget : ∀ tree ∈ target, tree ∈ l.trees) :
    ∀ root ∈ Paging.targetRoot? l.system.paging target, root ∈ l.roots := by
  intro root hroot
  cases target with
  | none => exact List.mem_append_left _ (Option.mem_toList.mpr hroot)
  | some tree =>
    cases hroot
    exact List.mem_append_right _ (List.mem_map_of_mem (htarget tree rfl))

theorem perform_mapPage (h : Balanced map total all l fs free live aside) (stock : Stock map all)
    {target : Option PageMap} (htarget : ∀ tree ∈ target, tree ∈ l.trees) (virt : VirtualAddress)
    (phys : PhysicalAddress) (size : PageSize) :
    Next map total all (fun a => map.frameAt a ∈ l.tables ++ fs) l
      (l.perform (.mapPage target virt phys size)) := by
  refine Ends.outcome (p := fun r => Next map total all _ l (l.paged r.2)) (Ends.onPart ?_)
  refine (h.rooted.memoryMap_ends (h.nodup_tables stock) (root_mem_roots htarget) virt phys
    size).mono ?_ ?_
  · intro _ t ht
    exact h.paged_of_leads stock ht
  · intro _ t ht
    exact h.paged_of_leads stock ht

theorem perform_loadKernelMap (h : Balanced map total all l fs free live aside)
    (stock : Stock map all) :
    Next map total all (fun a => map.frameAt a ∈ l.tables ++ fs) l
      (l.perform .loadKernelMap) := by
  refine Ends.outcome (p := fun r => Next map total all _ l (l.paged r.2)) (Ends.onPart ?_)
  refine h.rooted.loadKernelMap_ends.mono ?_ ?_
  · intro _ t ht
    refine h.paged stock ht.1 ?_ (List.subset_append_right _ _)
    rw [ht.2.1]
    exact List.subset_append_left _ _
  · rintro _ t rfl
    exact h.paged_of_leads stock (.refl h.rooted fun _ _ => True)

/-! ## The heap -/

/-- What leaves the payloads in use as they are. -/
theorem heaped_of_advanced (h : Balanced map total all l fs free live aside)
    (stock : Stock map all) {t : HeapStore} {own : List Run} (hown : own ⊆ free ++ live)
    (ht : Heap.Advanced l.system.heapStore fs aside l.arena own live t) :
    Next map total all (Heap.Within map fs own) l (l.heaped (l.system.setHeapStore t)) := by
  have := h.heaped stock hown ht
  rwa [← h.payloads] at this

/-- What hands out a payload, with the payloads `others` still in use, or refuses to. -/
theorem served_of (h : Balanced map total all l fs free live aside) (stock : Stock map all)
    {own rest kept : List Run} {others : List VirtualAddress} (size : Nat)
    (hown : own ⊆ free ++ live) (hothers : others = rest.map fun b => payloadOf b.start)
    (hkept : kept.Perm live) {q : Option VirtualAddress} {t : HeapStore}
    (ht : Heap.Served l.system.heapStore fs aside l.arena own rest kept size q t) :
    Next map total all (Heap.Within map fs own) l
      (l.served others (q, l.system.setHeapStore t)) := by
  cases q with
  | none => exact h.heaped_of_advanced stock hown (Heap.Advanced.live_perm ht hkept)
  | some p =>
    obtain ⟨b, payload, rfl, -, -, -, hadv⟩ := ht
    rw [hothers]
    exact h.heaped stock hown hadv

theorem perform_initHeap (h : Balanced map total all l fs free live aside) (stock : Stock map all)
    (bytes : Nat) :
    Next map total all (Heap.Within map fs free) l (l.perform (.initHeap bytes)) := by
  refine Ends.outcome (p := fun r => Next map total all _ l (l.heaped r.2)) (Ends.onPart ?_)
  have hown := List.subset_append_left free live
  refine (h.heap.advanced_of_init bytes).mono
    (fun _ t ht => h.heaped_of_advanced stock hown ht) ?_
  rintro _ t ⟨-, rfl⟩
  exact h.heaped_of_advanced stock hown (h.heap.advanced free)

theorem perform_growHeap (h : Balanced map total all l fs free live aside) (stock : Stock map all)
    (pages : Nat) :
    Next map total all (Heap.Within map fs free) l (l.perform (.growHeap pages)) := by
  refine Ends.outcome (p := fun r => Next map total all _ l (l.heaped r.2)) (Ends.onPart ?_)
  have hown := List.subset_append_left free live
  exact (h.heap.advanced_of_expand pages).mono
    (fun _ t ht => h.heaped_of_advanced stock hown ht) fun _ _ => False.elim

theorem perform_allocate (h : Balanced map total all l fs free live aside) (stock : Stock map all)
    (size : Nat) :
    Next map total all (Heap.Within map fs free) l (l.perform (.allocate size)) := by
  refine Ends.outcome (p := fun r => Next map total all _ l (l.served l.live r)) (Ends.onPart ?_)
  have hown := List.subset_append_left free live
  refine (h.heap.allocate size).mono ?_ ?_
  · intro p t ht
    exact h.served_of stock size hown h.payloads (.refl _) (q := some p) ht.provided
  · intro stop t ht
    exact h.served_of stock size hown h.payloads (.refl _) (q := none) (ht.advanced h.heap free).2

theorem perform_allocLayout (h : Balanced map total all l fs free live aside) (stock : Stock map all)
    (layout : Layout) :
    Next map total all (Heap.Within map fs free) l (l.perform (.allocLayout layout)) := by
  refine Ends.outcome (p := fun r => Next map total all _ l (l.served l.live (r.1.join, r.2)))
    (Ends.onPart ?_)
  have hown := List.subset_append_left free live
  exact (h.heap.served_of_allocLayout layout).mono
    (fun _ t ht => h.served_of stock _ hown h.payloads (.refl _) ht) fun _ _ => False.elim

theorem perform_allocZeroed (h : Balanced map total all l fs free live aside) (stock : Stock map all)
    (layout : Layout) :
    Next map total all (Heap.Within map fs free) l (l.perform (.allocZeroed layout)) := by
  refine Ends.outcome (p := fun r => Next map total all _ l (l.served l.live (r.1.join, r.2)))
    (Ends.onPart ?_)
  have hown := List.subset_append_left free live
  exact (h.heap.served_of_allocZeroed layout).mono
    (fun _ t ht => h.served_of stock _ hown h.payloads (.refl _) ht) fun _ _ => False.elim

/-- A live block is the one that is given back with its payload. -/
theorem givenBlock_eq (h : Balanced map total all l fs free live aside) {b : Run} {rest : List Run}
    (hperm : live.Perm (b :: rest)) (hnull : payloadOf b.start ≠ .null) :
    l.givenBlock (payloadOf b.start) = [b] ∧ b ∈ live := by
  have hb : b ∈ live := hperm.mem_iff.mpr List.mem_cons_self
  rw [givenBlock, (Address.isNull_eq_false_iff _).mpr hnull, h.blockAround_eq hb]
  exact ⟨rfl, hb⟩

/-- Giving null back does nothing, so null is never missed among the payloads in use. -/
theorem perform_free (h : Balanced map total all l fs free live aside) (stock : Stock map all)
    {p : VirtualAddress} (hp : p = .null ∨ p ∈ l.live) :
    Next map total all (Heap.Within map fs (l.givenBlock p)) l (l.perform (.free p)) := by
  refine Ends.outcome (p := fun r => Next map total all _ l
    { l.heaped r.2 with live := l.without p }) (Ends.onPart ?_)
  by_cases hnull : p = .null
  · cases hnull
    exact h.heaped_of_advanced stock (List.nil_subset _) (h.heap.advanced [])
  · obtain ⟨b, rest, rfl, hperm, hwithout⟩ := h.exists_block hnull (hp.resolve_left hnull)
    obtain ⟨hgiven, hb⟩ := h.givenBlock_eq hperm hnull
    have hown : [b] ⊆ free ++ live :=
      List.cons_subset.mpr ⟨List.mem_append_right free hb, List.nil_subset _⟩
    rw [hwithout, hgiven]
    exact ((h.heap.live_perm hperm).advanced_of_free hnull).mono
      (fun _ t ht => h.heaped stock hown ht) fun _ _ => False.elim

theorem perform_reallocate (h : Balanced map total all l fs free live aside) (stock : Stock map all)
    {p : VirtualAddress} (hp : p = .null ∨ p ∈ l.live) (size : Nat) :
    Next map total all (Heap.Within map fs (l.givenBlock p ++ free)) l
      (l.perform (.reallocate p size)) := by
  refine Ends.outcome (p := fun r => Next map total all _ l (l.served (l.without p) r))
    (Ends.onPart ?_)
  have hfree := List.subset_append_left free live
  by_cases hnull : p = .null
  · cases hnull
    refine (h.heap.reallocate_null size).mono ?_ ?_
    · intro q t ht
      exact h.served_of stock size hfree h.payloads (.refl _) (q := some q) ht.provided
    · intro stop t ht
      exact h.served_of stock size hfree h.payloads (.refl _) (q := none)
        (ht.advanced h.heap free).2
  · obtain ⟨b, rest, rfl, hperm, hwithout⟩ := h.exists_block hnull (hp.resolve_left hnull)
    obtain ⟨hgiven, hb⟩ := h.givenBlock_eq hperm hnull
    have hown : b :: free ⊆ free ++ live :=
      List.cons_subset.mpr ⟨List.mem_append_right free hb, hfree⟩
    have hheap := h.heap.live_perm hperm
    rw [hgiven]
    refine (hheap.reallocate_block hnull size).mono ?_ ?_
    · intro q t ht
      exact h.served_of stock size hown hwithout (.refl _) (q := some q) ht
    · intro stop t ht
      exact h.served_of stock size hown hwithout hperm.symm (q := none)
        (ht.advanced hheap (b :: free)).2

theorem perform_reallocLayout (h : Balanced map total all l fs free live aside)
    (stock : Stock map all) {p : VirtualAddress} (hp : p = .null ∨ p ∈ l.live) (layout : Layout)
    (size : Nat) :
    Next map total all (Heap.Within map fs (l.givenBlock p ++ free)) l
      (l.perform (.reallocLayout p layout size)) := by
  refine Ends.outcome (p := fun r => Next map total all _ l
    (l.served (l.without p) (r.1.join, r.2))) (Ends.onPart ?_)
  have hfree := List.subset_append_left free live
  by_cases hnull : p = .null
  · cases hnull
    exact (h.heap.served_of_reallocLayout_null layout size).mono
      (fun _ t ht => h.served_of stock _ hfree h.payloads (.refl _) ht) fun _ _ => False.elim
  · obtain ⟨b, rest, rfl, hperm, hwithout⟩ := h.exists_block hnull (hp.resolve_left hnull)
    obtain ⟨hgiven, hb⟩ := h.givenBlock_eq hperm hnull
    have hown : b :: free ⊆ free ++ live :=
      List.cons_subset.mpr ⟨List.mem_append_right free hb, hfree⟩
    rw [hgiven]
    exact ((h.heap.live_perm hperm).served_of_reallocLayout hnull layout size).mono
      (fun _ t ht => h.served_of stock _ hown hwithout hperm.symm ht) fun _ _ => False.elim

/-! ## Writes by clients -/

/-- A frame that is held is neither free nor a table, and no block has its header there. -/
theorem write_held (h : Balanced map total all l fs free live aside) (stock : Stock map all)
    {a : VirtualAddress} (ha : map.frameAt a ∈ l.held) (v : UInt8) :
    Balanced map total all (l.perform (.write a v)) fs free live aside := by
  obtain ⟨⟨hfh, -⟩, ⟨hht, hha⟩, -⟩ := h.disjoint stock.nodup
  refine h.written (l.system.ram.onlyChanges_write a v) ?_ ?_
  · rintro _ rfl
    exact ⟨fun hf => hfh hf ha, hht ha⟩
  · rintro b hb _ hmem rfl
    exact hha ha (h.header_mem_arena hb hmem)

/-- Within a payload there is no header, and its frames are part of the arena. -/
theorem write_payload (h : Balanced map total all l fs free live aside) (stock : Stock map all)
    {b : Run} (hb : b ∈ live) {a : VirtualAddress} (ha : a ∈ b.drop headerSize) (v : UInt8) :
    Balanced map total all (l.perform (.write a v)) fs free live aside := by
  obtain ⟨⟨-, -, hfa⟩, -, hta⟩ := h.disjoint stock.nodup
  -- what is known of a payload is stated for the first of the live blocks
  obtain ⟨pre, post, rfl⟩ := List.append_of_mem hb
  have hheap := h.heap.live_perm List.perm_middle
  have harena : map.frameAt a ∈ l.arena := by
    have := hheap.payload_mem_arena ha
    rwa [h.store_eq, h.map_eq] at this
  refine h.written (l.system.ram.onlyChanges_write a v) ?_ ?_
  · rintro _ rfl
    exact ⟨fun hf => hfa hf harena, fun ht => hta ht harena⟩
  · rintro c hc _ hmem rfl
    refine hheap.header_not_mem_payload c ?_ _ hmem ha
    exact (List.perm_middle.append_left free).mem_iff.mp hc

/-- What clients may write leaves the books as they are. -/
theorem perform_write (h : Balanced map total all l fs free live aside) (stock : Stock map all)
    {a : VirtualAddress} {v : UInt8} (hq : l.Permits (.write a v)) :
    Balanced map total all (l.perform (.write a v)) fs free live aside := by
  rcases hq with ha | ⟨p, hp, ha⟩
  · rw [h.map_eq] at ha
    exact h.write_held stock ha v
  · rw [h.payloads] at hp
    obtain ⟨b, hb, rfl⟩ := List.mem_map.mp hp
    rw [h.blockAround_eq hb] at ha
    exact h.write_payload stock hb ha v

end Balanced

namespace Sound

/-- A permitted request keeps the books balanced and writes to its footprint only, however it
ends. -/
theorem next (h : Sound map total all l) (stock : Stock map all) {q : Request}
    (hq : l.Permits q) : Next map total all (l.Footprint q) l (l.perform q) := by
  obtain ⟨fs, free, live, aside, h⟩ := h
  cases q with simp only [Footprint, h.map_eq, h.free_eq, h.freeBlocks_eq]
  | takeFrame => exact h.perform_takeFrame stock
  | returnFrame f => exact h.perform_returnFrame stock hq
  | createTable => exact h.perform_createTable stock
  | initPaging memoryMap image => exact h.perform_initPaging stock memoryMap image
  | mapPage target virt phys size =>
    refine h.perform_mapPage stock ?_ virt phys size
    intro tree htree
    cases htree
    exact hq
  -- looking an address up changes nothing
  | translate target virt => exact ⟨⟨fs, free, live, aside, h⟩, .refl _ _⟩
  | loadKernelMap => exact h.perform_loadKernelMap stock
  | initHeap bytes => exact h.perform_initHeap stock bytes
  | growHeap pages => exact h.perform_growHeap stock pages
  | allocate size => exact h.perform_allocate stock size
  | free p => exact h.perform_free stock hq
  | reallocate p size => exact h.perform_reallocate stock hq size
  | allocLayout layout => exact h.perform_allocLayout stock layout
  | allocZeroed layout => exact h.perform_allocZeroed stock layout
  | reallocLayout p layout size => exact h.perform_reallocLayout stock hq layout size
  | write a v =>
    exact ⟨⟨fs, free, live, aside, h.perform_write stock hq⟩, l.system.ram.onlyChanges_write a v⟩

theorem perform (h : Sound map total all l) (stock : Stock map all) {q : Request}
    (hq : l.Permits q) : Sound map total all (l.perform q) := (h.next stock hq).sound

/-- What each permitted request of a run preserves, given books that balance, the run preserves, and
the books balance after it. -/
theorem run {motive : Ledger → Prop} (h : Sound map total all l) (stock : Stock map all)
    {requests : List Request} (hq : l.PermitsAll requests) (start : motive l)
    (step : ∀ l, Sound map total all l → motive l → ∀ q ∈ requests, l.Permits q →
      motive (l.perform q)) :
    Sound map total all (l.performAll requests) ∧ motive (l.performAll requests) := by
  induction requests generalizing l with
  | nil => exact ⟨h, start⟩
  | cons q rest ih =>
    have hfirst := step l h start q List.mem_cons_self hq.1
    refine ih (h.perform stock hq.1) hq.2 hfirst ?_
    intro l h hl q hmem
    exact step l h hl q (List.mem_cons_of_mem _ hmem)

/-- The books balance after any run of permitted requests. -/
theorem performAll (h : Sound map total all l) (stock : Stock map all) {requests : List Request}
    (hq : l.PermitsAll requests) : Sound map total all (l.performAll requests) :=
  (h.run (motive := fun _ => True) stock hq trivial fun _ _ _ _ _ _ => trivial).1

end Sound

end Ledger

end PagedMemory
