import PagedMemory.Proofs.Ownership.Isolation
/-!
# The order of the free frames

Whoever needs a frame gets the one at the head of the list, and only a frame that is given back is put
there. So as long as nobody gives a frame back, the free frames are the last ones of those that the
pool was filled with, in their order.
-/
namespace PagedMemory

open FreeList

/-- Whether a request gives a frame back. -/
def Request.returnsFrame : Request → Bool
  | .returnFrame _ => true
  | _ => false

namespace Ledger

variable {map : DirectMap} {total : Nat} {all fs : List Frame} {l : Ledger}
variable {free live aside : List Run}

/-- Some frames at the head of the list are no longer free, and nothing else happened to it. -/
def Shrinks (l : Ledger) (t : System) : Prop := t.store.frames.freeFrames t.ram <:+ l.free

namespace Balanced

theorem shrinks_self (l : Ledger) : Shrinks l l.system := List.suffix_refl _

theorem shrinks_of_holds (h : Balanced map total all l fs free live aside) {t : System}
    {fs' : List Frame} (ht : t.store.frames.Holds t.ram fs') (hsuffix : fs' <:+ fs) :
    Shrinks l t := by
  rw [Shrinks, ht.freeFrames_eq, h.free_eq]
  exact hsuffix

/-! ## One lemma for each part of a system -/

theorem shrinks_takeFrame (h : Balanced map total all l fs free live aside) :
    Shrinks l (l.perform .takeFrame).system := by
  refine Ends.outcome (p := fun r => Shrinks l r.2) (Ends.onPart ?_)
  rw [FramePool.allocate]
  cases fs with
  | nil =>
    refine Ends.bind_of_ok (Op.ofStep_of_ok (FramePool.take?_of_nil h.pool)) ?_
    refine h.shrinks_of_holds ?_ (List.suffix_refl _)
    rw [System.ram, h.shared.store_setStore]
    exact h.pool
  | cons f fs =>
    obtain ⟨pool, htake, -, -, hpool⟩ := FramePool.take?_of_cons h.pool
    refine Ends.bind_of_ok (Op.ofStep_of_ok htake) ?_
    refine h.shrinks_of_holds ?_ (List.suffix_cons f fs)
    rw [h.shared.store_setStore]
    exact hpool

theorem shrinks_paged (h : Balanced map total all l fs free live aside) {t : PagingStore}
    {roots : List Frame}
    (ht : Paging.Rooted map total l.tables fs l.system.ram roots t) :
    Shrinks l (l.system.setPaging t) := by
  obtain ⟨out, ⟨-, -, ⟨taken, rest, rfl, -, hrest⟩, -⟩, -⟩ := ht
  refine h.shrinks_of_holds ?_ (List.suffix_append taken rest)
  rw [h.shared.store_setPaging]
  exact hrest

theorem shrinks_heaped (h : Balanced map total all l fs free live aside) {t : HeapStore}
    {own live' : List Run}
    (ht : Heap.Advanced l.system.heapStore fs aside l.arena own live' t) :
    Shrinks l (l.system.setHeapStore t) := by
  obtain ⟨k, free', aside', -, hholds, -⟩ := ht.moved
  refine h.shrinks_of_holds ?_ (List.drop_suffix k fs)
  rw [h.shared.store_setHeapStore, h.shared.ram_setHeapStore]
  exact hholds.pool

theorem shrinks_provided (h : Balanced map total all l fs free live aside) {own rest : List Run}
    {size : Nat} {p : VirtualAddress} {t : HeapStore}
    (ht : Heap.Provided l.system.heapStore fs aside l.arena own rest size p t) :
    Shrinks l (l.system.setHeapStore t) := by
  obtain ⟨b, payload, -, -, -, -, hadv⟩ := ht
  exact h.shrinks_heaped hadv

/-- A request for memory that may be refused without an error. -/
theorem shrinks_served (h : Balanced map total all l fs free live aside) {own rest kept : List Run}
    {size : Nat} {q : Option VirtualAddress} {t : HeapStore}
    (ht : Heap.Served l.system.heapStore fs aside l.arena own rest kept size q t) :
    Shrinks l (l.system.setHeapStore t) := by
  cases q with
  | none => exact h.shrinks_heaped ht
  | some p => exact h.shrinks_provided ht

theorem shrinks_notAllocated (h : Balanced map total all l fs free live aside) {kept : List Run}
    (hheap : Heap.Holds l.system.heapStore fs free kept aside l.arena) {size : Nat}
    {stop : Stop HeapError} {t : HeapStore}
    (ht : Heap.NotAllocated l.system.heapStore fs free kept aside l.arena size stop t) :
    Shrinks l (l.system.setHeapStore t) := h.shrinks_heaped (ht.advanced hheap []).2

/-! ## Requests -/

theorem shrinks_allocate (h : Balanced map total all l fs free live aside) (size : Nat) :
    Ends (System.onHeap (Heap.allocate size)) l.system (fun _ t => Shrinks l t)
      fun _ t => Shrinks l t := by
  refine Ends.onPart ((h.heap.allocate size).mono ?_ ?_)
  · intro p t ht
    exact h.shrinks_provided ht.provided
  · intro stop t ht
    exact h.shrinks_notAllocated h.heap ht

theorem shrinks_reallocate (h : Balanced map total all l fs free live aside) {p : VirtualAddress}
    (hp : p = .null ∨ p ∈ l.live) (size : Nat) :
    Ends (System.onHeap (Heap.reallocate p size)) l.system (fun _ t => Shrinks l t)
      fun _ t => Shrinks l t := by
  refine Ends.onPart ?_
  by_cases hnull : p = .null
  · subst hnull
    refine (h.heap.reallocate_null size).mono ?_ ?_
    · intro q t ht
      exact h.shrinks_provided ht.provided
    · intro stop t ht
      exact h.shrinks_notAllocated h.heap ht
  · obtain ⟨b, rest, rfl, hperm, -⟩ := h.exists_block hnull (hp.resolve_left hnull)
    have hheap := h.heap.live_perm hperm
    refine (hheap.reallocate_block hnull size).mono ?_ ?_
    · intro q t ht
      exact h.shrinks_provided ht
    · intro stop t ht
      exact h.shrinks_notAllocated hheap ht

theorem shrinks_reallocLayout (h : Balanced map total all l fs free live aside)
    {p : VirtualAddress} (hp : p = .null ∨ p ∈ l.live) (layout : Layout) (size : Nat) :
    Ends (System.onHeap (Heap.reallocLayout p layout size)) l.system (fun _ t => Shrinks l t)
      fun _ _ => False := by
  refine Ends.onPart ?_
  by_cases hnull : p = .null
  · subst hnull
    exact (h.heap.served_of_reallocLayout_null layout size).mono
      (fun _ t ht => h.shrinks_served ht) fun _ _ => False.elim
  · obtain ⟨b, rest, rfl, hperm, -⟩ := h.exists_block hnull (hp.resolve_left hnull)
    exact ((h.heap.live_perm hperm).served_of_reallocLayout hnull layout size).mono
      (fun _ t ht => h.shrinks_served ht) fun _ _ => False.elim

theorem shrinks_free (h : Balanced map total all l fs free live aside) {p : VirtualAddress}
    (hp : p = .null ∨ p ∈ l.live) :
    Ends (System.onHeap (Heap.free p)) l.system (fun _ t => Shrinks l t) fun _ _ => False := by
  refine Ends.onPart ?_
  by_cases hnull : p = .null
  · subst hnull
    exact h.shrinks_heaped (h.heap.advanced [])
  · obtain ⟨b, rest, rfl, hperm, -⟩ := h.exists_block hnull (hp.resolve_left hnull)
    exact ((h.heap.live_perm hperm).advanced_of_free hnull).mono
      (fun _ t ht => h.shrinks_heaped ht) fun _ _ => False.elim

end Balanced

/-- However a request ends, if it gives no frame back then the list loses frames at its head only. -/
theorem Sound.shrinks (h : Sound map total all l) (stock : Stock map all) {q : Request}
    (hq : l.Permits q) (hreturn : q.returnsFrame = false) : Shrinks l (l.perform q).system := by
  obtain ⟨fs, free, live, aside, h⟩ := h
  have htables := h.nodup_tables stock
  have hserved : ∀ others r, Shrinks l r.2 → Shrinks l (l.served others r).system := by
    intro others r hr
    rwa [system_served]
  cases q with
  | takeFrame => exact h.shrinks_takeFrame
  | returnFrame f => cases hreturn
  | createTable =>
    refine Ends.outcome (p := fun r => Shrinks l r.2) (Ends.onPart ?_)
    exact (h.rooted.createTable_ends htables).mono
      (fun _ t ht => h.shrinks_paged ht.2.rooted) fun _ t ht => h.shrinks_paged ht.rooted
  | initPaging memoryMap image =>
    refine Ends.outcome (p := fun r => Shrinks l r.2) (Ends.onPart ?_)
    exact (h.rooted.initPaging_ends htables memoryMap image).mono
      (fun _ t ht => h.shrinks_paged ht.rooted) fun _ t ht => h.shrinks_paged ht.rooted
  | mapPage target virt phys size =>
    have htarget : ∀ tree ∈ target, tree ∈ l.trees := by
      intro tree htree
      cases htree
      exact hq
    refine Ends.outcome (p := fun r => Shrinks l r.2) (Ends.onPart ?_)
    exact (h.rooted.memoryMap_ends htables (Balanced.root_mem_roots htarget) virt phys size).mono
      (fun _ t ht => h.shrinks_paged ht.rooted) fun _ t ht => h.shrinks_paged ht.rooted
  | translate target virt => exact Balanced.shrinks_self l
  | loadKernelMap =>
    refine Ends.outcome (p := fun r => Shrinks l r.2) (Ends.onPart ?_)
    refine h.rooted.loadKernelMap_ends.mono (fun _ t ht => h.shrinks_paged ht.1) ?_
    rintro _ t rfl
    exact h.shrinks_paged h.rooted
  | initHeap bytes =>
    refine Ends.outcome (p := fun r => Shrinks l r.2) (Ends.onPart ?_)
    refine (h.heap.advanced_of_init bytes).mono (fun _ t ht => h.shrinks_heaped ht) ?_
    rintro _ t ⟨-, rfl⟩
    exact h.shrinks_heaped (h.heap.advanced [])
  | growHeap pages =>
    refine Ends.outcome (p := fun r => Shrinks l r.2) (Ends.onPart ?_)
    exact (h.heap.advanced_of_expand pages).mono
      (fun _ t ht => h.shrinks_heaped ht) fun _ _ => False.elim
  | allocate size =>
    exact hserved _ _ (Ends.outcome (p := fun r => Shrinks l r.2) (h.shrinks_allocate size))
  | free p =>
    refine Ends.outcome (p := fun r => Shrinks l r.2) ?_
    exact (h.shrinks_free hq).mono (fun _ _ ht => ht) fun _ _ => False.elim
  | reallocate p size =>
    exact hserved _ _ (Ends.outcome (p := fun r => Shrinks l r.2) (h.shrinks_reallocate hq size))
  | allocLayout layout =>
    refine hserved _ _ (Ends.outcome (p := fun r => Shrinks l r.2) (Ends.onPart ?_))
    exact (h.heap.served_of_allocLayout layout).mono
      (fun _ t ht => h.shrinks_served ht) fun _ _ => False.elim
  | allocZeroed layout =>
    refine hserved _ _ (Ends.outcome (p := fun r => Shrinks l r.2) (Ends.onPart ?_))
    exact (h.heap.served_of_allocZeroed layout).mono
      (fun _ t ht => h.shrinks_served ht) fun _ _ => False.elim
  | reallocLayout p layout size =>
    refine hserved _ _ (Ends.outcome (p := fun r => Shrinks l r.2) ?_)
    exact (h.shrinks_reallocLayout hq layout size).mono (fun _ _ ht => ht) fun _ _ => False.elim
  | write a v =>
    exact h.shrinks_of_holds (h.perform_write stock hq).pool (List.suffix_refl _)

/-- Any number of requests. -/
theorem Sound.free_suffix (h : Sound map total all l) (stock : Stock map all)
    {requests : List Request} (hq : l.PermitsAll requests)
    (hreturn : ∀ q ∈ requests, q.returnsFrame = false) :
    (l.performAll requests).free <:+ l.free := by
  refine (h.run (motive := fun l' => l'.free <:+ l.free) stock hq (List.suffix_refl _) ?_).2
  intro l' hsound hsuffix q hmem hq
  exact (hsound.shrinks stock hq (hreturn q hmem)).trans hsuffix

end Ledger

end PagedMemory
