import PagedMemory.Proofs.Heap.Agreement
import PagedMemory.Proofs.Ownership.View
import PagedMemory.Proofs.Paging.Agreement
/-!
# Requests to systems that look alike

Two systems look alike if their views are the same, whatever clients did in them and whatever their
memories held at the start. A permitted request is answered in both with the same value, error or
fault and leaves them looking alike: all that decides it is in the view.
-/
namespace PagedMemory

/-- What is known of results that agree is known of their outcomes. -/
theorem Agree.outcome {ε σ α : Type} {x x' : EStateM ε σ α} {s s' : σ}
    {p : Option α × σ → Option α × σ → Prop}
    (h : Agree (x s) (x' s') (fun a t t' => p (some a, t) (some a, t'))
      (fun _ t t' => p (none, t) (none, t'))) :
    p (outcome x s) (PagedMemory.outcome x' s') := by
  unfold PagedMemory.outcome
  unfold Agree at h
  cases hx : x s <;> cases hx' : x' s' <;> simp only [hx, hx'] at h ⊢
  · exact h.1 ▸ h.2
  · exact h.2

/-- What a request is answered: a value, an error or a fault. -/
inductive Answer
  | frame (result : Except (Stop OutOfFrames) Frame)
  | returned (result : Except Fault Unit)
  | tree (result : Except (Stop PagingError) PageMap)
  | kernelRoot (result : Except (Stop PagingError) Frame)
  | mapped (result : Except (Stop PagingError) Unit)
  | found (result : Except Fault (Option PhysicalAddress))
  | register (result : Except (Stop PagingError) Cr3)
  | taken (result : Except (Stop HeapError) Nat)
  | counted (result : Except Fault Nat)
  | payload (result : Except (Stop HeapError) VirtualAddress)
  | payload? (result : Except Fault (Option VirtualAddress))
  | written

namespace Ledger

/-- What a request is answered by the program that `perform` runs. -/
def answer (l : Ledger) : Request → Answer
  | .takeFrame => .frame (ending (System.onStore FramePool.allocate) l.system).1
  | .returnFrame f => .returned (ending (System.onStore (FramePool.release f)) l.system).1
  | .createTable => .tree (ending (System.onPaging Paging.createTable) l.system).1
  | .initPaging memoryMap image =>
    .kernelRoot (ending (System.onPaging (Paging.initPaging memoryMap image)) l.system).1
  | .mapPage target virt phys size =>
    .mapped (ending (System.onPaging (Paging.memoryMap target virt phys size)) l.system).1
  | .translate target virt => .found (Paging.translate l.system.paging target virt)
  | .loadKernelMap => .register (ending (System.onPaging Paging.loadKernelMap) l.system).1
  | .initHeap bytes => .taken (ending (System.onHeap (Heap.init bytes)) l.system).1
  | .growHeap pages => .counted (ending (System.onHeap (Heap.expand pages)) l.system).1
  | .allocate size => .payload (ending (System.onHeap (Heap.allocate size)) l.system).1
  | .free p => .returned (ending (System.onHeap (Heap.free p)) l.system).1
  | .reallocate p size => .payload (ending (System.onHeap (Heap.reallocate p size)) l.system).1
  | .allocLayout layout => .payload? (ending (System.onHeap (Heap.allocLayout layout)) l.system).1
  | .allocZeroed layout => .payload? (ending (System.onHeap (Heap.allocZeroed layout)) l.system).1
  | .reallocLayout p layout size =>
    .payload? (ending (System.onHeap (Heap.reallocLayout p layout size)) l.system).1
  | .write _ _ => .written

/-- Two systems whose books balance over the same stock and that look alike. -/
structure Alike (map : DirectMap) (total : Nat) (all : List Frame) (l l' : Ledger) : Prop where
  left : Sound map total all l
  right : Sound map total all l'
  view : l'.view = l.view

/-- A request is answered in the same way by two systems, and they look alike after it. -/
structure Agrees (q : Request) (l l' : Ledger) : Prop where
  answer : l'.answer q = l.answer q
  view : (l'.perform q).view = (l.perform q).view

/-- The same pool and the same trees are seen in two systems. -/
def TreesAlike (l l' : Ledger) : Prop := l'.poolView = l.poolView ∧ l'.treesView = l.treesView

/-- The same pool and the same heap are seen in two systems. -/
def HeapsAlike (l l' : Ledger) : Prop := l'.poolView = l.poolView ∧ l'.heapView = l.heapView

variable {map : DirectMap} {total : Nat} {all fs : List Frame} {l l' : Ledger}
variable {free live aside aside' : List Run} {q : Request}

namespace Alike

/-! ## What is the same -/

theorem pool_eq (h : Alike map total all l l') :
    l'.system.store.frames = l.system.store.frames := congrArg (fun v => v.pool.pool) h.view

theorem free_eq (h : Alike map total all l l') : l'.free = l.free :=
  congrArg (fun v => v.pool.free) h.view

theorem held_eq (h : Alike map total all l l') : l'.held = l.held :=
  congrArg (fun v => v.pool.held) h.view

theorem kernelMap_eq (h : Alike map total all l l') :
    l'.system.paging.kernelMap = l.system.paging.kernelMap :=
  congrArg (fun v => v.trees.kernelMap) h.view

theorem trees_eq (h : Alike map total all l l') : l'.trees = l.trees :=
  congrArg (fun v => v.trees.trees) h.view

theorem heap_eq (h : Alike map total all l l') : l'.system.heap = l.system.heap :=
  congrArg (fun v => v.heap.heap) h.view

theorem arena_eq (h : Alike map total all l l') : l'.arena = l.arena :=
  congrArg (fun v => v.heap.arena) h.view

theorem live_eq (h : Alike map total all l l') : l'.live = l.live :=
  congrArg (fun v => v.heap.payloads) h.view

/-- Both ledgers balance with the same free frames, the same free blocks and the same live ones. -/
theorem balanced (h : Alike map total all l l') :
    ∃ fs free live, (∃ aside, Balanced map total all l fs free live aside) ∧
      ∃ aside, Balanced map total all l' fs free live aside := by
  obtain ⟨fs, free, live, aside, hl⟩ := h.left
  obtain ⟨fs', free', live', aside', hl'⟩ := h.right
  have hfs : fs' = fs := hl'.free_eq.symm.trans (h.free_eq.trans hl.free_eq)
  have hfree : free' = free :=
    hl'.freeBlocks_eq.symm.trans ((congrArg (fun v => v.heap.freeBlocks) h.view).trans
      hl.freeBlocks_eq)
  have hlive : live' = live :=
    hl'.liveBlocks_eq.symm.trans ((congrArg (fun v => v.heap.liveBlocks) h.view).trans
      hl.liveBlocks_eq)
  subst hfs hfree hlive
  exact ⟨fs', free', live', ⟨aside, hl⟩, aside', hl'⟩

/-- The tables have the same entries. -/
theorem entries (h : Alike map total all l l') :
    l'.tables = l.tables ∧ ∀ f ∈ l.tables, ∀ i,
      PageTree.entryAt map l'.system.ram f i = PageTree.entryAt map l.system.ram f i := by
  obtain ⟨fs, free, live, ⟨aside, hl⟩, -⟩ := h.balanced
  have htables := congrArg (fun v => v.trees.tables) h.view
  simp only [Ledger.view, treesView, h.pool_eq, hl.map_eq] at htables
  exact entryAt_of_tablesIn htables

/-- What the contract asks of callers is in the view, but for writes. -/
theorem permits (h : Alike map total all l l') (hq : l.Permits q) (hwrite : q.isWrite = false) :
    l'.Permits q := by
  cases q with
  | returnFrame f => exact (congrArg (f ∈ ·) h.held_eq).mpr hq
  | free p | reallocate p | reallocLayout p =>
    exact hq.imp_right (congrArg (p ∈ ·) h.live_eq).mpr
  | mapPage target =>
    cases target with
    | none => trivial
    | some tree => exact (congrArg (tree ∈ ·) h.trees_eq).mpr hq
  | write => cases hwrite
  | _ => trivial

/-- A request is settled by what it changes of the view: always the pool, and the part that it is
about. -/
theorem agrees (h : Alike map total all l l') (stock : Stock map all) (hq : l.Permits q)
    (hwrite : q.isWrite = false) (hanswer : l'.answer q = l.answer q)
    (hpool : (l'.perform q).poolView = (l.perform q).poolView)
    (htrees : q.isPaging = true → (l'.perform q).treesView = (l.perform q).treesView)
    (hheap : q.isHeap = true → (l'.perform q).heapView = (l.perform q).heapView) :
    Agrees q l l' := by
  obtain ⟨fs, free, live, ⟨aside, hl⟩, aside', hl'⟩ := h.balanced
  have hq' := h.permits hq hwrite
  refine ⟨hanswer, ?_⟩
  have htrees' : (l'.perform q).treesView = (l.perform q).treesView := by
    cases hpaging : q.isPaging with
    | true => exact htrees hpaging
    | false =>
      rw [hl'.treesView_perform stock hq' hpaging, hl.treesView_perform stock hq hpaging]
      exact congrArg View.trees h.view
  have hheap' : (l'.perform q).heapView = (l.perform q).heapView := by
    cases hisHeap : q.isHeap with
    | true => exact hheap hisHeap
    | false =>
      rw [hl'.heapView_perform stock hq' hisHeap hwrite,
        hl.heapView_perform stock hq hisHeap hwrite]
      exact congrArg View.heap h.view
  rw [Ledger.view, Ledger.view, hpool, htrees', hheap']

/-! ## Frames -/

theorem shared (h : Alike map total all l l') : l.system.Shared ∧ l'.system.Shared := by
  obtain ⟨fs, free, live, ⟨aside, hl⟩, aside', hl'⟩ := h.balanced
  exact ⟨hl.shared, hl'.shared⟩

/-- The stores that requests for frames go to. -/
theorem stores (h : Alike map total all l l') :
    FramePool.Alike l.system.store l'.system.store := by
  obtain ⟨fs, free, live, ⟨aside, hl⟩, aside', hl'⟩ := h.balanced
  exact ⟨h.pool_eq, fs, hl.pool, hl'.pool⟩

theorem onStore {ε α : Type} {x : EStateM ε (Store FramePool) α} (h : Alike map total all l l')
    (hx : Agree (x l.system.store) (x l'.system.store) (fun _ => FramePool.Alike)
      (fun _ => FramePool.Alike)) :
    Agree (System.onStore x l.system) (System.onStore x l'.system)
      (fun _ t t' => FramePool.Alike t.store t'.store)
      (fun _ t t' => FramePool.Alike t.store t'.store) := by
  obtain ⟨hs, hs'⟩ := h.shared
  refine Agree.onPart (hx.mono ?_ ?_)
  · intro _ t t' ht
    rwa [hs.store_setStore, hs'.store_setStore]
  · intro _ t t' ht
    rwa [hs.store_setStore, hs'.store_setStore]

/-- Stores that agree are seen as the same pool. -/
theorem poolView_eq {k k' : Ledger} (h : FramePool.Alike k.system.store k'.system.store)
    (hheld : k'.held = k.held) : k'.poolView = k.poolView := by
  have hfree : k'.free = k.free := h.freeFrames_eq
  rw [poolView, poolView, h.pool, hfree, hheld]

theorem takeFrame (h : Alike map total all l l') (stock : Stock map all) :
    Agrees .takeFrame l l' := by
  have hagree := h.onStore h.stores.allocate
  refine h.agrees stock trivial rfl (congrArg Answer.frame hagree.ending_eq) ?_ nofun nofun
  refine Agree.outcome (p := fun r r' =>
    ({ l' with system := r'.2, held := r'.1.toList ++ l'.held } : Ledger).poolView =
      ({ l with system := r.2, held := r.1.toList ++ l.held } : Ledger).poolView)
    (hagree.mono ?_ ?_)
  · exact fun f t t' ht => poolView_eq ht (congrArg (f :: ·) h.held_eq)
  · exact fun _ t t' ht => poolView_eq ht h.held_eq

theorem returnFrame (h : Alike map total all l l') (stock : Stock map all) {f : Frame}
    (hf : f ∈ l.held) : Agrees (.returnFrame f) l l' := by
  obtain ⟨fs, free, live, ⟨aside, hl⟩, -⟩ := h.balanced
  obtain ⟨⟨hfh, -⟩, -⟩ := hl.disjoint stock.nodup
  have hnull := stock.alias_ne_null f (hl.mem_all (.inr (.inl hf)))
  rw [← hl.map_eq] at hnull
  have hfree : f ∉ l.free := fun hmem => hfh (hl.free_eq ▸ hmem) hf
  have hagree := h.onStore ((h.stores.release hnull hfree).mono (fun _ _ _ ht => ht)
    fun _ _ _ => False.elim)
  refine h.agrees stock hf rfl (congrArg Answer.returned hagree.ending_eq) ?_ nofun nofun
  have hheld : l'.held.erase f = l.held.erase f := by rw [h.held_eq]
  refine Agree.outcome (p := fun r r' =>
    ({ l' with system := r'.2, held := l'.held.erase f } : Ledger).poolView =
      ({ l with system := r.2, held := l.held.erase f } : Ledger).poolView) (hagree.mono ?_ ?_)
  · exact fun _ t t' ht => poolView_eq ht hheld
  · exact fun _ t t' ht => poolView_eq ht hheld

/-- The same frames have left the free list. -/
theorem gone_eq (h : Alike map total all l l') {t t' : System}
    (ht : FramePool.Alike t.store t'.store) : l'.gone t' = l.gone t := by
  have hfree : t'.store.frames.freeFrames t'.ram = t.store.frames.freeFrames t.ram :=
    ht.freeFrames_eq
  rw [gone, gone, hfree, h.free_eq]

/-! ## Page tables -/

/-- The stores that requests about page tables go to, with the tables that there are. -/
theorem paging (h : Alike map total all l l') (hl : Balanced map total all l fs free live aside)
    (hl' : Balanced map total all l' fs free live aside') :
    Paging.Alike map total l.tables fs l.system.ram l'.system.ram l.roots l.system.paging
      l'.system.paging := by
  obtain ⟨-, hentries⟩ := h.entries
  have hleft : FramePool.Supplies _ _ l.tables fs l.system.ram l.system.store l.tables :=
    FramePool.supplies_self hl.pool
  have hright : FramePool.Supplies _ _ l.tables fs l'.system.ram l'.system.store l.tables :=
    FramePool.supplies_self hl'.pool
  rw [hl.map_eq, hl.total_eq] at hleft
  rw [hl'.map_eq, hl'.total_eq] at hright
  exact ⟨⟨h.kernelMap_eq, l.tables, hleft, hright, hentries⟩, hl.rooted⟩

theorem onPaging {ε α : Type} {x : EStateM ε PagingStore α} (h : Alike map total all l l')
    {before : List Frame} {m m' : Ram}
    (hx : Agree (x l.system.paging) (x l'.system.paging)
      (fun _ => Paging.Matched map total before fs m m')
      (fun _ => Paging.Matched map total before fs m m')) :
    Agree (System.onPaging x l.system) (System.onPaging x l'.system)
      (fun _ t t' => Paging.Matched map total before fs m m' t.paging t'.paging)
      (fun _ t t' => Paging.Matched map total before fs m m' t.paging t'.paging) := by
  obtain ⟨hs, hs'⟩ := h.shared
  refine Agree.onPart (hx.mono ?_ ?_)
  · intro _ t t' ht
    rwa [hs.paging_setPaging, hs'.paging_setPaging]
  · intro _ t t' ht
    rwa [hs.paging_setPaging, hs'.paging_setPaging]

/-- Systems whose trees match are seen with the same pool and the same trees: what left the free
list is out, and all that is out has the same entries. -/
theorem paged (h : Alike map total all l l') (hl : Balanced map total all l fs free live aside)
    {t t' : System}
    (ht : Paging.Matched map total l.tables fs l.system.ram l'.system.ram t.paging t'.paging)
    {trees trees' : List PageMap} (htrees : trees' = trees) :
    TreesAlike { l.paged t with trees } { l'.paged t' with trees := trees' } := by
  obtain ⟨out, hout⟩ := ht.paired
  have hpools : FramePool.Alike t.store t'.store := hout.pools
  have hpool : t'.store.frames = t.store.frames := hpools.pool
  have hmap : t.store.frames.map = map := hout.left.map_eq
  obtain ⟨htables, -⟩ := h.entries
  have hsub : l.gone t ++ l.tables ⊆ out := by
    obtain ⟨taken, rest, rfl, rfl, hrest⟩ := hout.left.taken
    rw [hl.gone_eq hrest]
    exact ((List.reverse_perm taken).symm.append_right l.tables).subset
  have hentries : tablesIn map t'.ram (l.gone t ++ l.tables) =
      tablesIn map t.ram (l.gone t ++ l.tables) :=
    tablesIn_congr fun f hf => hout.entries f (hsub hf)
  refine ⟨poolView_eq hpools h.held_eq, ?_⟩
  simp only [treesView, Ledger.paged]
  rw [ht.kernelMap, htrees, hpool, hmap, h.gone_eq hpools, htables, hentries]

/-- What leaves the record of trees alone. -/
theorem paged_outcome {ε α : Type} {x : EStateM ε PagingStore α} (h : Alike map total all l l')
    (hl : Balanced map total all l fs free live aside)
    (hx : Agree (System.onPaging x l.system) (System.onPaging x l'.system)
      (fun _ t t' => Paging.Matched map total l.tables fs l.system.ram l'.system.ram t.paging
        t'.paging)
      (fun _ t t' => Paging.Matched map total l.tables fs l.system.ram l'.system.ram t.paging
        t'.paging)) :
    TreesAlike (l.paged (outcome (System.onPaging x) l.system).2)
      (l'.paged (outcome (System.onPaging x) l'.system).2) := by
  refine Agree.outcome (p := fun r r' => TreesAlike (l.paged r.2) (l'.paged r'.2)) (hx.mono ?_ ?_)
  · exact fun _ t t' ht => h.paged hl ht h.trees_eq
  · exact fun _ t t' ht => h.paged hl ht h.trees_eq

theorem createTable (h : Alike map total all l l') (stock : Stock map all) :
    Agrees .createTable l l' := by
  obtain ⟨fs, free, live, ⟨aside, hl⟩, aside', hl'⟩ := h.balanced
  have hagree := h.onPaging (((h.paging hl hl').createTable (hl.nodup_tables stock)).mono
    (fun _ _ _ ht => ht.toMatched) fun _ _ _ ht => ht.toMatched)
  obtain ⟨hpool, htrees⟩ := Agree.outcome (p := fun r r' =>
    TreesAlike { l.paged r.2 with trees := r.1.toList ++ l.trees }
      { l'.paged r'.2 with trees := r'.1.toList ++ l'.trees })
    (hagree.mono (fun tree _ _ ht => h.paged hl ht (congrArg (tree :: ·) h.trees_eq))
      fun _ _ _ ht => h.paged hl ht h.trees_eq)
  exact h.agrees stock trivial rfl (congrArg Answer.tree hagree.ending_eq) hpool
    (fun _ => htrees) nofun

theorem initPaging (h : Alike map total all l l') (stock : Stock map all)
    (memoryMap : List Region) (image : KernelImage) :
    Agrees (.initPaging memoryMap image) l l' := by
  obtain ⟨fs, free, live, ⟨aside, hl⟩, aside', hl'⟩ := h.balanced
  have hagree := h.onPaging (((h.paging hl hl').initPaging (hl.nodup_tables stock) memoryMap
    image).mono (fun _ _ _ ht => ht.2.toMatched) fun _ _ _ ht => ht.toMatched)
  obtain ⟨hpool, htrees⟩ := h.paged_outcome hl hagree
  exact h.agrees stock trivial rfl (congrArg Answer.kernelRoot hagree.ending_eq) hpool
    (fun _ => htrees) nofun

theorem mapPage (h : Alike map total all l l') (stock : Stock map all) {target : Option PageMap}
    {virt : VirtualAddress} {phys : PhysicalAddress} {size : PageSize}
    (hq : l.Permits (.mapPage target virt phys size)) :
    Agrees (.mapPage target virt phys size) l l' := by
  obtain ⟨fs, free, live, ⟨aside, hl⟩, aside', hl'⟩ := h.balanced
  have htarget : ∀ tree ∈ target, tree ∈ l.trees := by
    intro tree htree
    cases htree
    exact hq
  have hagree := h.onPaging (((h.paging hl hl').memoryMap (hl.nodup_tables stock)
    (Balanced.root_mem_roots htarget) virt phys size).mono (fun _ _ _ ht => ht.toMatched)
    fun _ _ _ ht => ht.toMatched)
  obtain ⟨hpool, htrees⟩ := h.paged_outcome hl hagree
  exact h.agrees stock hq rfl (congrArg Answer.mapped hagree.ending_eq) hpool
    (fun _ => htrees) nofun

theorem loadKernelMap (h : Alike map total all l l') (stock : Stock map all) :
    Agrees .loadKernelMap l l' := by
  obtain ⟨fs, free, live, ⟨aside, hl⟩, aside', hl'⟩ := h.balanced
  have hagree := h.onPaging ((h.paging hl hl').loadKernelMap.mono (fun _ _ _ ht => ht.toMatched)
    fun _ _ _ ht => ht.toMatched)
  obtain ⟨hpool, htrees⟩ := h.paged_outcome hl hagree
  exact h.agrees stock trivial rfl (congrArg Answer.register hagree.ending_eq) hpool
    (fun _ => htrees) nofun

/-- An address is looked up with the same result in a tree that exists. -/
theorem translate (h : Alike map total all l l') {target : Option PageMap}
    (htarget : ∀ tree ∈ target, tree ∈ l.trees) (virt : VirtualAddress) :
    Agrees (.translate target virt) l l' := by
  obtain ⟨fs, free, live, ⟨aside, hl⟩, aside', hl'⟩ := h.balanced
  refine ⟨congrArg Answer.found ?_, h.view⟩
  exact (h.paging hl hl').translate_eq (Balanced.root_mem_roots htarget) virt

/-! ## The heap -/

/-- The heaps, with their pools. -/
theorem heaps (h : Alike map total all l l') (hl : Balanced map total all l fs free live aside)
    (hl' : Balanced map total all l' fs free live aside') :
    Heap.Alike live l.system.heapStore l'.system.heapStore := by
  have hholds := hl.heap
  have hholds' := hl'.heap
  rw [hl.shared.heapStore_eq] at hholds ⊢
  rw [hl'.shared.heapStore_eq] at hholds' ⊢
  refine ⟨⟨?_, ?_, ?_⟩, ⟨?_, ?_⟩, fs, free, ⟨aside, l.arena, hholds⟩, aside', l'.arena, hholds'⟩
  · exact congrArg FramePool.map h.pool_eq
  · exact congrArg FramePool.total h.pool_eq
  · exact congrArg Heap.attached h.heap_eq
  · exact congrArg Heap.expansions h.heap_eq
  · exact congrArg Heap.arenaBytes h.heap_eq

theorem onHeap {ε α : Type} {x : EStateM ε HeapStore α} {ok : α → HeapStore → HeapStore → Prop}
    {stop : ε → HeapStore → HeapStore → Prop} (h : Alike map total all l l')
    (hx : Agree (x l.system.heapStore) (x l'.system.heapStore) ok stop) :
    Agree (System.onHeap x l.system) (System.onHeap x l'.system)
      (fun a t t' => ok a ⟨t.heap, t.store⟩ ⟨t'.heap, t'.store⟩)
      (fun e t t' => stop e ⟨t.heap, t.store⟩ ⟨t'.heap, t'.store⟩) := by
  obtain ⟨hs, hs'⟩ := h.shared
  refine Agree.onPart (hx.mono ?_ ?_)
  · intro _ t t' ht
    rwa [hs.heap_setHeapStore, hs'.heap_setHeapStore, hs.store_setHeapStore,
      hs'.store_setHeapStore]
  · intro _ t t' ht
    rwa [hs.heap_setHeapStore, hs'.heap_setHeapStore, hs.store_setHeapStore,
      hs'.store_setHeapStore]

/-- Systems with heaps that agree are seen with the same pool and the same heap. -/
theorem heaped (h : Alike map total all l l') {t t' : System} {kept : List Run}
    (ht : Heap.Alike kept ⟨t.heap, t.store⟩ ⟨t'.heap, t'.store⟩)
    {payloads payloads' : List VirtualAddress} (hp : payloads = kept.map fun b => payloadOf b.start)
    (hp' : payloads' = payloads) :
    HeapsAlike { l.heaped t with live := payloads } { l'.heaped t' with live := payloads' } := by
  have hpools : FramePool.Alike t.store t'.store := ht.pools
  have hheap : t'.heap = t.heap := ht.heap_eq
  have hfree : t'.heap.list.runs t'.ram = t.heap.list.runs t.ram := ht.runs_eq
  have hblocks : payloads.map (blockAround t'.ram) = payloads.map (blockAround t.ram) := by
    rw [hp, List.map_map, List.map_map]
    refine List.map_congr_left fun b hb => ?_
    have hsize : t'.ram.blockSize b.start = t.ram.blockSize b.start := ht.blockSize_eq hb
    simp only [Function.comp_apply, blockAround, blockOf_payloadOf, hsize]
  refine ⟨poolView_eq hpools h.held_eq, ?_⟩
  simp only [heapView, Ledger.heaped, freeBlocks, liveBlocks]
  rw [hheap, h.gone_eq hpools, h.arena_eq, ← hheap, hfree, hheap, hp', hblocks]

/-- A payload was handed out in both, or in neither. -/
theorem served (h : Alike map total all l l') (hl : Balanced map total all l fs free live aside)
    {t t' : System} (found : Option VirtualAddress) {rest kept : List Run} (size : Nat)
    (ht : Heap.GaveIf rest kept size found ⟨t.heap, t.store⟩ ⟨t'.heap, t'.store⟩)
    (hkept : kept.Perm live) {others others' : List VirtualAddress}
    (hothers : others = rest.map fun b => payloadOf b.start) (hothers' : others' = others) :
    HeapsAlike (l.served others (found, t)) (l'.served others' (found, t')) := by
  cases found with
  | none => exact h.heaped (Heap.Alike.live_perm ht hkept) hl.payloads h.live_eq
  | some p =>
    obtain ⟨b, rfl, -, ht⟩ := ht
    exact h.heaped ht (congrArg (payloadOf b.start :: ·) hothers)
      (congrArg (payloadOf b.start :: ·) hothers')

theorem heaped_outcome {ε α : Type} {x : EStateM ε HeapStore α} (h : Alike map total all l l')
    (hl : Balanced map total all l fs free live aside)
    (hx : Agree (System.onHeap x l.system) (System.onHeap x l'.system)
      (fun _ t t' => Heap.Alike live ⟨t.heap, t.store⟩ ⟨t'.heap, t'.store⟩)
      (fun _ t t' => Heap.Alike live ⟨t.heap, t.store⟩ ⟨t'.heap, t'.store⟩)) :
    HeapsAlike (l.heaped (outcome (System.onHeap x) l.system).2)
      (l'.heaped (outcome (System.onHeap x) l'.system).2) := by
  refine Agree.outcome (p := fun r r' => HeapsAlike (l.heaped r.2) (l'.heaped r'.2)) (hx.mono ?_ ?_)
  · exact fun _ t t' ht => h.heaped ht hl.payloads h.live_eq
  · exact fun _ t t' ht => h.heaped ht hl.payloads h.live_eq

/-- A request for a payload that may be refused with an error. -/
theorem served_outcome {x : Op HeapError HeapStore VirtualAddress} (h : Alike map total all l l')
    (hl : Balanced map total all l fs free live aside) {rest kept : List Run} {size : Nat}
    (hx : Agree (System.onHeap x l.system) (System.onHeap x l'.system)
      (fun p t t' => Heap.Gave rest size p ⟨t.heap, t.store⟩ ⟨t'.heap, t'.store⟩)
      (fun e t t' => Heap.Refused kept e ⟨t.heap, t.store⟩ ⟨t'.heap, t'.store⟩))
    (hkept : kept.Perm live) {others others' : List VirtualAddress}
    (hothers : others = rest.map fun b => payloadOf b.start) (hothers' : others' = others) :
    HeapsAlike (l.served others (outcome (System.onHeap x) l.system))
      (l'.served others' (outcome (System.onHeap x) l'.system)) := by
  refine Agree.outcome (p := fun r r' => HeapsAlike (l.served others r) (l'.served others' r'))
    (hx.mono ?_ ?_)
  · exact fun p t t' ht => h.served hl (some p) size ht hkept hothers hothers'
  · exact fun _ t t' ht => h.served hl none size ht.alike hkept hothers hothers'

/-- A request for a payload that may be refused without an error. -/
theorem served_join_outcome {x : Step HeapStore (Option VirtualAddress)}
    (h : Alike map total all l l') (hl : Balanced map total all l fs free live aside)
    {rest kept : List Run} {size : Nat}
    (hx : Agree (System.onHeap x l.system) (System.onHeap x l'.system)
      (fun p t t' => Heap.GaveIf rest kept size p ⟨t.heap, t.store⟩ ⟨t'.heap, t'.store⟩)
      (fun _ _ _ => False))
    (hkept : kept.Perm live) {others others' : List VirtualAddress}
    (hothers : others = rest.map fun b => payloadOf b.start) (hothers' : others' = others) :
    HeapsAlike
      (l.served others ((outcome (System.onHeap x) l.system).1.join,
        (outcome (System.onHeap x) l.system).2))
      (l'.served others' ((outcome (System.onHeap x) l'.system).1.join,
        (outcome (System.onHeap x) l'.system).2)) := by
  refine Agree.outcome (p := fun r r' => HeapsAlike (l.served others (r.1.join, r.2))
    (l'.served others' (r'.1.join, r'.2))) (hx.mono ?_ ?_)
  · exact fun p t t' ht => h.served hl p size ht hkept hothers hothers'
  · exact fun _ _ _ => False.elim

theorem initHeap (h : Alike map total all l l') (stock : Stock map all) (bytes : Nat) :
    Agrees (.initHeap bytes) l l' := by
  obtain ⟨fs, free, live, ⟨aside, hl⟩, aside', hl'⟩ := h.balanced
  have hagree := h.onHeap (((h.heaps hl hl').init bytes).mono (fun _ _ _ ht => ht)
    fun _ _ _ ht => ht.alike)
  obtain ⟨hpool, hheap⟩ := h.heaped_outcome hl hagree
  exact h.agrees stock trivial rfl (congrArg Answer.taken hagree.ending_eq) hpool nofun
    fun _ => hheap

theorem growHeap (h : Alike map total all l l') (stock : Stock map all) (pages : Nat) :
    Agrees (.growHeap pages) l l' := by
  obtain ⟨fs, free, live, ⟨aside, hl⟩, aside', hl'⟩ := h.balanced
  have hagree := h.onHeap ((h.heaps hl hl').expand pages)
  obtain ⟨hpool, hheap⟩ := h.heaped_outcome hl (hagree.mono (fun _ _ _ ht => ht)
    fun _ _ _ => False.elim)
  exact h.agrees stock trivial rfl (congrArg Answer.counted hagree.ending_eq) hpool nofun
    fun _ => hheap

theorem allocate (h : Alike map total all l l') (stock : Stock map all) (size : Nat) :
    Agrees (.allocate size) l l' := by
  obtain ⟨fs, free, live, ⟨aside, hl⟩, aside', hl'⟩ := h.balanced
  have hagree := h.onHeap ((h.heaps hl hl').allocate size)
  obtain ⟨hpool, hheap⟩ := h.served_outcome hl hagree (.refl _) hl.payloads h.live_eq
  exact h.agrees stock trivial rfl (congrArg Answer.payload hagree.ending_eq) hpool nofun
    fun _ => hheap

theorem allocLayout (h : Alike map total all l l') (stock : Stock map all) (layout : Layout) :
    Agrees (.allocLayout layout) l l' := by
  obtain ⟨fs, free, live, ⟨aside, hl⟩, aside', hl'⟩ := h.balanced
  have hagree := h.onHeap ((h.heaps hl hl').allocLayout layout)
  obtain ⟨hpool, hheap⟩ := h.served_join_outcome hl hagree (.refl _) hl.payloads h.live_eq
  exact h.agrees stock trivial rfl (congrArg Answer.payload? hagree.ending_eq) hpool nofun
    fun _ => hheap

theorem allocZeroed (h : Alike map total all l l') (stock : Stock map all) (layout : Layout) :
    Agrees (.allocZeroed layout) l l' := by
  obtain ⟨fs, free, live, ⟨aside, hl⟩, aside', hl'⟩ := h.balanced
  have hagree := h.onHeap ((h.heaps hl hl').allocZeroed layout)
  obtain ⟨hpool, hheap⟩ := h.served_join_outcome hl hagree (.refl _) hl.payloads h.live_eq
  exact h.agrees stock trivial rfl (congrArg Answer.payload? hagree.ending_eq) hpool nofun
    fun _ => hheap

theorem without_eq (h : Alike map total all l l') (p : VirtualAddress) :
    l'.without p = l.without p := by
  rw [without, without, h.live_eq]

theorem freePayload (h : Alike map total all l l') (stock : Stock map all) {p : VirtualAddress}
    (hp : p = .null ∨ p ∈ l.live) : Agrees (.free p) l l' := by
  obtain ⟨fs, free, live, ⟨aside, hl⟩, aside', hl'⟩ := h.balanced
  have hheaps := h.heaps hl hl'
  -- null is not a payload, and giving it back leaves all payloads in use
  have hrest : ∃ rest, (l.without p = rest.map fun b => payloadOf b.start) ∧
      Agree (Heap.free p l.system.heapStore) (Heap.free p l'.system.heapStore)
        (fun _ => Heap.Alike rest) (fun _ _ _ => False) := by
    by_cases hnull : p = .null
    · cases hnull
      exact ⟨live, hl.payloads, hheaps.free_null⟩
    · obtain ⟨b, rest, rfl, hperm, hwithout⟩ := hl.exists_block hnull (hp.resolve_left hnull)
      exact ⟨rest, hwithout, (hheaps.live_perm hperm).free_block hnull⟩
  obtain ⟨rest, hwithout, hx⟩ := hrest
  have hagree := h.onHeap hx
  obtain ⟨hpool, hheap⟩ := Agree.outcome (p := fun r r' =>
    HeapsAlike { l.heaped r.2 with live := l.without p }
      { l'.heaped r'.2 with live := l'.without p })
    (hagree.mono (fun _ _ _ ht => h.heaped ht hwithout (h.without_eq p)) fun _ _ _ => False.elim)
  exact h.agrees stock hp rfl (congrArg Answer.returned hagree.ending_eq) hpool nofun
    fun _ => hheap

theorem reallocate (h : Alike map total all l l') (stock : Stock map all) {p : VirtualAddress}
    (hp : p = .null ∨ p ∈ l.live) (size : Nat) : Agrees (.reallocate p size) l l' := by
  obtain ⟨fs, free, live, ⟨aside, hl⟩, aside', hl'⟩ := h.balanced
  have hheaps := h.heaps hl hl'
  have hrest : ∃ rest kept, (l.without p = rest.map fun b => payloadOf b.start) ∧
      kept.Perm live ∧ Agree (Heap.reallocate p size l.system.heapStore)
        (Heap.reallocate p size l'.system.heapStore) (Heap.Gave rest size) (Heap.Refused kept) := by
    by_cases hnull : p = .null
    · cases hnull
      exact ⟨live, live, hl.payloads, .refl _, hheaps.reallocate_null size⟩
    · obtain ⟨b, rest, rfl, hperm, hwithout⟩ := hl.exists_block hnull (hp.resolve_left hnull)
      exact ⟨rest, b :: rest, hwithout, hperm.symm,
        (hheaps.live_perm hperm).reallocate_block hnull size⟩
  obtain ⟨rest, kept, hwithout, hkept, hx⟩ := hrest
  have hagree := h.onHeap hx
  obtain ⟨hpool, hheap⟩ := h.served_outcome hl hagree hkept hwithout (h.without_eq p)
  exact h.agrees stock hp rfl (congrArg Answer.payload hagree.ending_eq) hpool nofun fun _ => hheap

theorem reallocLayout (h : Alike map total all l l') (stock : Stock map all) {p : VirtualAddress}
    (hp : p = .null ∨ p ∈ l.live) (layout : Layout) (size : Nat) :
    Agrees (.reallocLayout p layout size) l l' := by
  obtain ⟨fs, free, live, ⟨aside, hl⟩, aside', hl'⟩ := h.balanced
  have hheaps := h.heaps hl hl'
  have hrest : ∃ rest kept, (l.without p = rest.map fun b => payloadOf b.start) ∧
      kept.Perm live ∧ Agree (Heap.reallocLayout p layout size l.system.heapStore)
        (Heap.reallocLayout p layout size l'.system.heapStore) (Heap.GaveIf rest kept size)
        (fun _ _ _ => False) := by
    by_cases hnull : p = .null
    · cases hnull
      exact ⟨live, live, hl.payloads, .refl _, hheaps.reallocLayout_null layout size⟩
    · obtain ⟨b, rest, rfl, hperm, hwithout⟩ := hl.exists_block hnull (hp.resolve_left hnull)
      exact ⟨rest, b :: rest, hwithout, hperm.symm,
        (hheaps.live_perm hperm).reallocLayout_block hnull layout size⟩
  obtain ⟨rest, kept, hwithout, hkept, hx⟩ := hrest
  have hagree := h.onHeap hx
  obtain ⟨hpool, hheap⟩ := h.served_join_outcome hl hagree hkept hwithout (h.without_eq p)
  exact h.agrees stock hp rfl (congrArg Answer.payload? hagree.ending_eq) hpool nofun fun _ => hheap

/-! ## Any request -/

/-- A permitted request, about a tree that exists if it is about one, is answered alike. -/
theorem request (h : Alike map total all l l') (stock : Stock map all) (hq : l.Permits q)
    (hknown : ∀ tree virt, q = .translate (some tree) virt → tree ∈ l.trees)
    (hwrite : q.isWrite = false) : Agrees q l l' := by
  cases q with
  | takeFrame => exact h.takeFrame stock
  | returnFrame f => exact h.returnFrame stock hq
  | createTable => exact h.createTable stock
  | initPaging memoryMap image => exact h.initPaging stock memoryMap image
  | mapPage target virt phys size => exact h.mapPage stock hq
  | translate target virt =>
    refine h.translate ?_ virt
    intro tree htree
    cases htree
    exact hknown tree virt rfl
  | loadKernelMap => exact h.loadKernelMap stock
  | initHeap bytes => exact h.initHeap stock bytes
  | growHeap pages => exact h.growHeap stock pages
  | allocate size => exact h.allocate stock size
  | free p => exact h.freePayload stock hq
  | reallocate p size => exact h.reallocate stock hq size
  | allocLayout layout => exact h.allocLayout stock layout
  | allocZeroed layout => exact h.allocZeroed stock layout
  | reallocLayout p layout size => exact h.reallocLayout stock hq layout size
  | write a v => cases hwrite

end Alike

end Ledger

end PagedMemory
