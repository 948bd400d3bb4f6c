import PagedMemory.Proofs.Ownership.Isolation
/-!
# What there is to see of a system

The memory core keeps all its records in the memory that it manages. A view is what these records
say: the free list in its order, the entries of all tables, the blocks of the heap with the sizes in
their headers, and beside them the few numbers that are kept elsewhere. The bytes that clients have
are not part of it, nor is what is left in free frames and free blocks.

The view has three parts, and a request that is not about page tables or not about the heap leaves
that part as it was. Clients leave all of it as it was.
-/
namespace PagedMemory

/-- The frames of the pool: its counters, the free list as it is read from memory, and the frames in
the hands of direct callers. -/
structure PoolView where
  pool : FramePool
  free : List Frame
  held : List Frame

/-- The trees: the kernel map, the others, and all frames that were taken for tables, with the
entries that are in memory there. -/
structure TreesView where
  kernelMap : KernelMap
  trees : List PageMap
  tables : List (Frame × PageTable)

/-- The heap: its counters, its frames, the blocks on its free list as they are read from memory,
the payloads in use and their blocks with the sizes that are recorded in memory. -/
structure HeapView where
  heap : Heap
  arena : List Frame
  freeBlocks : List Run
  payloads : List VirtualAddress
  liveBlocks : List Run

/-- All that the memory core knows and keeps. -/
structure View where
  pool : PoolView
  trees : TreesView
  heap : HeapView

/-- Whether a request is about the heap. -/
def Request.isHeap : Request → Bool
  | .initHeap _ | .growHeap _ | .allocate _ | .free _ | .reallocate .. | .allocLayout _
  | .allocZeroed _ | .reallocLayout .. => true
  | _ => false

namespace Ledger

def poolView (l : Ledger) : PoolView := ⟨l.system.store.frames, l.free, l.held⟩

/-- The tables of a list of frames with their entries. -/
def tablesIn (map : DirectMap) (m : Ram) (tables : List Frame) : List (Frame × PageTable) :=
  tables.map fun f => (f, m.pageTable (map.aliasOf f))

def treesView (l : Ledger) : TreesView :=
  ⟨l.system.paging.kernelMap, l.trees,
    tablesIn l.system.store.frames.map l.system.ram l.tables⟩

def heapView (l : Ledger) : HeapView :=
  ⟨l.system.heap, l.arena, l.freeBlocks, l.live, l.liveBlocks⟩

/-- What there is to see of a system and of who holds what of it. -/
def view (l : Ledger) : View := ⟨l.poolView, l.treesView, l.heapView⟩

variable {map : DirectMap} {total : Nat} {all fs : List Frame} {l l' : Ledger}
variable {free live aside : List Run} {q : Request} {m n : Ram} {tables : List Frame}

/-! ## Tables -/

theorem tablesIn_congr
    (h : ∀ f ∈ tables, ∀ i, PageTree.entryAt map n f i = PageTree.entryAt map m f i) :
    tablesIn map n tables = tablesIn map m tables := by
  refine List.map_congr_left fun f hf => ?_
  simp only [Ram.pageTable, Prod.mk.injEq, PageTable.mk.injEq, true_and]
  exact funext fun i => h f hf i

/-- Tables that look the same are the same frames with the same entries. -/
theorem entryAt_of_tablesIn {tables' : List Frame}
    (h : tablesIn map n tables' = tablesIn map m tables) :
    tables' = tables ∧
      ∀ f ∈ tables, ∀ i, PageTree.entryAt map n f i = PageTree.entryAt map m f i := by
  have htables : tables' = tables := by
    have := congrArg (List.map Prod.fst) h
    simpa [tablesIn, Function.comp_def] using this
  refine ⟨htables, ?_⟩
  intro f hf i
  rw [htables] at h
  have htable := List.map_inj_left.mp h f hf
  exact congrFun (PageTable.mk.inj (Prod.mk.inj htable).2) i

/-! ## What requests leave as it was -/

/-- Only the heap gets into the frames of the arena, and clients into their payloads. -/
theorem Balanced.not_mem_arena_of_footprint (h : Balanced map total all l fs free live aside)
    (stock : Stock map all) (hq : l.Permits q) (hheap : q.isHeap = false)
    (hwrite : q.isWrite = false) {a : VirtualAddress} (ha : l.Footprint q a) :
    map.frameAt a ∉ l.arena := by
  obtain ⟨⟨-, -, hfa⟩, ⟨-, hha⟩, hta⟩ := h.disjoint stock.nodup
  have hpaging : map.frameAt a ∈ l.tables ++ fs → map.frameAt a ∉ l.arena := by
    intro ha harena
    rcases List.mem_append.mp ha with ha | ha
    · exact hta ha harena
    · exact hfa ha harena
  cases q with simp only [Footprint, h.map_eq, h.free_eq] at ha
  | takeFrame => exact fun harena => hfa ha harena
  | returnFrame f => exact fun harena => hha hq (ha ▸ harena)
  | createTable | initPaging | mapPage | loadKernelMap => exact hpaging ha
  | write => cases hwrite
  | initHeap | growHeap | allocate | free | reallocate | allocLayout | allocZeroed |
    reallocLayout => cases hheap

/-- Requests that are not about the heap leave what it has in its record alone. -/
theorem heap_perform (hheap : q.isHeap = false) :
    (l.perform q).system.heap = l.system.heap ∧ (l.perform q).arena = l.arena ∧
      (l.perform q).live = l.live := by
  have hpool : ∀ {ε α : Type} (x : EStateM ε (Store FramePool) α),
      (outcome (System.onStore x) l.system).2.heap = l.system.heap := by
    intro ε α x
    obtain ⟨t, ht⟩ := exists_outcome_onPart System.store System.setStore x l.system
    rw [System.onStore, ht]
    rfl
  have hpaging : ∀ {ε α : Type} (x : EStateM ε PagingStore α),
      (outcome (System.onPaging x) l.system).2.heap = l.system.heap := by
    intro ε α x
    obtain ⟨t, ht⟩ := exists_outcome_onPart System.paging System.setPaging x l.system
    rw [System.onPaging, ht]
    rfl
  cases q with
  | takeFrame | returnFrame => exact ⟨hpool _, rfl, rfl⟩
  | createTable | initPaging | mapPage | loadKernelMap => exact ⟨hpaging _, rfl, rfl⟩
  | translate | write => exact ⟨rfl, rfl, rfl⟩
  | initHeap | growHeap | allocate | free | reallocate | allocLayout | allocZeroed |
    reallocLayout => cases hheap

theorem Balanced.heapView_eq_of_carved (h : Balanced map total all l fs free live aside)
    (hheap : l'.system.heap = l.system.heap) (harena : l'.arena = l.arena)
    (hlive : l'.live = l.live)
    (hcarved : Carved map l'.system.ram l'.system.heap.list free live aside l.arena) :
    l'.heapView = l.heapView := by
  have hfree : l'.freeBlocks = l.freeBlocks := hcarved.runs_eq.trans h.freeBlocks_eq.symm
  have hblocks : l'.liveBlocks = l.liveBlocks := by
    rw [liveBlocks, liveBlocks, hlive, h.payloads, List.map_map, List.map_map]
    refine List.map_congr_left fun b hb => ?_
    simp only [Function.comp_apply, blockAround, blockOf_payloadOf]
    rw [hcarved.recorded b hb, h.carved.recorded b hb]
  rw [heapView, heapView, hheap, harena, hlive, hfree, hblocks]

theorem Balanced.heapView_perform (h : Balanced map total all l fs free live aside)
    (stock : Stock map all) (hq : l.Permits q) (hheap : q.isHeap = false)
    (hwrite : q.isWrite = false) : (l.perform q).heapView = l.heapView := by
  obtain ⟨hsame, harena, hlive⟩ := heap_perform (l := l) hheap
  have hsound : Sound map total all l := ⟨fs, free, live, aside, h⟩
  refine h.heapView_eq_of_carved hsame harena hlive ?_
  rw [hsame]
  refine h.carved.congr (hsound.next stock hq).ram fun b hb a ha hfoot => ?_
  exact h.not_mem_arena_of_footprint stock hq hheap hwrite hfoot (h.header_mem_arena hb ha)

/-- Requests that are not about page tables take no frame for a table. -/
theorem tables_perform (hpaging : q.isPaging = false) : (l.perform q).tables = l.tables := by
  have hserved : ∀ others r, (l.served others r).tables = l.tables := by
    rintro others ⟨_ | p, t⟩ <;> rfl
  cases q with
  | takeFrame | returnFrame | initHeap | growHeap | free | write => rfl
  | allocate | reallocate | allocLayout | allocZeroed | reallocLayout => exact hserved _ _
  | createTable | initPaging | mapPage | translate | loadKernelMap => cases hpaging

theorem Balanced.treesView_perform (h : Balanced map total all l fs free live aside)
    (stock : Stock map all) (hq : l.Permits q) (hpaging : q.isPaging = false) :
    (l.perform q).treesView = l.treesView := by
  obtain ⟨hkernel, htrees⟩ := trees_perform h.shared hpaging
  have hsound : Sound map total all l := ⟨fs, free, live, aside, h⟩
  obtain ⟨fs', free', live', aside', h'⟩ := hsound.perform stock hq
  have hmap : (l.perform q).system.paging.kernelMap = l.system.paging.kernelMap :=
    congrArg (fun k : Option KernelMap => k.getD .missing) hkernel
  rw [treesView, treesView, hmap, htrees, h'.map_eq, h.map_eq, tables_perform hpaging]
  rw [tablesIn_congr fun f hf i => h.entryAt_perform stock hq hpaging hf i]

/-- Clients change nothing that there is to see. -/
theorem Balanced.view_write (h : Balanced map total all l fs free live aside)
    (stock : Stock map all) {a : VirtualAddress} {v : UInt8} (hq : l.Permits (.write a v)) :
    (l.perform (.write a v)).view = l.view := by
  have h' : Balanced map total all (l.perform (.write a v)) fs free live aside := by
    rcases hq with ha | ⟨p, hp, ha⟩
    · exact h.write_held stock (h.map_eq ▸ ha) v
    · rw [h.payloads] at hp
      obtain ⟨b, hb, rfl⟩ := List.mem_map.mp hp
      rw [h.blockAround_eq hb] at ha
      exact h.write_payload stock hb ha v
  have hfree : (l.perform (.write a v)).free = l.free := h'.free_eq.trans h.free_eq.symm
  have hpool : (l.perform (.write a v)).poolView = l.poolView := by
    rw [poolView, hfree]
    rfl
  have hheap : (l.perform (.write a v)).heapView = l.heapView :=
    h.heapView_eq_of_carved rfl rfl rfl h'.carved
  rw [view, view, hpool, h.treesView_perform stock hq rfl, hheap]

end Ledger

end PagedMemory
