import PagedMemory.Proofs.Ownership.Ledger
/-!
# The books balance

`Balanced` is the invariant of a ledger: every frame of the stock is free, held, in use as a table
or part of the heap's arena, and none is two of these; the trees are a forest of the tables; and the
blocks of the heap tile the arena. Each request keeps it, however it ends.
-/
namespace PagedMemory

open FreeList

namespace System

/-- The heap and the page tables share one pool. -/
structure Shared (s : System) : Prop where
  pool : s.pool.isSome
  kernelMap : s.kernelMap.isSome
  heapPool : s.heapPool = none

variable {s : System}

theorem Shared.heapStore_eq (h : s.Shared) : s.heapStore = ⟨s.heap, s.store⟩ := by
  simp [heapStore, store, h.heapPool]

theorem Shared.setStore (h : s.Shared) (t : Store FramePool) : (s.setStore t).Shared :=
  ⟨by simpa [System.setStore] using h.pool, h.kernelMap, h.heapPool⟩

theorem Shared.store_setStore (h : s.Shared) (t : Store FramePool) : (s.setStore t).store = t := by
  obtain ⟨pool, hpool⟩ := Option.isSome_iff_exists.mp h.pool
  simp [store, System.setStore, hpool]

theorem Shared.setPaging (h : s.Shared) (t : PagingStore) : (s.setPaging t).Shared :=
  ⟨by simpa [System.setPaging, System.setStore] using h.pool,
    by simpa [System.setPaging] using h.kernelMap, h.heapPool⟩

theorem Shared.paging_setPaging (h : s.Shared) (t : PagingStore) : (s.setPaging t).paging = t := by
  obtain ⟨pool, hpool⟩ := Option.isSome_iff_exists.mp h.pool
  obtain ⟨kernelMap, hkernel⟩ := Option.isSome_iff_exists.mp h.kernelMap
  simp [paging, store, System.setPaging, System.setStore, hpool, hkernel]

theorem Shared.store_setPaging (h : s.Shared) (t : PagingStore) :
    (s.setPaging t).store = t.store := congrArg PagingStore.store (h.paging_setPaging t)

theorem Shared.setHeapStore_eq (h : s.Shared) (t : HeapStore) :
    s.setHeapStore t = { s.setStore t.store with heap := t.heap } := by
  simp [System.setHeapStore, h.heapPool]

theorem Shared.setHeapStore (h : s.Shared) (t : HeapStore) : (s.setHeapStore t).Shared := by
  rw [h.setHeapStore_eq]
  exact ⟨(h.setStore t.store).pool, h.kernelMap, h.heapPool⟩

theorem Shared.store_setHeapStore (h : s.Shared) (t : HeapStore) :
    (s.setHeapStore t).store = t.store := by
  rw [h.setHeapStore_eq]
  exact h.store_setStore t.store

theorem Shared.ram_setHeapStore (h : s.Shared) (t : HeapStore) :
    (s.setHeapStore t).ram = t.store.ram := congrArg Store.ram (h.store_setHeapStore t)

theorem Shared.heap_setHeapStore (h : s.Shared) (t : HeapStore) :
    (s.setHeapStore t).heap = t.heap := by rw [h.setHeapStore_eq]

theorem Shared.runs_setHeapStore (h : s.Shared) (t : HeapStore) :
    (s.setHeapStore t).heap.list.runs (s.setHeapStore t).ram = t.heap.list.runs t.store.ram := by
  rw [h.heap_setHeapStore, h.ram_setHeapStore]

end System

/-- What a stock of frames must be like: no frame twice, few enough to be counted in bytes, and none
that aliases null. -/
structure Stock (map : DirectMap) (all : List Frame) : Prop where
  nodup : all.Nodup
  few : all.length < 2 ^ 52
  alias_ne_null : ∀ f ∈ all, map.aliasOf f ≠ .null

namespace Ledger

/-- The books balance: what the ledger records is all that the stock `all` consists of, and it is
what memory says. -/
structure Balanced (map : DirectMap) (total : Nat) (all : List Frame) (l : Ledger)
    (fs : List Frame) (free live aside : List Run) : Prop where
  shared : l.system.Shared
  map_eq : l.system.store.frames.map = map
  total_eq : l.system.store.frames.total = total
  heap : Heap.Holds l.system.heapStore fs free live aside l.arena
  payloads : l.live = live.map fun b => payloadOf b.start
  forest : PageTree.Forest map l.system.ram l.roots l.tables
  frames : (fs ++ l.held ++ l.tables ++ l.arena).Perm all
  bytes : l.system.heap.arenaBytes = frameSize * l.arena.length
  aside_eq : map.frameAt .null ∉ all → aside = []

/-- The books of a ledger balance. -/
def Sound (map : DirectMap) (total : Nat) (all : List Frame) (l : Ledger) : Prop :=
  ∃ fs free live aside, Balanced map total all l fs free live aside

/-- What a request leads to: books that balance, and memory that has changed at addresses of a set
only. -/
structure Next (map : DirectMap) (total : Nat) (all : List Frame) (p : VirtualAddress → Prop)
    (l l' : Ledger) : Prop where
  sound : Sound map total all l'
  ram : l.system.ram.OnlyChanges p l'.system.ram

variable {map : DirectMap} {total : Nat} {all fs : List Frame} {l : Ledger}
variable {free live aside : List Run}

namespace Balanced

theorem store_eq (h : Balanced map total all l fs free live aside) :
    l.system.heapStore.store = l.system.store := by rw [h.shared.heapStore_eq]

theorem heap_eq (h : Balanced map total all l fs free live aside) :
    l.system.heapStore.heap = l.system.heap := by rw [h.shared.heapStore_eq]

theorem heap_map_eq (h : Balanced map total all l fs free live aside) :
    l.system.heapStore.store.frames.map = map := by rw [h.store_eq, h.map_eq]

theorem pool (h : Balanced map total all l fs free live aside) :
    l.system.store.frames.Holds l.system.ram fs := h.store_eq ▸ h.heap.pool

theorem carved (h : Balanced map total all l fs free live aside) :
    Carved map l.system.ram l.system.heap.list free live aside l.arena := by
  have := h.heap.carved
  rwa [h.store_eq, h.map_eq] at this

theorem free_eq (h : Balanced map total all l fs free live aside) : l.free = fs :=
  h.pool.freeFrames_eq

theorem freeBlocks_eq (h : Balanced map total all l fs free live aside) : l.freeBlocks = free :=
  h.carved.runs_eq

theorem blockAround_eq (h : Balanced map total all l fs free live aside) {b : Run}
    (hb : b ∈ live) : blockAround l.system.ram (payloadOf b.start) = b := by
  rw [blockAround, blockOf_payloadOf, h.carved.recorded b hb]

theorem liveBlocks_eq (h : Balanced map total all l fs free live aside) : l.liveBlocks = live := by
  rw [liveBlocks, h.payloads, List.map_map]
  exact (List.map_congr_left fun b hb => h.blockAround_eq hb).trans (List.map_id live)

theorem nodup (h : Balanced map total all l fs free live aside) (hall : all.Nodup) :
    (fs ++ l.held ++ l.tables ++ l.arena).Nodup := h.frames.nodup_iff.mpr hall

theorem ram_eq (h : Balanced map total all l fs free live aside) :
    l.system.heapStore.store.ram = l.system.ram := by rw [h.store_eq]; rfl

/-- No frame is free, held, a table or part of the arena at once. -/
theorem disjoint (h : Balanced map total all l fs free live aside) (hall : all.Nodup) :
    (fs.Disjoint l.held ∧ fs.Disjoint l.tables ∧ fs.Disjoint l.arena) ∧
      (l.held.Disjoint l.tables ∧ l.held.Disjoint l.arena) ∧ l.tables.Disjoint l.arena := by
  have hn := h.nodup hall
  have harena := List.disjoint_of_nodup_append hn
  have htables := List.disjoint_of_nodup_append hn.of_append_left
  have hheld := List.disjoint_of_nodup_append hn.of_append_left.of_append_left
  simp only [List.disjoint_append_left] at harena htables
  exact ⟨⟨hheld, htables.1, harena.1.1⟩, ⟨htables.2, harena.1.2⟩, harena.2⟩

theorem mem_all (h : Balanced map total all l fs free live aside) {f : Frame}
    (hf : f ∈ fs ∨ f ∈ l.held ∨ f ∈ l.tables ∨ f ∈ l.arena) : f ∈ all := by
  refine h.frames.mem_iff.mp ?_
  simp only [List.mem_append]
  tauto

/-- The blocks of the heap lie in the arena. -/
theorem block_mem_arena (h : Balanced map total all l fs free live aside) {b : Run}
    (hb : b ∈ free ++ live) {a : VirtualAddress} (ha : a ∈ b) : map.frameAt a ∈ l.arena :=
  h.carved.tiles.mem_arena (List.mem_append_left _ hb) ha

/-- What lies outside of the arena is not in the header of a block. -/
theorem header_mem_arena (h : Balanced map total all l fs free live aside) {b : Run}
    (hb : b ∈ free ++ live) {a : VirtualAddress} (ha : a ∈ b.header) : map.frameAt a ∈ l.arena :=
  h.block_mem_arena hb (h.carved.header_subset (List.mem_append_left _ hb) ha)

/-- A heap that was carved out of frames of the stock holds its blocks apart from the free ones. -/
theorem of_carved (stock : Stock map all) (shared : l.system.Shared)
    (map_eq : l.system.store.frames.map = map) (total_eq : l.system.store.frames.total = total)
    (pool : l.system.store.frames.Holds l.system.ram fs)
    (carved : Carved map l.system.ram l.system.heap.list free live aside l.arena)
    (payloads : l.live = live.map fun b => payloadOf b.start)
    (forest : PageTree.Forest map l.system.ram l.roots l.tables)
    (frames : (fs ++ l.held ++ l.tables ++ l.arena).Perm all)
    (bytes : l.system.heap.arenaBytes = frameSize * l.arena.length)
    (aside_eq : map.frameAt .null ∉ all → aside = []) :
    Balanced map total all l fs free live aside := by
  have hn := frames.nodup_iff.mpr stock.nodup
  have harena := List.disjoint_of_nodup_append hn
  have hroom := stock.few
  rw [← frames.length_eq] at hroom
  simp only [List.disjoint_append_left, List.length_append] at harena hroom
  refine ⟨shared, map_eq, total_eq, ?_, payloads, forest, frames, bytes, aside_eq⟩
  rw [shared.heapStore_eq]
  exact ⟨pool, by rwa [map_eq], fun f hf hmem => harena.1.1 hf hmem, by omega⟩

/-- Memory that changes outside of the tables leaves the trees alone. -/
theorem forest_congr (h : Balanced map total all l fs free live aside) {n : Ram}
    {p : VirtualAddress → Prop} (hm : l.system.ram.OnlyChanges p n)
    (hp : ∀ a, p a → map.frameAt a ∉ l.tables) : PageTree.Forest map n l.roots l.tables :=
  h.forest.congr fun _ hg => PageTree.entryAt_congr hm fun a ha he => hp a ha (he ▸ hg)

end Balanced

/-- What is left of a list without its end. -/
theorem filter_notMem_right {xs ys : List Frame} (h : (xs ++ ys).Nodup) :
    (xs ++ ys).filter (fun f => f ∉ ys) = xs := by
  have hdisjoint := List.disjoint_of_nodup_append h
  rw [List.filter_append, List.filter_eq_self.mpr, List.filter_eq_nil_iff.mpr, List.append_nil]
  · simp
  · intro f hf
    simpa using fun hmem => hdisjoint hf hmem

namespace Balanced

/-! ## Frames that an operation takes -/

section

variable {taken rest : List Frame}

/-- What an operation took is missing from the list of the pool. -/
theorem gone_eq (h : Balanced map total all l (taken ++ rest) free live aside) {s : System}
    (hs : s.store.frames.Holds s.ram rest) : l.gone s = taken := by
  rw [gone, h.free_eq, hs.freeFrames_eq]
  exact filter_notMem_right h.pool.nodup

theorem frames_to_arena (h : Balanced map total all l (taken ++ rest) free live aside) :
    (rest ++ l.held ++ l.tables ++ (taken ++ l.arena)).Perm all := by
  refine .trans (List.perm_iff_count.mpr ?_) h.frames
  intro f
  simp only [List.count_append]
  omega

theorem frames_to_tables (h : Balanced map total all l (taken ++ rest) free live aside) :
    (rest ++ l.held ++ (taken ++ l.tables) ++ l.arena).Perm all := by
  refine .trans (List.perm_iff_count.mpr ?_) h.frames
  intro f
  simp only [List.count_append]
  omega

end

/-! ## Operations on the heap -/

theorem heaped (h : Balanced map total all l fs free live aside) (stock : Stock map all)
    {t : HeapStore} {own live' : List Run} (hown : own ⊆ free ++ live)
    (hadv : Heap.Advanced l.system.heapStore fs aside l.arena own live' t) :
    Next map total all (Heap.Within map fs own) l { l.heaped (l.system.setHeapStore t) with
      live := live'.map fun b => payloadOf b.start } := by
  obtain ⟨k, free', aside', hk, ht, hbytes, haside⟩ := hadv.moved
  have hstore := h.shared.store_setHeapStore t
  have hheap := h.shared.heap_setHeapStore t
  have hkernel : (l.system.setHeapStore t).paging.kernelMap = l.system.paging.kernelMap := by
    rw [h.shared.setHeapStore_eq]
    rfl
  have hram := h.shared.ram_setHeapStore t
  have hmap : t.store.frames.map = map := hadv.map.trans h.heap_map_eq
  have hpool : (l.system.setHeapStore t).store.frames.Holds (l.system.setHeapStore t).ram
      (fs.drop k) := by
    rw [hstore, hram]
    exact ht.pool
  -- the first `k` free frames went into the arena
  have htaken : Balanced map total all l (fs.take k ++ fs.drop k) free live aside := by
    rwa [List.take_append_drop]
  have hgone := htaken.gone_eq hpool
  obtain ⟨⟨-, hft, -⟩, -, hta⟩ := h.disjoint stock.nodup
  have hm : l.system.ram.OnlyChanges (Heap.Within map fs own) (l.system.setHeapStore t).ram := by
    have := hadv.ram
    rwa [h.ram_eq, h.store_eq, h.map_eq, ← hram] at this
  have hforest := h.forest_congr hm fun a ha hmem => by
    rcases ha with ha | ⟨b, hb, ha⟩
    · exact hft ha hmem
    · exact hta hmem (h.block_mem_arena (hown hb) ha)
  refine ⟨⟨fs.drop k, free', live', aside', of_carved stock (h.shared.setHeapStore t) ?_ ?_ hpool ?_
    rfl ?_ ?_ ?_ ?_⟩, hm⟩
  · exact (congrArg (fun s => s.frames.map) hstore).trans hmap
  · refine (congrArg (fun s => s.frames.total) hstore).trans ?_
    rw [hadv.total, h.store_eq, h.total_eq]
  · change Carved map (l.system.setHeapStore t).ram (l.system.setHeapStore t).heap.list _ _ _
      (l.gone (l.system.setHeapStore t) ++ l.arena)
    rw [hram, hheap, hgone, ← hmap]
    exact ht.carved.arena_perm ((List.reverse_perm _).append_right _)
  · change PageTree.Forest map (l.system.setHeapStore t).ram
      ((l.system.setHeapStore t).paging.kernelMap.root?.toList ++ _) l.tables
    rw [hkernel]
    exact hforest
  · change (fs.drop k ++ l.held ++ l.tables ++
      (l.gone (l.system.setHeapStore t) ++ l.arena)).Perm all
    rw [hgone]
    exact htaken.frames_to_arena
  · change (l.system.setHeapStore t).heap.arenaBytes =
      frameSize * (l.gone (l.system.setHeapStore t) ++ l.arena).length
    rw [hheap, hgone, hbytes, h.shared.heapStore_eq, h.bytes, List.length_append, List.length_take,
      Nat.min_eq_left hk, Nat.mul_add, Nat.mul_comm k, Nat.add_comm]
  · intro hnull
    refine (haside fun hmem => hnull ?_).trans (h.aside_eq hnull)
    rw [h.store_eq, h.map_eq] at hmem
    refine h.mem_all ?_
    rcases List.mem_append.mp hmem with hmem | hmem
    · exact .inl hmem
    · exact .inr (.inr (.inr hmem))

/-! ## Operations on page tables -/

theorem paged (h : Balanced map total all l fs free live aside) (stock : Stock map all)
    {t : PagingStore} {roots : List Frame} {trees : List PageMap}
    (ht : Paging.Rooted map total l.tables fs l.system.ram roots t)
    (hkernel : t.kernelMap.root?.toList ⊆ roots) (htrees : trees.map PageMap.root ⊆ roots) :
    Next map total all (fun a => map.frameAt a ∈ l.tables ++ fs) l
      { l.paged (l.system.setPaging t) with trees } := by
  obtain ⟨out, ⟨hmap, htotal, ⟨taken, rest, rfl, rfl, hrest⟩, hm⟩, hforest⟩ := ht
  have hstore := h.shared.store_setPaging t
  have hram : (l.system.setPaging t).ram = t.store.ram := rfl
  have hpool : (l.system.setPaging t).store.frames.Holds (l.system.setPaging t).ram rest := by
    rw [hstore, hram]
    exact hrest
  have hgone := h.gone_eq hpool
  obtain ⟨⟨-, -, hfa⟩, -, hta⟩ := h.disjoint stock.nodup
  refine ⟨⟨rest, free, live, aside, of_carved stock (h.shared.setPaging t) ?_ ?_ hpool ?_
    h.payloads ?_ ?_ h.bytes h.aside_eq⟩, hm⟩
  · exact (congrArg (fun s => s.frames.map) hstore).trans hmap
  · exact (congrArg (fun s => s.frames.total) hstore).trans htotal
  · change Carved map (l.system.setPaging t).ram _ _ _ _ _
    rw [hram]
    apply h.carved.congr hm
    intro b hb a ha hmem
    have harena := h.header_mem_arena hb ha
    rcases List.mem_append.mp hmem with hmem | hmem
    · exact hta hmem harena
    · exact hfa hmem harena
  · have hpaging := congrArg PagingStore.kernelMap (h.shared.paging_setPaging t)
    change PageTree.Forest map (l.system.setPaging t).ram
      ((l.system.setPaging t).paging.kernelMap.root?.toList ++ trees.map PageMap.root)
      (l.gone (l.system.setPaging t) ++ l.tables)
    rw [hram, hgone, hpaging]
    refine hforest.mono (List.append_subset.mpr ⟨hkernel, htrees⟩) ?_
    exact ((List.reverse_perm taken).append_right l.tables).subset
  · change (rest ++ l.held ++ (l.gone (l.system.setPaging t) ++ l.tables) ++ l.arena).Perm all
    rw [hgone]
    exact h.frames_to_tables

/-! ## Frames in the hands of direct callers -/

/-- Direct callers may change frames that they hold or take and frames that are free. -/
theorem stored (h : Balanced map total all l fs free live aside) (stock : Stock map all)
    {t : Store FramePool} {fs' held : List Frame} {p : VirtualAddress → Prop}
    (hmap : t.frames.map = map) (htotal : t.frames.total = total)
    (hpool : t.frames.Holds t.ram fs') (hm : l.system.ram.OnlyChanges p t.ram)
    (hp : ∀ a, p a → map.frameAt a ∈ fs ++ l.held) (hperm : (fs' ++ held).Perm (fs ++ l.held)) :
    Next map total all p l { l with system := l.system.setStore t, held } := by
  have hstore := h.shared.store_setStore t
  obtain ⟨⟨-, hft, hfa⟩, ⟨hht, hha⟩, -⟩ := h.disjoint stock.nodup
  refine ⟨⟨fs', free, live, aside, of_carved stock (h.shared.setStore t) ?_ ?_ ?_ ?_ h.payloads
    ?_ ?_ h.bytes h.aside_eq⟩, hm⟩
  · exact (congrArg (fun s => s.frames.map) hstore).trans hmap
  · exact (congrArg (fun s => s.frames.total) hstore).trans htotal
  · change (l.system.setStore t).store.frames.Holds t.ram _
    rwa [hstore]
  · apply h.carved.congr hm
    intro b hb a ha hpa
    have harena := h.header_mem_arena hb ha
    rcases List.mem_append.mp (hp a hpa) with hmem | hmem
    · exact hfa hmem harena
    · exact hha hmem harena
  · apply h.forest_congr hm
    intro a ha hmem
    rcases List.mem_append.mp (hp a ha) with ha | ha
    · exact hft ha hmem
    · exact hht ha hmem
  · refine .trans ?_ h.frames
    exact (hperm.append_right l.tables).append_right l.arena

/-! ## Writes by clients -/

/-- Clients may change what is neither free nor a table nor the header of a block. -/
theorem written (h : Balanced map total all l fs free live aside) {p : VirtualAddress → Prop}
    {m : Ram} (hm : l.system.ram.OnlyChanges p m)
    (hframes : ∀ a, p a → map.frameAt a ∉ fs ∧ map.frameAt a ∉ l.tables)
    (hheaders : ∀ b ∈ free ++ live, ∀ a ∈ b.header, ¬ p a) :
    Balanced map total all { l with system := { l.system with ram := m } } fs free live aside := by
  refine ⟨⟨h.shared.pool, h.shared.kernelMap, h.shared.heapPool⟩, h.map_eq, h.total_eq, ?_,
    h.payloads, h.forest_congr hm fun a ha => (hframes a ha).2, h.frames, h.bytes, h.aside_eq⟩
  refine h.heap.write (h.ram_eq.symm ▸ hm) ?_ hheaders
  intro a ha
  rw [h.store_eq, h.map_eq]
  exact (hframes a ha).1

/-- A payload in use belongs to a live block. -/
theorem exists_block (h : Balanced map total all l fs free live aside) {p : VirtualAddress}
    (hnull : p ≠ .null) (hp : p ∈ l.live) :
    ∃ b rest, p = payloadOf b.start ∧ live.Perm (b :: rest) ∧
      l.without p = rest.map fun b => payloadOf b.start := by
  obtain ⟨pre, post, -, hsplit, herase⟩ := List.exists_erase_eq hp
  rw [h.payloads] at hsplit
  obtain ⟨pre', rest', rfl, rfl, hrest⟩ := List.map_eq_append_iff.mp hsplit
  obtain ⟨b, post', rfl, rfl, rfl⟩ := List.map_eq_cons_iff.mp hrest
  refine ⟨b, pre' ++ post', rfl, List.perm_middle, ?_⟩
  rw [without, (Address.isNull_eq_false_iff _).mpr hnull, List.map_append, ← herase]
  rfl

end Balanced

end Ledger

end PagedMemory
