import PagedMemory.Proofs.Ownership.Partition
/-!
# What a refused request takes

A request for a block of memory that is refused should take nothing, and the heap does count the
free frames before it grows. Still it grows in vain if they are enough in number but do not join to
a run that is long enough. Then the frames stay in the heap; in all other cases nothing changes.
-/
namespace PagedMemory

namespace System

/-- Neither the frames that are free nor the heap have changed, as far as they can be told. -/
structure Untouched (s t : System) : Prop where
  freeFrames : t.store.frames.freeFrames t.ram = s.store.frames.freeFrames s.ram
  free : t.store.frames.free = s.store.frames.free
  freeBlocks : t.heap.list.runs t.ram = s.heap.list.runs s.ram
  freeBytes : t.heap.freeBytes t.ram = s.heap.freeBytes s.ram
  expansions : t.heap.expansions = s.heap.expansions
  arenaBytes : t.heap.arenaBytes = s.heap.arenaBytes

end System

namespace Ledger

/-- The requests for a block of memory: for a fresh one, or for one in place of a payload. -/
inductive Asks (l : Ledger) (size : Nat) : Op HeapError System VirtualAddress → Prop
  | allocate : Asks l size (System.onHeap (Heap.allocate size))
  | reallocate {p : VirtualAddress} (hp : p = .null ∨ p ∈ l.live) :
    Asks l size (System.onHeap (Heap.reallocate p size))

/-- A request that would have the heap grow in vain. -/
def Scattered (l : Ledger) (size : Nat) : Prop :=
  Heap.Scattered l.system.store.frames.map l.free l.freeBlocks size

variable {map : DirectMap} {total : Nat} {all fs : List Frame} {l : Ledger}
variable {free live aside : List Run} {size : Nat}

namespace Balanced

/-- Growing by some frames takes them off the list, and growing by none changes nothing. -/
theorem untouched_iff (h : Balanced map total all l fs free live aside) {t : HeapStore} {k : Nat}
    {kept : List Run} (hk : k ≤ fs.length)
    (ht : Heap.Grew l.system.heapStore t k fs free kept aside l.arena) :
    l.system.Untouched (l.system.setHeapStore t) ↔ k = 0 := by
  have hstore := h.shared.store_setHeapStore t
  have hram := h.shared.ram_setHeapStore t
  have hheap := h.shared.heap_setHeapStore t
  have hfree : t.store.frames.freeFrames t.store.ram = fs.drop k := ht.holds.pool.freeFrames_eq
  have hold := h.heap_eq
  constructor
  · intro hsame
    -- the list of free frames is shorter by those that were taken
    have hframes := hsame.freeFrames
    rw [hstore, hram, hfree] at hframes
    have hlength := congrArg List.length (hframes.trans h.free_eq)
    rw [List.length_drop] at hlength
    omega
  · intro hzero
    subst hzero
    have hruns : t.heap.list.runs t.store.ram = free := ht.holds.carved.runs_eq
    have hsum := FreeList.freeBytes_eq_sum t.heap.list t.store.ram
    have hsum' := FreeList.freeBytes_eq_sum l.system.heap.list l.system.ram
    rw [hruns] at hsum
    rw [h.carved.runs_eq] at hsum'
    have hexpansions := ht.expansions
    have hbytes := ht.arenaBytes
    rw [hold] at hexpansions hbytes
    refine ⟨?_, ?_, ?_, ?_, ?_, ?_⟩
    · rw [hstore, hram, hfree]
      exact h.free_eq.symm
    · rw [hstore, ht.holds.pool.free, h.pool.free]
      rfl
    · rw [hheap, hram, hruns]
      exact h.freeBlocks_eq.symm
    · rw [hheap, hram, Heap.freeBytes, Heap.freeBytes, hsum, hsum']
    · rw [hheap]
      exact hexpansions
    · rw [hheap, hbytes, Nat.zero_mul, Nat.add_zero]

theorem scattered_eq (h : Balanced map total all l fs free live aside) (size : Nat) :
    l.Scattered size ↔ Heap.Scattered l.system.heapStore.store.frames.map fs free size := by
  rw [Scattered, h.free_eq, h.freeBlocks_eq, h.store_eq]

/-- A refusal for want of memory leaves all as it was just in case the request is not scattered. -/
theorem untouched_iff_of_notAllocated (h : Balanced map total all l fs free live aside)
    {kept : List Run} {requested : Nat} {t : HeapStore}
    (hn : Heap.NotAllocated l.system.heapStore fs free kept aside l.arena size
      (.error (.outOfMemory requested)) t) :
    l.system.Untouched (l.system.setHeapStore t) ↔ ¬ l.Scattered size := by
  have hcases := hn
  rcases hcases with ⟨hstop, -⟩ | ⟨-, hattached, hgrew, -⟩
  · cases hstop
  · rw [h.scattered_eq, ← hn.scattered_iff hattached, not_not]
    exact h.untouched_iff (Heap.framesTaken_le fs.length free size) hgrew

/-- How a request for a block of memory ends. -/
theorem asks_ends (h : Balanced map total all l fs free live aside)
    {x : Op HeapError System VirtualAddress} (hx : l.Asks size x) :
    Ends x l.system (fun _ _ => True) fun stop t =>
      ∀ requested, stop = .error (.outOfMemory requested) →
        (l.system.Untouched t ↔ ¬ l.Scattered size) := by
  have hfail : ∀ {kept : List Run} {stop : Stop HeapError} {t : HeapStore},
      Heap.NotAllocated l.system.heapStore fs free kept aside l.arena size stop t →
      ∀ requested, stop = .error (.outOfMemory requested) →
        (l.system.Untouched (l.system.setHeapStore t) ↔ ¬ l.Scattered size) := by
    intro kept stop t hn requested hstop
    exact h.untouched_iff_of_notAllocated (hstop ▸ hn)
  cases hx with
  | allocate =>
    refine Ends.onPart ?_
    exact (h.heap.allocate size).mono (fun _ _ _ => trivial) fun _ _ hn => hfail hn
  | @reallocate p hp =>
    refine Ends.onPart ?_
    by_cases hnull : p = .null
    · subst hnull
      exact (h.heap.reallocate_null size).mono (fun _ _ _ => trivial) fun _ _ hn => hfail hn
    · obtain ⟨b, rest, hb, hperm, -⟩ := h.exists_block hnull (hp.resolve_left hnull)
      subst hb
      exact ((h.heap.live_perm hperm).reallocate_block hnull size).mono (fun _ _ _ => trivial)
        fun _ _ hn => hfail hn

/-- A scattered request is refused. -/
theorem refused_of_scattered (h : Balanced map total all l fs free live aside)
    (hattached : l.system.heap.attached = true) (hscattered : l.Scattered size)
    {x : Op HeapError System VirtualAddress} (hx : l.Asks size x) :
    ∃ t, x l.system = .error (.error (.outOfMemory size)) t := by
  have hmap := (h.scattered_eq size).mp hscattered
  have hrefused : ∃ t, Heap.allocate size l.system.heapStore =
      .error (.error (.outOfMemory size)) t := by
    have hends := h.heap.allocate size
    cases hrun : Heap.allocate size l.system.heapStore with
    | ok p t => exact absurd hmap (hends.of_ok hrun).not_scattered
    | error stop t =>
      rcases hends.of_error hrun with ⟨-, hdetached, -⟩ | ⟨hstop, -⟩
      · rw [h.shared.heapStore_eq] at hdetached
        exact nomatch hattached.symm.trans hdetached
      · subst hstop
        exact ⟨t, rfl⟩
  obtain ⟨t, hallocate⟩ := hrefused
  refine ⟨l.system.setHeapStore t, ?_⟩
  cases hx with
  | allocate => rw [System.onHeap, onPart, hallocate]
  | reallocate hp => rw [System.onHeap, onPart, Heap.reallocate_of_error hallocate]

end Balanced

/-- In whatever state a heap and its pool are, a request for a block of memory that is refused for
want of it takes nothing, unless it is scattered. A scattered one is always refused, and it takes
something. -/
theorem untouched_iff_not_scattered {memoryMaps : List (List Region)} {m : Ram} {log : Log}
    (hn : (memoryMaps.flatten.filter Region.isUsable).Pairwise
      fun r r' => r.frames.toList.Disjoint r'.frames.toList)
    {requests : List Request} (hq : (filled map memoryMaps m log).PermitsAll requests)
    {x : Op HeapError System VirtualAddress}
    (hx : ((filled map memoryMaps m log).performAll requests).Asks size x) :
    let l := (filled map memoryMaps m log).performAll requests
    (∀ requested t, x l.system = .error (.error (.outOfMemory requested)) t →
        (l.system.Untouched t ↔ ¬ l.Scattered size)) ∧
      (l.system.heap.attached = true → l.Scattered size →
        ∃ t, x l.system = .error (.error (.outOfMemory size)) t) := by
  intro l
  obtain ⟨stock, hstart⟩ := sound_filled map (Region.nodup_wholeFrames hn) m log
  obtain ⟨fs, free, live, aside, h⟩ := hstart.performAll stock hq
  refine ⟨?_, ?_⟩
  · intro requested t hrun
    exact (h.asks_ends hx).of_error hrun requested rfl
  · intro hattached hscattered
    exact h.refused_of_scattered hattached hscattered hx

/-- Three frames with gaps in between. -/
def threeRegions : List Region :=
  [⟨⟨0x900000001000⟩, 0x1000, .usable⟩, ⟨⟨0x900000003000⟩, 0x1000, .usable⟩,
    ⟨⟨0x900000005000⟩, 0x1000, .usable⟩]

theorem untouched_iff_not_scattered_three_regions :
    let start := filled ⟨0xffff800000000000⟩ [threeRegions] (.uniform 0xcc) (.empty none)
    let l := start.performAll [.initHeap 0]
    let x := System.onHeap (Heap.allocate 8000)
    (([threeRegions].flatten.filter Region.isUsable).Pairwise
        fun r r' => r.frames.toList.Disjoint r'.frames.toList) ∧
      start.PermitsAll [.initHeap 0] ∧ l.Asks 8000 x ∧
      (∀ requested t, x l.system = .error (.error (.outOfMemory requested)) t →
        (l.system.Untouched t ↔ ¬ l.Scattered 8000)) ∧
      (l.system.heap.attached = true → l.Scattered 8000 →
        ∃ t, x l.system = .error (.error (.outOfMemory 8000)) t) := by
  have hn : ([threeRegions].flatten.filter Region.isUsable).Pairwise
      fun r r' => r.frames.toList.Disjoint r'.frames.toList := by
    change List.Pairwise (fun r r' : Region => ∀ f ∈ r.frames.toList, f ∉ r'.frames.toList) _
    decide
  have hq : (filled ⟨0xffff800000000000⟩ [threeRegions] (.uniform 0xcc) (.empty none)).PermitsAll
      [.initHeap 0] := by decide
  exact ⟨hn, hq, .allocate, untouched_iff_not_scattered hn hq .allocate⟩

/-- A heap without memory over three frames with gaps in between takes all of them and still refuses
a request that two adjacent ones would serve. -/
theorem not_untouched_three_regions :
    let l := (filled ⟨0xffff800000000000⟩ [threeRegions] (.uniform 0xcc) (.empty none)).performAll
      [.initHeap 0]
    ∃ t, System.onHeap (Heap.allocate 8000) l.system = .error (.error (.outOfMemory 8000)) t ∧
      ¬ l.system.Untouched t := by
  have hends : Ends (System.onHeap (Heap.allocate 8000))
      ((filled ⟨0xffff800000000000⟩ [threeRegions] (.uniform 0xcc) (.empty none)).performAll
        [.initHeap 0]).system (fun _ _ => False)
      (fun stop t => stop = .error (.outOfMemory 8000) ∧
        t.heap.expansions ≠ ((filled ⟨0xffff800000000000⟩ [threeRegions] (.uniform 0xcc)
          (.empty none)).performAll [.initHeap 0]).system.heap.expansions) := by
    decide +kernel
  obtain ⟨stop, t, hrun, hstop, hgrew⟩ := hends.exists_error
  subst hstop
  exact ⟨t, hrun, fun hsame => hgrew hsame.expansions⟩

end Ledger

end PagedMemory
