import PagedMemory.Proofs.Heap.Arena
import PagedMemory.Proofs.Ownership.Growth
import PagedMemory.Proofs.Ownership.Tiling
/-!
# Moving a payload

A payload that is reallocated gets a new block, which may be cut from a free one beside the old block
or from frames that the heap just took. Either way the two are apart, so the copy reads what the
client had written, and the link that then goes into the old header is in nobody's payload. If there is
no new block, nothing that is in use has changed.
-/
namespace PagedMemory

open FreeList

/-- What is asked of the heap of a system is answered as the heap by itself answers it. -/
theorem System.onHeap_eq_ok_iff {ε α : Type} {x : EStateM ε HeapStore α} {s : System} {a : α} :
    (∃ t, System.onHeap x s = .ok a t) ↔ ∃ t, x s.heapStore = .ok a t := by
  rw [System.onHeap, onPart]
  cases x s.heapStore <;> simp

namespace Heap

variable {s t : HeapStore} {fs : List Frame} {live aside own : List Run} {arena : List Frame}
variable {map : DirectMap} {size : Nat} {q : VirtualAddress}

/-- Reallocating null is allocating. -/
theorem reallocate_null (size : Nat) : reallocate .null size = allocate size := by
  rw [reallocate]
  exact bind_pure (allocate size)

/-- The block of a request that was served, among the others of the heap. -/
theorem Provided.exists_block (h : Provided s fs aside arena own live size q t) :
    ∃ c free' k aside', q = payloadOf c.start ∧ Ledger.blockAround t.store.ram q = c ∧
      c.length = headerSize + roundUp (max size 1) heapAlign ∧
      Advanced s fs aside arena own (c :: live) t ∧
      Holds t (fs.drop k) free' (c :: live) aside' ((fs.take k).reverse ++ arena) := by
  obtain ⟨c, payload, rfl, hp, hc, -, hadv⟩ := h
  obtain ⟨k, free', aside', -, ht, -⟩ := hadv.moved
  refine ⟨c, free', k, aside', rfl, ?_, ?_, hadv, ht⟩
  · rw [Ledger.blockAround, blockOf_payloadOf, ht.carved.recorded c List.mem_cons_self]
  · rw [hc, (payloadFor?_eq_some hp).1]
    rfl

theorem heapAlign_le_roundUp (size : Nat) : heapAlign ≤ roundUp (max size 1) heapAlign := by
  simp only [roundUp, heapAlign]
  omega

end Heap

namespace Ledger

variable {map : DirectMap} {total : Nat} {all fs : List Frame} {l : Ledger}
variable {free live aside own rest : List Run} {b : Run} {size : Nat} {p q : VirtualAddress}

/-- The bytes of a payload, as many as the header in front of it records. -/
def payloadAround (m : Ram) (p : VirtualAddress) : Run := (blockAround m p).drop headerSize

theorem payloadAround_start (m : Ram) (p : VirtualAddress) : (payloadAround m p).start = p :=
  Run.payloadOf_blockOf p

/-- The size and the bytes of a payload are what they were. -/
structure SamePayload (m n : Ram) (p : VirtualAddress) : Prop where
  block : blockAround n p = blockAround m p
  bytes : ∀ a ∈ payloadAround m p, n.read a = m.read a

/-- What has become of a payload that was moved, and of all others. -/
structure Relocated (map : DirectMap) (l : Ledger) (p : VirtualAddress) (size : Nat)
    (q : VirtualAddress) (l' : Ledger) : Prop where
  live : l'.live = q :: l.live.erase p
  payload : payloadAround l'.system.ram q = ⟨q, Heap.roundUp (max size 1) heapAlign⟩
  /-- The bytes are aligned in physical memory, whatever the offset of the direct map. -/
  dvd_physical : heapAlign ∣ (map.toPhysical q).toNat
  /-- The new block has nothing in common with those that were in use, the old one among them, nor
  with those that are free now. -/
  apart : ∀ b ∈ l.liveBlocks ++ l'.freeBlocks, b.Apart (blockAround l'.system.ram q)
  contents : ∀ i < min (payloadAround l.system.ram p).length size,
    l'.system.ram.read (q + i) = l.system.ram.read (p + i)
  others : ∀ o ∈ l.live, o ≠ p → SamePayload l.system.ram l'.system.ram o
  /-- The old block is the first free one, as large as it was. -/
  freed : l'.freeBlocks.head? = some (blockAround l.system.ram p)

/-- An address at which a payload can be: it has the alignment of the heap and is not taken for a
refusal. -/
structure Placed (q : VirtualAddress) : Prop where
  dvd : heapAlign ∣ q.toNat
  ne_null : q ≠ .null

/-- A request for another payload was refused: the payloads in use are what they were. -/
structure Refused (l l' : Ledger) : Prop where
  live : l'.live = l.live
  payloads : ∀ o ∈ l.live, SamePayload l.system.ram l'.system.ram o
  apart : ∀ b ∈ l'.freeBlocks, ∀ o ∈ l.live, b.Apart (blockAround l'.system.ram o)

/-- What has become of a payload that was to be moved. -/
def Answered (map : DirectMap) (l : Ledger) (p : VirtualAddress) (size : Nat) :
    Option VirtualAddress → Ledger → Prop
  | some q, l' => Relocated map l p size q l'
  | none, l' => Refused l l'

namespace Balanced

/-- What changes in free frames and in some blocks changes no payload in another block. -/
theorem samePayload (h : Balanced map total all l fs free live aside) {m : Ram}
    (hm : l.system.ram.OnlyChanges (Heap.Within map fs own) m) (hb : b ∈ live)
    (hown : ∀ c ∈ own, c.Apart b) : SamePayload l.system.ram m (payloadOf b.start) := by
  have hmem : b ∈ free ++ live ++ aside := by simp [hb]
  have hnot : ∀ a ∈ b, ¬ Heap.Within map fs own a := fun a ha => by
    have := h.heap.not_within hb hown ha
    rwa [h.heap_map_eq] at this
  constructor
  case block =>
    have hsize := Ram.blockSize_congr hm fun a ha => hnot a (h.carved.header_subset hmem ha)
    rw [blockAround, blockAround, blockOf_payloadOf, hsize]
  case bytes =>
    intro a ha
    rw [payloadAround, h.blockAround_eq hb] at ha
    exact hm a (hnot a (Heap.mem_of_mem_payload (h.carved.header_le hmem) (h.carved.length_lt hmem) ha))

theorem ram_of_advanced (h : Balanced map total all l fs free live aside) {t : HeapStore}
    {live' : List Run} (ht : Heap.Advanced l.system.heapStore fs aside l.arena own live' t) :
    l.system.ram.OnlyChanges (Heap.Within map fs own) (l.system.setHeapStore t).ram := by
  have := ht.ram
  rwa [h.ram_eq, h.heap_map_eq, ← h.shared.ram_setHeapStore] at this

/-- A payload that the heap provides has at least one byte, and none of its frames is that of null. -/
theorem ne_null_of_provided (h : Balanced map total all l fs free live aside)
    (stock : Stock map all) (hmap : frameSize ∣ map.offset.toNat) {t : HeapStore}
    {live' : List Run}
    (ht : Heap.Provided l.system.heapStore fs aside l.arena own live' size q t) : q ≠ .null := by
  have hnone := stock.frameAt_null_notMem hmap
  obtain ⟨c, free', k, aside', rfl, -, hc, hadv, ht⟩ := ht.exists_block
  have hround := Heap.heapAlign_le_roundUp size
  have hmem : c ∈ free' ++ c :: live' ++ aside' := by simp
  have hinside : payloadOf c.start ∈ c := by
    refine Heap.mem_of_mem_payload (ht.carved.header_le hmem) (ht.carved.length_lt hmem) ?_
    exact Heap.mem_payload (n := heapAlign) (by omega) (by simp; decide)
  have harena := Heap.taken_subset k fs l.arena (ht.carved.tiles.mem_arena hmem hinside)
  rw [hadv.map, h.heap_map_eq, List.mem_append] at harena
  intro hnull
  rw [hnull] at harena
  exact hnone (h.mem_all (harena.imp_right fun harena => .inr (.inr harena)))

theorem refused_of_advanced (h : Balanced map total all l fs free live aside) {t : HeapStore}
    (others : List VirtualAddress)
    (ht : Heap.Advanced l.system.heapStore fs aside l.arena free live t) :
    Refused l (l.served others (none, l.system.setHeapStore t)) := by
  have hm := h.ram_of_advanced ht
  have hkept : ∀ b ∈ live,
      SamePayload l.system.ram (l.system.setHeapStore t).ram (payloadOf b.start) := fun b hb =>
    h.samePayload hm hb (h.carved.free_apart_live hb)
  obtain ⟨k, free', aside', -, ht, -⟩ := ht.moved
  constructor
  case live => rfl
  case payloads =>
    rw [h.payloads]
    exact List.forall_mem_map.mpr hkept
  case apart =>
    rw [freeBlocks_served, system_served, h.payloads, h.shared.runs_setHeapStore, ht.carved.runs_eq]
    intro c hc
    refine List.forall_mem_map.mpr fun b hb => ?_
    rw [(hkept b hb).block, h.blockAround_eq hb]
    exact ht.carved.free_apart_live hb c hc

/-- The payload of a block that was provided has the alignment of the heap. -/
theorem shaped_payload (h : Balanced map total all l fs free live aside) {t : HeapStore}
    {live' : List Run}
    (ht : Heap.Provided l.system.heapStore fs aside l.arena own live' size q t) :
    (payloadAround t.store.ram q).Shaped map := by
  obtain ⟨c, free', k, aside', rfl, hblock, hc, hadv, ht⟩ := ht.exists_block
  have hround := Heap.heapAlign_le_roundUp size
  have hshape := ht.carved.tiles.shaped c (by simp)
  rw [hadv.map, h.heap_map_eq] at hshape
  rw [payloadAround, hblock]
  refine hshape.drop ?_ (by decide)
  simp only [heapAlign, headerSize] at *
  omega

theorem placed_of_allocate (h : Balanced map total all l fs free live aside) (stock : Stock map all)
    (hmap : frameSize ∣ map.offset.toNat) {t : System}
    (hrun : System.onHeap (Heap.allocate size) l.system = .ok q t) : Placed q := by
  have hends : Ends (System.onHeap (Heap.allocate size)) l.system (fun q _ => Placed q)
      fun _ _ => True := by
    refine Ends.onPart ((h.heap.allocate size).mono ?_ fun _ _ _ => trivial)
    intro q t ht
    have hshape := h.shaped_payload ht.provided
    have hdvd := hshape.dvd_toNat_start (Nat.dvd_trans (by decide) hmap)
    rw [payloadAround_start] at hdvd
    exact ⟨hdvd, h.ne_null_of_provided stock hmap ht.provided⟩
  exact hends.of_ok hrun

theorem relocated_of_moved (h : Balanced map total all l fs free live aside)
    (hperm : live.Perm (b :: rest)) (hnull : payloadOf b.start ≠ .null) {t : HeapStore}
    (ht : Heap.Moved l.system.heapStore fs free rest aside l.arena b size q t) :
    Relocated map l (payloadOf b.start) size q
      (l.served (l.without (payloadOf b.start)) (some q, l.system.setHeapStore t)) := by
  have hb : b ∈ live := hperm.mem_iff.mpr List.mem_cons_self
  have hheap := h.heap.live_perm hperm
  have hshape := h.shaped_payload ht.provided
  have hfreed := ht.freed
  obtain ⟨c, free', k, aside', hq, hblock, hc, hadv, hafter⟩ := ht.provided.exists_block
  have hm := h.ram_of_advanced hadv
  have hpayload : payloadAround t.store.ram q =
      ⟨q, Heap.roundUp (max size 1) heapAlign⟩ := by
    rw [payloadAround, hblock, Run.drop, hc, Nat.add_sub_cancel_left, hq]
    rfl
  rw [hpayload] at hshape
  rw [hafter.carved.runs_eq] at hfreed
  have hfree := hafter.carved.free_apart_live (b := c) List.mem_cons_self
  constructor
  case live =>
    rw [without, (Address.isNull_eq_false_iff _).mpr hnull]
    rfl
  case payload => rw [system_served, h.shared.ram_setHeapStore, hpayload]
  case dvd_physical => exact hshape.dvd_start
  case apart =>
    rw [freeBlocks_served, system_served, h.shared.runs_setHeapStore, h.shared.ram_setHeapStore,
      hafter.carved.runs_eq, hblock, h.liveBlocks_eq]
    refine List.forall_mem_append.mpr ⟨fun d hd => ?_, hfree⟩
    rcases List.mem_cons.mp (hperm.mem_iff.mp hd) with rfl | hd
    · exact hfree d (List.mem_of_mem_head? hfreed)
    · exact (hafter.carved.live_apart d hd).symm
  case contents =>
    rw [system_served, h.shared.ram_setHeapStore, payloadAround, h.blockAround_eq hb, ← h.ram_eq]
    exact ht.contents
  case others =>
    rw [h.payloads, system_served]
    refine List.forall_mem_map.mpr fun d hd hother => ?_
    have hrest : d ∈ rest := (List.mem_cons.mp (hperm.mem_iff.mp hd)).resolve_left
      fun heq => hother (heq ▸ rfl)
    exact h.samePayload hm hd
      (List.forall_mem_cons.mpr ⟨hheap.carved.live_apart d hrest, h.carved.free_apart_live hd⟩)
  case freed =>
    rw [freeBlocks_served, h.shared.runs_setHeapStore, hafter.carved.runs_eq, h.blockAround_eq hb,
      hfreed]

theorem refused_of_notAllocated (h : Balanced map total all l fs free live aside)
    (hperm : live.Perm rest) {stop : Stop HeapError} {t : HeapStore}
    (others : List VirtualAddress)
    (ht : Heap.NotAllocated l.system.heapStore fs free rest aside l.arena size stop t) :
    (∃ e, stop = .error e) ∧ Refused l (l.served others (none, l.system.setHeapStore t)) := by
  obtain ⟨hstop, hadv⟩ := ht.advanced (h.heap.live_perm hperm) free
  exact ⟨hstop, h.refused_of_advanced others (hadv.live_perm hperm.symm)⟩

/-- A payload in use is moved, or the request is refused with an error. -/
theorem answered_of_reallocate (h : Balanced map total all l fs free live aside)
    (hp : p ∈ l.live) (hnull : p ≠ .null) (size : Nat) :
    Ends (System.onHeap (Heap.reallocate p size)) l.system
      (fun q t => Answered map l p size (some q) (l.served (l.without p) (some q, t)))
      fun stop t => (∃ e, stop = .error e) ∧
        Answered map l p size none (l.served (l.without p) (none, t)) := by
  obtain ⟨b, rest, rfl, hperm, -⟩ := h.exists_block hnull hp
  refine Ends.onPart (((h.heap.live_perm hperm).moves_block hnull size).mono ?_ ?_)
  · exact fun q t ht => h.relocated_of_moved hperm hnull ht
  · exact fun stop t ht => h.refused_of_notAllocated hperm _ ht

/-- By layout, a request is refused without an error; it always is if the heap cannot serve the
alignment. -/
theorem answered_of_reallocLayout (h : Balanced map total all l fs free live aside)
    (hp : p ∈ l.live) (hnull : p ≠ .null) (layout : Layout) (size : Nat) :
    Ends (System.onHeap (Heap.reallocLayout p layout size)) l.system
      (fun q t => Answered map l p size q (l.served (l.without p) (q, t))) fun _ _ => False := by
  obtain ⟨b, rest, rfl, hperm, -⟩ := h.exists_block hnull hp
  refine Ends.onPart ?_
  rw [Heap.reallocLayout]
  split
  · refine Ends.toOption (((h.heap.live_perm hperm).moves_block hnull size).mono ?_ ?_)
    · exact fun q t ht => h.relocated_of_moved hperm hnull ht
    · intro stop t ht
      obtain ⟨⟨e, rfl⟩, hrefused⟩ := h.refused_of_notAllocated hperm
        (l.without (payloadOf b.start)) ht
      exact hrefused
  · exact h.refused_of_advanced _ (h.heap.advanced free)

/-- It is moved just in case as much could be allocated, and to where that would be. -/
theorem reallocate_eq_ok_iff (h : Balanced map total all l fs free live aside) (hp : p ∈ l.live)
    (hnull : p ≠ .null) (size : Nat) (q : VirtualAddress) :
    (∃ t, System.onHeap (Heap.reallocate p size) l.system = .ok q t) ↔
      ∃ t, System.onHeap (Heap.allocate size) l.system = .ok q t := by
  obtain ⟨b, rest, rfl, hperm, -⟩ := h.exists_block hnull hp
  rw [System.onHeap_eq_ok_iff, System.onHeap_eq_ok_iff]
  exact (h.heap.live_perm hperm).reallocate_eq_ok_iff hnull size q

theorem reallocLayout_eq_ok_iff (h : Balanced map total all l fs free live aside) (hp : p ∈ l.live)
    (hnull : p ≠ .null) (layout : Layout) (size : Nat) (q : VirtualAddress) :
    (∃ t, System.onHeap (Heap.reallocLayout p layout size) l.system = .ok (some q) t) ↔
      layout.isServed = true ∧ ∃ t, System.onHeap (Heap.allocate size) l.system = .ok q t := by
  rw [← h.reallocate_eq_ok_iff hp hnull, System.onHeap_eq_ok_iff, System.onHeap_eq_ok_iff,
    Heap.reallocLayout]
  cases layout.isServed with
  | false => simp [pure, EStateM.pure]
  | true =>
    simp only [if_true, true_and, Op.toOption]
    rcases Heap.reallocate p size l.system.heapStore with ⟨_, _⟩ | ⟨_ | _, _⟩ <;> simp

/-- So a payload is placed where it is moved to. -/
theorem placed_of_reallocate (h : Balanced map total all l fs free live aside)
    (stock : Stock map all) (hmap : frameSize ∣ map.offset.toNat) (hp : p ∈ l.live)
    (hnull : p ≠ .null) {t : System}
    (hrun : System.onHeap (Heap.reallocate p size) l.system = .ok q t) : Placed q := by
  obtain ⟨u, hallocate⟩ := (h.reallocate_eq_ok_iff hp hnull size q).mp ⟨t, hrun⟩
  exact h.placed_of_allocate stock hmap hallocate

theorem placed_of_reallocLayout (h : Balanced map total all l fs free live aside)
    (stock : Stock map all) (hmap : frameSize ∣ map.offset.toNat) (hp : p ∈ l.live)
    (hnull : p ≠ .null) {layout : Layout} {t : System}
    (hrun : System.onHeap (Heap.reallocLayout p layout size) l.system = .ok (some q) t) :
    Placed q := by
  obtain ⟨-, u, hallocate⟩ := (h.reallocLayout_eq_ok_iff hp hnull layout size q).mp ⟨t, hrun⟩
  exact h.placed_of_allocate stock hmap hallocate

end Balanced

end Ledger

end PagedMemory
