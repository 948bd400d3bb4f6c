import PagedMemory.Proofs.Heap.Allocation
/-!
# The operations of a heap

Setting up, growing, freeing, reallocating and the operations by layout, each described by
`Advanced`: what it does to the frames of the pool, to the blocks of the arena and to memory. None
of them faults.
-/
namespace PagedMemory

open FreeList

namespace Heap

variable {s t : HeapStore} {fs : List Frame} {free live aside : List Run} {arena : List Frame}
variable {size : Nat} {b : Run}

/-! ## Writing a payload -/

/-- Memory may change outside of the free frames and of the headers of blocks. -/
theorem Holds.write {p : VirtualAddress → Prop} {m : Ram} (h : Holds s fs free live aside arena)
    (hm : s.store.ram.OnlyChanges p m) (hframes : ∀ a, p a → s.store.frames.map.frameAt a ∉ fs)
    (hheaders : ∀ b ∈ free ++ live, ∀ a, a ∈ b.header → ¬ p a) :
    Holds { s with store := { s.store with ram := m } } fs free live aside arena :=
  ⟨h.pool.congr hm hframes, h.carved.congr hm hheaders, h.apart, h.room⟩

theorem mem_of_mem_payload (hb : headerSize ≤ b.length) (hlen : b.length < 2 ^ 64)
    {a : VirtualAddress} (ha : a ∈ b.drop headerSize) : a ∈ b :=
  (Run.mem_take_or_drop hb (Nat.le_of_lt hlen) a).mpr (.inr ha)

/-- The payload of a live block lies in the arena, and no header is in it. -/
theorem Holds.payload_mem_arena (h : Holds s fs free (b :: live) aside arena) {a : VirtualAddress}
    (ha : a ∈ b.drop headerSize) : s.store.frames.map.frameAt a ∈ arena := by
  have hb : b ∈ free ++ b :: live ++ aside := by simp
  exact h.carved.tiles.mem_arena hb
    (mem_of_mem_payload (h.carved.header_le hb) (h.carved.length_lt hb) ha)

theorem Holds.header_not_mem_payload (h : Holds s fs free (b :: live) aside arena) :
    ∀ c ∈ free ++ b :: live, ∀ a, a ∈ c.header → a ∉ b.drop headerSize := by
  have hb : b ∈ free ++ b :: live ++ aside := by simp
  have hlen := h.carved.length_lt hb
  have hmiddle := (List.perm_middle.pairwise_iff Run.Apart.symm).mp h.carved.blocks_apart
  intro c hc a ha hab
  rcases List.mem_cons.mp (List.perm_middle.mem_iff.mp hc) with rfl | hc'
  · exact Run.take_apart_drop (Nat.le_of_lt hlen) a ha hab
  · have hab' : a ∈ b := mem_of_mem_payload (h.carved.header_le hb) hlen hab
    refine (List.pairwise_cons.mp hmiddle).1 c hc' a hab' ?_
    exact h.carved.header_subset (List.mem_append_left _ hc) ha

/-- The payload of a live block may be written. -/
theorem Holds.write_payload {p : VirtualAddress → Prop} {m : Ram}
    (h : Holds s fs free (b :: live) aside arena) (hm : s.store.ram.OnlyChanges p m)
    (hp : ∀ a, p a → a ∈ b.drop headerSize) :
    Holds { s with store := { s.store with ram := m } } fs free (b :: live) aside arena :=
  h.write hm (fun a ha hf => h.apart _ hf (h.payload_mem_arena (hp a ha)))
    fun c hc a ha hpa => h.header_not_mem_payload c hc a ha (hp a hpa)

/-- The first bytes of the payload of a block, seen from the address of the payload. -/
theorem mem_payload {n : Nat} (hn : headerSize + n ≤ b.length) {a : VirtualAddress}
    (ha : (payloadOf b.start).distance a < n) : a ∈ b.drop headerSize := by
  have hsub : n ≤ b.length - headerSize := by omega
  exact Nat.lt_of_lt_of_le ha hsub

theorem Holds.live_perm (h : Holds s fs free live aside arena) {live' : List Run}
    (hp : live.Perm live') : Holds s fs free live' aside arena :=
  ⟨h.pool, h.carved.live_perm hp, h.apart, h.room⟩

/-! ## Blocks apart from each other -/

/-- Nothing of a live block is in a free frame or in a block apart from it. -/
theorem Holds.not_within (h : Holds s fs free live aside arena) {own : List Run} (hb : b ∈ live)
    (hown : ∀ c ∈ own, c.Apart b) {a : VirtualAddress} (ha : a ∈ b) :
    ¬ Within s.store.frames.map fs own a := by
  have hmem : b ∈ free ++ live ++ aside := by simp [hb]
  rintro (hf | ⟨c, hc, hac⟩)
  · exact h.apart _ hf (h.carved.tiles.mem_arena hmem ha)
  · exact hown c hc a hac ha

/-! ## Freeing -/

theorem Holds.releaseBlock {ε : Type} (h : Holds s fs free (b :: live) aside arena) :
    ∃ t, releaseBlock (ε := ε) (payloadOf b.start) s = .ok () t ∧ SameSetup s t ∧ SameCounts s t ∧
      Holds t fs (b :: free) live aside arena ∧
      s.store.ram.OnlyChanges (· ∈ b.header) t.store.ram := by
  obtain ⟨hcarved, hm⟩ := h.carved.release
  have hb : b ∈ free ++ b :: live ++ aside := by simp
  refine ⟨_, rfl, ⟨rfl, rfl, rfl⟩, ⟨rfl, rfl⟩, ⟨h.pool.congr hm ?_, hcarved, h.apart,
    h.room⟩, hm⟩
  intro a ha hf
  exact h.apart _ hf (h.carved.tiles.mem_arena hb (h.carved.header_subset hb ha))

/-- A block that is freed is the first one on the list. -/
theorem Holds.free_block (h : Holds s fs free (b :: live) aside arena)
    (hnull : payloadOf b.start ≠ .null) :
    ∃ t, Heap.free (payloadOf b.start) s = .ok () t ∧ SameSetup s t ∧ SameCounts s t ∧
      Holds t fs (b :: free) live aside arena ∧
      s.store.ram.OnlyChanges (· ∈ b.header) t.store.ram := by
  have hn := (Address.isNull_eq_false_iff _).mpr hnull
  obtain ⟨t, hrelease, ht⟩ := h.releaseBlock (ε := Fault)
  refine ⟨t, ?_, ht⟩
  rw [Heap.free, hn]
  exact hrelease

theorem Holds.advanced_of_free (h : Holds s fs free (b :: live) aside arena)
    (hnull : payloadOf b.start ≠ .null) :
    Ends (Heap.free (payloadOf b.start)) s (fun _ t => Advanced s fs aside arena [b] live t)
      (fun _ _ => False) := by
  obtain ⟨t, hfree, hs, hc, ht, hm⟩ := h.free_block hnull
  have hb : b ∈ free ++ b :: live ++ aside := by simp
  refine Ends.of_eq_ok hfree ⟨hs.map, hs.total, ⟨0, _, aside, Nat.zero_le _, ht, ?_, fun _ => rfl⟩,
    hm.mono fun a ha => ?_⟩
  · rw [hc.2, Nat.zero_mul, Nat.add_zero]
  · exact .inr ⟨b, List.mem_singleton_self b, h.carved.header_subset hb ha⟩

/-! ## Reallocating -/

theorem payloadSize_eq {m : Ram} (hsize : m.blockSize b.start = b.length)
    (hb : headerSize ≤ b.length) :
    payloadSize m (payloadOf b.start) = .ok (b.length - headerSize) := by
  rw [payloadSize, blockOf_payloadOf, hsize]
  exact if_pos hb

/-- Reallocating null is allocating. -/
theorem Holds.reallocate_null (h : Holds s fs free live aside arena) (size : Nat) :
    Ends (Heap.reallocate .null size) s (Allocated s fs free live aside arena size)
      (NotAllocated s fs free live aside arena size) := by
  rw [Heap.reallocate]
  exact Ends.bind (h.allocate size) fun p t ht => ht

/-- What moving the first bytes of a payload into another block leads to: the block that had them is
the first free one, and the other one has them. -/
structure HandedOver (s t : HeapStore) (fs : List Frame) (free : List Run) (b c : Run)
    (live aside : List Run) (arena : List Frame) (n : Nat) : Prop where
  setup : SameSetup s t
  counts : SameCounts s t
  holds : Holds t fs (b :: free) (c :: live) aside arena
  ram : s.store.ram.OnlyChanges (fun a => a ∈ c ∨ a ∈ b) t.store.ram
  contents : ∀ i < n,
    t.store.ram.read (payloadOf c.start + i) = s.store.ram.read (payloadOf b.start + i)

/-- The header that is written last is in neither payload. -/
theorem Holds.hand_over {ε : Type} {c : Run} {n : Nat}
    (h : Holds s fs free (c :: b :: live) aside arena) (hn : headerSize + n ≤ c.length) :
    ∃ t, Heap.releaseBlock (ε := ε) (payloadOf b.start)
        { s with store := { s.store with
          ram := s.store.ram.copy (payloadOf b.start) (payloadOf c.start) n } } = .ok () t ∧
      HandedOver s t fs free b c live aside arena n := by
  have hb : b ∈ free ++ c :: b :: live ++ aside := by simp
  have hclen := h.carved.length_lt (b := c) (by simp)
  have hlen : n ≤ 2 ^ 64 := by omega
  have hinside : ∀ a, (payloadOf c.start).distance a < n → a ∈ c := fun a ha =>
    mem_of_mem_payload (by omega) hclen (mem_payload hn ha)
  have hcopy := s.store.ram.onlyChanges_copy (payloadOf b.start) (payloadOf c.start) hlen
  have hv := (h.write_payload hcopy fun a ha => mem_payload hn ha).live_perm (.swap b c live)
  obtain ⟨t, hrelease, hs, hcounts, ht, hm⟩ := hv.releaseBlock (ε := ε)
  refine ⟨t, hrelease, ⟨hs.map, hs.total, hs.attached⟩, ⟨hcounts.1, hcounts.2⟩, ht, ?_, ?_⟩
  · exact (hcopy.mono fun a ha => .inl (hinside a ha)).trans
      (hm.mono fun a ha => .inr (h.carved.header_subset hb ha))
  · intro i hi
    have hmem : payloadOf c.start + i ∈ c := hinside _ (by rwa [Address.distance_add _ (by omega)])
    have hheader : payloadOf c.start + i ∉ b.header := fun ha =>
      ht.carved.free_apart_live List.mem_cons_self b List.mem_cons_self _
        (h.carved.header_subset hb ha) hmem
    exact (hm _ hheader).trans (Ram.read_copy_add _ _ _ hlen hi)

/-- What reallocating a payload leads to: its block is the first free one, and a new one has as much
of the contents as fits. -/
structure Moved (s : HeapStore) (fs : List Frame) (free live aside : List Run) (arena : List Frame)
    (b : Run) (size : Nat) (q : VirtualAddress) (t : HeapStore) : Prop where
  provided : Provided s fs aside arena (b :: free) live size q t
  freed : (t.heap.list.runs t.store.ram).head? = some b
  contents : ∀ i < min (b.length - headerSize) size,
    t.store.ram.read (q + i) = s.store.ram.read (payloadOf b.start + i)

theorem reallocate_of_allocate {p q : VirtualAddress} {old : Nat} {u : HeapStore} (hp : p ≠ .null)
    (hrun : Heap.allocate size s = .ok q u) (hold : payloadSize u.store.ram p = .ok old)
    (hrelease : Heap.releaseBlock (ε := Stop HeapError) p
      { u with store := { u.store with ram := u.store.ram.copy p q (min old size) } } = .ok () t) :
    Heap.reallocate p size s = .ok q t := by
  have hends : Ends (Heap.reallocate p size) s (fun q' t' => q' = q ∧ t' = t) fun _ _ => False := by
    rw [Heap.reallocate]
    refine Ends.bind_of_ok hrun ?_
    simp only [(Address.isNull_eq_false_iff p).mpr hp, Bool.false_eq_true, if_false,
      Ends.get_bind_iff, hold, Ends.check_ok_bind_iff]
    refine Ends.bind_of_ok (onStore_of_ok (show Store.updateRam _ u.store = .ok () _ from rfl)) ?_
    exact Ends.bind_of_ok hrelease ⟨rfl, rfl⟩
  obtain ⟨_, _, hreallocate, rfl, rfl⟩ := hends.exists_ok
  exact hreallocate

/-- Moving a payload fails as allocating the new block does. -/
theorem reallocate_of_error {stop : Stop HeapError} (h : Heap.allocate size s = .error stop t)
    (p : VirtualAddress) : Heap.reallocate p size s = .error stop t := by
  simp only [Heap.reallocate, bind, EStateM.bind, h]

/-- Once there is a new block, moving the contents there and freeing the old block cannot fail. -/
theorem Holds.moves_of_allocate (h : Holds s fs free (b :: live) aside arena)
    (hnull : payloadOf b.start ≠ .null) {q : VirtualAddress} {u : HeapStore}
    (hrun : Heap.allocate size s = .ok q u) :
    ∃ t, Heap.reallocate (payloadOf b.start) size s = .ok q t ∧
      Moved s fs free live aside arena b size q t := by
  obtain ⟨c, payload, rfl, hp, hc, hwithin, hadv⟩ := ((h.allocate size).of_ok hrun).provided
  obtain ⟨k, free', aside', hk, hu, hbytes, haside⟩ := hadv.moved
  have hbmem : b ∈ free' ++ c :: b :: live ++ aside' := by simp
  have hhead := hu.carved.header_le hbmem
  have hsize := payloadSize_eq (hu.carved.recorded b (by simp)) hhead
  have hle : headerSize + min (b.length - headerSize) size ≤ c.length := by
    have := le_of_payloadFor hp
    omega
  obtain ⟨t, hrelease, ht⟩ := hu.hand_over (ε := Stop HeapError) hle
  refine ⟨t, reallocate_of_allocate hnull hrun hsize hrelease, ?_⟩
  have hown : ∀ a, Within s.store.frames.map fs free a →
      Within s.store.frames.map fs (b :: free) a :=
    fun a ha => ha.mono (List.subset_cons_self b free)
  constructor
  case provided =>
    refine ⟨c, payload, rfl, hp, hc, fun a ha => hown a (hwithin a ha), ht.setup.map.trans hadv.map,
      ht.setup.total.trans hadv.total,
      ⟨k, _, aside', hk, ht.holds, ht.counts.2.trans hbytes, haside⟩,
      (hadv.ram.mono hown).trans (ht.ram.mono ?_)⟩
    rintro a (ha | ha)
    · exact hown a (hwithin a ha)
    · exact .inr ⟨b, List.mem_cons_self, ha⟩
  case freed =>
    rw [ht.holds.carved.runs_eq]
    rfl
  case contents =>
    intro i hi
    have hi' : headerSize + (i + 1) ≤ b.length := by omega
    have hblen := hu.carved.length_lt hbmem
    have hmem : payloadOf b.start + i ∈ b := by
      refine mem_of_mem_payload hhead hblen (mem_payload hi' ?_)
      rw [Address.distance_add _ (by omega)]
      exact Nat.lt_succ_self i
    -- taking the new block leaves the old one alone
    have hold := h.not_within List.mem_cons_self (h.carved.free_apart_live List.mem_cons_self) hmem
    exact (ht.contents i hi).trans (hadv.ram _ hold)

/-- The block of a payload that is reallocated becomes free once the new one has its contents; if
there is no new one it stays live. -/
theorem Holds.moves_block (h : Holds s fs free (b :: live) aside arena)
    (hnull : payloadOf b.start ≠ .null) (size : Nat) :
    Ends (Heap.reallocate (payloadOf b.start) size) s (Moved s fs free live aside arena b size)
      (NotAllocated s fs free (b :: live) aside arena size) := by
  cases hrun : Heap.allocate size s with
  | ok q u =>
    obtain ⟨t, hreallocate, ht⟩ := h.moves_of_allocate hnull hrun
    exact Ends.of_eq_ok hreallocate ht
  | error stop u =>
    exact Ends.of_eq_error (reallocate_of_error hrun _) ((h.allocate size).of_error hrun)

/-- A payload is moved just in case as much could be allocated, and to where that would be. -/
theorem Holds.reallocate_eq_ok_iff (h : Holds s fs free (b :: live) aside arena)
    (hnull : payloadOf b.start ≠ .null) (size : Nat) (q : VirtualAddress) :
    (∃ t, Heap.reallocate (payloadOf b.start) size s = .ok q t) ↔
      ∃ t, Heap.allocate size s = .ok q t := by
  cases hrun : Heap.allocate size s with
  | ok p u =>
    obtain ⟨t, hreallocate, -⟩ := h.moves_of_allocate hnull hrun
    simp [hreallocate]
  | error stop u => simp [reallocate_of_error hrun _]

theorem Holds.reallocate_block (h : Holds s fs free (b :: live) aside arena)
    (hnull : payloadOf b.start ≠ .null) (size : Nat) :
    Ends (Heap.reallocate (payloadOf b.start) size) s
      (fun q t => Provided s fs aside arena (b :: free) live size q t)
      (NotAllocated s fs free (b :: live) aside arena size) :=
  (h.moves_block hnull size).mono (fun _ _ ht => ht.provided) fun _ _ ht => ht

/-! ## Growing and setting up -/

theorem Advanced.with_log {own : List Run} (h : Advanced s fs aside arena own live t) (log : Log) :
    Advanced s fs aside arena own live { t with store := { t.store with log } } := by
  obtain ⟨k, free', aside', hk, ht, hbytes, haside⟩ := h.moved
  exact ⟨h.map, h.total, ⟨k, free', aside', hk, ⟨ht.pool, ht.carved, ht.apart, ht.room⟩, hbytes,
    haside⟩, h.ram⟩

theorem Advanced.live_perm {own : List Run} (h : Advanced s fs aside arena own live t)
    {live' : List Run} (hp : live.Perm live') : Advanced s fs aside arena own live' t := by
  obtain ⟨k, free', aside', hk, ht, hbytes, haside⟩ := h.moved
  exact ⟨h.map, h.total, ⟨k, free', aside', hk, ht.live_perm hp, hbytes, haside⟩, h.ram⟩

theorem Holds.advanced_of_expand (h : Holds s fs free live aside arena) (n : Nat) :
    Ends (Heap.expand n) s (fun _ t => Advanced s fs aside arena free live t)
      (fun _ _ => False) := by
  cases hattached : s.heap.attached with
  | false => exact Ends.of_eq_ok (expand_of_not_attached hattached n) (h.advanced free)
  | true =>
    obtain ⟨t, hexpand, ht⟩ := h.expand hattached n
    exact Ends.of_eq_ok hexpand (ht.advanced (Nat.min_le_right _ _) free)

theorem Holds.advanced_of_init (h : Holds s fs free live aside arena) (bytes : Nat) :
    Ends (Heap.init bytes) s (fun _ t => Advanced s fs aside arena free live t)
      (fun stop t => stop = .error .alreadyInitialized ∧ t = s) := by
  rw [Heap.init]
  cases hattached : s.heap.attached with
  | true =>
    simp only [Ends.get_bind_iff, hattached, if_true, Ends.fail_bind_iff]
    exact ⟨trivial, trivial⟩
  | false =>
    simp only [Ends.get_bind_iff, hattached, Bool.false_eq_true, if_false, Ends.modify_bind_iff]
    have hset : Holds { s with heap := { s.heap with attached := true } } fs free live aside arena :=
      ⟨h.pool, h.carved, h.apart, h.room⟩
    split
    · rw [Ends.pure_iff]
      exact ⟨rfl, rfl, (hset.advanced free).moved, .refl _ _⟩
    · obtain ⟨t, hexpand, ht⟩ := hset.expand rfl ((bytes + (frameSize - 1)) / frameSize)
      have hadv := ht.advanced (Nat.min_le_right _ _) free
      have hlog : ∀ log,
          Advanced s fs aside arena free live { t with store := { t.store with log } } :=
        fun log => ⟨hadv.map, hadv.total, (hadv.with_log log).moved, hadv.ram⟩
      refine Ends.bind_of_ok (Op.ofStep_of_ok hexpand) ?_
      split
      · exact hlog _
      · exact hlog _

/-! ## By layout -/

/-- What a request for `size` bytes leads to that may be refused without an error. -/
def Served (s : HeapStore) (fs : List Frame) (aside : List Run) (arena : List Frame)
    (own live kept : List Run) (size : Nat) : Option VirtualAddress → HeapStore → Prop
  | some p, t => Provided s fs aside arena own live size p t
  | none, t => Advanced s fs aside arena own kept t

theorem Holds.served_of_allocLayout (h : Holds s fs free live aside arena) (layout : Layout) :
    Ends (allocLayout layout) s (Served s fs aside arena free live live layout.size)
      (fun _ _ => False) := by
  rw [allocLayout]
  split
  · refine Ends.toOption ((h.allocate layout.size).mono (fun p t ht => ht.provided) ?_)
    intro stop t ht
    obtain ⟨⟨e, rfl⟩, hadv⟩ := ht.advanced h free
    exact hadv
  · exact h.advanced free

/-- Clearing a fresh payload touches nothing but that payload. -/
theorem Holds.served_of_allocZeroed (h : Holds s fs free live aside arena) (layout : Layout) :
    Ends (allocZeroed layout) s (Served s fs aside arena free live live layout.size)
      (fun _ _ => False) := by
  rw [allocZeroed]
  refine Ends.bind (h.served_of_allocLayout layout) ?_
  rintro (_ | p) u hu
  · exact hu
  · obtain ⟨b, payload, rfl, hp, hb, hwithin, hadv⟩ := hu
    obtain ⟨k, free', aside', hk, hu, hbytes, haside⟩ := hadv.moved
    have hle : headerSize + layout.size ≤ b.length := by
      have := le_of_payloadFor hp
      omega
    have hfill := u.store.ram.onlyChanges_fill (payloadOf b.start) layout.size 0
    have ht := hu.write_payload hfill fun a ha => mem_payload hle ha
    refine Ends.bind_of_ok (onStore_of_ok (show Store.updateRam _ u.store = .ok () _ from rfl)) ?_
    refine ⟨b, payload, rfl, hp, hb, hwithin, hadv.map, hadv.total,
      ⟨k, free', aside', hk, ht, hbytes, haside⟩, hadv.ram.trans (hfill.mono ?_)⟩
    intro a ha
    have hlen := hu.carved.length_lt (b := b) (by simp)
    exact hwithin a (mem_of_mem_payload (by omega) hlen (mem_payload hle ha))

theorem Holds.served_of_reallocLayout_null (h : Holds s fs free live aside arena)
    (layout : Layout) (size : Nat) :
    Ends (reallocLayout .null layout size) s (Served s fs aside arena free live live size)
      (fun _ _ => False) := by
  rw [reallocLayout]
  split
  · refine Ends.toOption ((h.reallocate_null size).mono (fun p t ht => ht.provided) ?_)
    intro stop t ht
    obtain ⟨⟨e, rfl⟩, hadv⟩ := ht.advanced h free
    exact hadv
  · exact h.advanced free

theorem Holds.served_of_reallocLayout (h : Holds s fs free (b :: live) aside arena)
    (hnull : payloadOf b.start ≠ .null) (layout : Layout) (size : Nat) :
    Ends (reallocLayout (payloadOf b.start) layout size) s
      (Served s fs aside arena (b :: free) live (b :: live) size) (fun _ _ => False) := by
  rw [reallocLayout]
  split
  · refine Ends.toOption ((h.reallocate_block hnull size).mono (fun q t ht => ht) ?_)
    intro stop t ht
    obtain ⟨⟨e, rfl⟩, hadv⟩ := ht.advanced h (b :: free)
    exact hadv
  · exact h.advanced (b :: free)

end Heap

end PagedMemory
