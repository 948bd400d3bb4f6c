import PagedMemory.Heap.Layout
import PagedMemory.Proofs.Endings
import PagedMemory.Proofs.Heap.Growth
/-!
# Allocating and freeing

What each operation of a heap does to the blocks of the arena and to the frames of the pool. An
allocation takes the first block that is large enough. It grows the heap before that only if there
is no such block and the pool has enough frames; what it then took stays in the heap even if the
frames do not join to a block that is large enough.
-/
namespace PagedMemory

open FreeList

namespace Heap

variable {s t : HeapStore} {fs : List Frame} {free live aside : List Run} {arena : List Frame}
variable {map : DirectMap} {size payload : Nat}

/-! ## Sizes -/

theorem payloadFor?_eq_some (h : payloadFor? size = some payload) :
    payload = (max size 1 + 15) / 16 * 16 ∧ payload < 2 ^ 64 := by
  rw [payloadFor?] at h
  by_cases hlt : roundUp (max size 1) heapAlign < 2 ^ 64
  · rw [if_pos hlt] at h
    cases h
    exact ⟨rfl, hlt⟩
  · rw [if_neg hlt] at h
    cases h

theorem dvd_of_payloadFor (h : payloadFor? size = some payload) : heapAlign ∣ payload := by
  rw [(payloadFor?_eq_some h).1]
  exact Dvd.intro_left _ rfl

theorem le_of_payloadFor (h : payloadFor? size = some payload) : max size 1 ≤ payload := by
  have := (payloadFor?_eq_some h).1
  omega

theorem framesFor_pos (payload : Nat) : 0 < framesFor payload := by
  simp only [framesFor, headerSize, frameSize]
  omega

/-! ## Taking a block -/

theorem Holds.takeBlock_of_small {ε : Type} (h : Holds s fs free live aside arena)
    (hsmall : ∀ b ∈ free, b.length < headerSize + payload) :
    takeBlock? (ε := ε) payload s = .ok none s := by
  simp [takeBlock?, bind, EStateM.bind, get, getThe, MonadStateOf.get, EStateM.get,
    take?_of_small h.carved.linked hsmall, pure, EStateM.pure]

/-- What taking the first `payload` bytes and a header from a free block leads to. -/
structure Took (s t : HeapStore) (payload : Nat) (fs : List Frame) (pre : List Run) (b : Run)
    (post live aside : List Run) (arena : List Frame) : Prop where
  setup : SameSetup s t
  counts : SameCounts s t
  holds : Holds t fs (pre ++ remainder (headerSize + payload) b post)
    (b.take (headerSize + payload) :: live) (lost (headerSize + payload) b post ++ aside) arena
  ram : s.store.ram.OnlyChanges (fun a => ∃ c ∈ pre ++ [b], a ∈ c) t.store.ram

theorem Holds.takeBlock_of_fit {ε : Type} {pre post : List Run} {b : Run}
    (h : Holds s fs (pre ++ b :: post) live aside arena) (hd : heapAlign ∣ payload)
    (hsmall : ∀ c ∈ pre, c.length < headerSize + payload) (hb : headerSize + payload ≤ b.length) :
    ∃ t, takeBlock? (ε := ε) payload s = .ok (some (payloadOf b.start)) t ∧
      Took s t payload fs pre b post live aside arena := by
  obtain ⟨m, list, htake, hcarved, hm⟩ := h.carved.take hd hsmall hb
  refine ⟨{ s with heap := { s.heap with list }, store := { s.store with ram := m } }, ?_,
    ⟨rfl, rfl, rfl⟩, ⟨rfl, rfl⟩, ⟨h.pool.congr hm ?_, hcarved, h.apart, h.room⟩, hm⟩
  · simp [takeBlock?, bind, EStateM.bind, get, getThe, MonadStateOf.get, EStateM.get, htake,
      setMemory, modify, modifyGet, MonadStateOf.modifyGet, EStateM.modifyGet, pure, EStateM.pure]
  · rintro a ⟨c, hc, ha⟩ hf
    refine h.apart _ hf (h.carved.tiles.mem_arena (b := c) ?_ ha)
    rcases List.mem_append.mp hc with hc | hc
    · simp [hc]
    · simp [List.mem_singleton.mp hc]

/-! ## Allocating -/

section allocate

variable {p : VirtualAddress} {u : HeapStore}

theorem allocate_of_detached (h : s.heap.attached = false) (size : Nat) :
    allocate size s = .error (.error .notInitialized) s := by
  simp [allocate, bind, EStateM.bind, get, getThe, MonadStateOf.get, EStateM.get, h, Op.fail, throw,
    throwThe, MonadExceptOf.throw, EStateM.throw]

theorem allocate_of_overflow (h : s.heap.attached = true) (hp : payloadFor? size = none) :
    allocate size s = .error (.error (.outOfMemory size)) s := by
  simp [allocate, bind, EStateM.bind, get, getThe, MonadStateOf.get, EStateM.get, h, hp, Op.fail,
    throw, throwThe, MonadExceptOf.throw, EStateM.throw]

theorem allocate_of_taken (h : s.heap.attached = true) (hp : payloadFor? size = some payload)
    (ht : takeBlock? (ε := Stop HeapError) payload s = .ok (some p) t) :
    allocate size s = .ok p t := by
  simp [allocate, bind, EStateM.bind, get, getThe, MonadStateOf.get, EStateM.get, h, hp, ht, pure,
    EStateM.pure]

theorem allocate_of_few (h : s.heap.attached = true) (hp : payloadFor? size = some payload)
    (ht : takeBlock? (ε := Stop HeapError) payload s = .ok none s)
    (hfew : s.store.frames.free < framesFor payload) :
    ∃ log, allocate size s =
      .error (.error (.outOfMemory size)) { s with store := { s.store with log } } := by
  refine ⟨s.store.log.add .debug fun _ =>
    "heap needs " ++ (framesFor payload).repr ++ " frames for " ++ size.repr ++ " bytes, " ++
      s.store.frames.free.repr ++ " free", ?_⟩
  simp [allocate, bind, EStateM.bind, get, getThe, MonadStateOf.get, EStateM.get, h, hp, ht, hfew,
    onStore, onPart, Store.logLine, modify, modifyGet, MonadStateOf.modifyGet, EStateM.modifyGet,
    Op.fail, throw, throwThe, MonadExceptOf.throw, EStateM.throw]

/-- With enough frames the outcome is decided by the blocks after the heap has grown. -/
theorem allocate_of_expand {got : Nat} {found : Option VirtualAddress} (h : s.heap.attached = true)
    (hp : payloadFor? size = some payload)
    (ht : takeBlock? (ε := Stop HeapError) payload s = .ok none s)
    (henough : framesFor payload ≤ s.store.frames.free)
    (he : expand (max (framesFor payload) heapExpandPages) s = .ok got t) (hgot : got ≠ 0)
    (ht' : takeBlock? (ε := Stop HeapError) payload t = .ok found u) :
    allocate size s = match found with
      | some p => .ok p u
      | none => .error (.error (.outOfMemory size)) u := by
  cases found <;>
    simp [allocate, bind, EStateM.bind, get, getThe, MonadStateOf.get, EStateM.get, h, hp, ht,
      Nat.not_lt.mpr henough, Op.ofStep, EStateM.adaptExcept, he, hgot, ht', pure, EStateM.pure,
      Op.fail, throw, throwThe, MonadExceptOf.throw, EStateM.throw]

end allocate

/-- How many frames a request takes from a pool: none if a free block is large enough or if the pool
has too few. -/
def framesTaken (frames : Nat) (free : List Run) (size : Nat) : Nat :=
  match payloadFor? size with
  | none => 0
  | some payload =>
    if (∃ b ∈ free, headerSize + payload ≤ b.length) ∨ frames < framesFor payload then 0
    else min (max (framesFor payload) heapExpandPages) frames

theorem framesTaken_le (frames : Nat) (free : List Run) (size : Nat) :
    framesTaken frames free size ≤ frames := by
  rw [framesTaken]
  split
  · exact Nat.zero_le frames
  · split
    · exact Nat.zero_le frames
    · exact Nat.min_le_right _ _

theorem framesTaken_of_overflow (frames : Nat) (free : List Run) (h : payloadFor? size = none) :
    framesTaken frames free size = 0 := by
  rw [framesTaken, h]

theorem framesTaken_of_fit {b : Run} (frames : Nat) (h : payloadFor? size = some payload)
    (hb : b ∈ free) (hfit : headerSize + payload ≤ b.length) :
    framesTaken frames free size = 0 := by
  simp only [framesTaken, h]
  exact if_pos (.inl ⟨b, hb, hfit⟩)

theorem framesTaken_of_few {frames : Nat} (free : List Run) (h : payloadFor? size = some payload)
    (hfew : frames < framesFor payload) : framesTaken frames free size = 0 := by
  simp only [framesTaken, h]
  exact if_pos (.inr hfew)

theorem framesTaken_of_enough {frames : Nat} (h : payloadFor? size = some payload)
    (hsmall : ∀ b ∈ free, b.length < headerSize + payload) (henough : framesFor payload ≤ frames) :
    framesTaken frames free size = min (max (framesFor payload) heapExpandPages) frames := by
  simp only [framesTaken, h]
  refine if_neg ?_
  rintro (⟨b, hb, hfit⟩ | hfew)
  · exact absurd (hsmall b hb) (Nat.not_lt.mpr hfit)
  · exact absurd henough (Nat.not_le.mpr hfew)

/-- The free blocks once a request has grown the heap as far as it does. -/
def grownBlocks (map : DirectMap) (fs : List Frame) (free : List Run) (size : Nat) : List Run :=
  (Run.ofFrames map (fs.take (framesTaken fs.length free size))).reverse ++ free

/-- How an allocation may succeed: after growing by some frames, or none, the first block that is
large enough is taken. -/
def Allocated (s : HeapStore) (fs : List Frame) (free live aside : List Run) (arena : List Frame)
    (size : Nat) (p : VirtualAddress) (t : HeapStore) : Prop :=
  ∃ payload pre b post u, payloadFor? size = some payload ∧ p = payloadOf b.start ∧
    grownBlocks s.store.frames.map fs free size = pre ++ b :: post ∧
    (∀ c ∈ pre, c.length < headerSize + payload) ∧ headerSize + payload ≤ b.length ∧
    Grew s u (framesTaken fs.length free size) fs free live aside arena ∧
    Took u t payload (fs.drop (framesTaken fs.length free size)) pre b post live aside
      ((fs.take (framesTaken fs.length free size)).reverse ++ arena)

/-- How an allocation may fail: the heap is not set up, or it has no block that is large enough even
after growing. It keeps what it took. -/
def NotAllocated (s : HeapStore) (fs : List Frame) (free live aside : List Run)
    (arena : List Frame) (size : Nat) (stop : Stop HeapError) (t : HeapStore) : Prop :=
  (stop = .error .notInitialized ∧ s.heap.attached = false ∧ t = s) ∨
    (stop = .error (.outOfMemory size) ∧ s.heap.attached = true ∧
      Grew s t (framesTaken fs.length free size) fs free live aside arena ∧
      ∀ payload, payloadFor? size = some payload →
        ∀ b ∈ grownBlocks s.store.frames.map fs free size, b.length < headerSize + payload)

/-- A block that is large enough is taken without growing. -/
theorem Holds.allocate_of_fit {pre post : List Run} {b : Run}
    (h : Holds s fs (pre ++ b :: post) live aside arena) (hattached : s.heap.attached = true)
    (hp : payloadFor? size = some payload) (hpre : ∀ c ∈ pre, c.length < headerSize + payload)
    (hb : headerSize + payload ≤ b.length) :
    Ends (Heap.allocate size) s (Allocated s fs (pre ++ b :: post) live aside arena size)
      (NotAllocated s fs (pre ++ b :: post) live aside arena size) := by
  have hmem : b ∈ pre ++ b :: post := List.mem_append_right pre List.mem_cons_self
  have hk := framesTaken_of_fit fs.length hp hmem hb
  obtain ⟨t, htake, ht⟩ := h.takeBlock_of_fit (ε := Stop HeapError) (dvd_of_payloadFor hp) hpre hb
  apply Ends.of_eq_ok (allocate_of_taken hattached hp htake)
  refine ⟨payload, pre, b, post, s, hp, rfl, ?_, hpre, hb, ?_, ?_⟩
  · rw [grownBlocks, hk]
    rfl
  · rw [hk]
    exact Grew.none h s.store.log
  · rw [hk]
    exact ht

/-- With too few frames the heap does not grow. -/
theorem Holds.allocate_of_few (h : Holds s fs free live aside arena)
    (hattached : s.heap.attached = true) (hp : payloadFor? size = some payload)
    (hsmall : ∀ b ∈ free, b.length < headerSize + payload)
    (hfew : fs.length < framesFor payload) :
    Ends (Heap.allocate size) s (Allocated s fs free live aside arena size)
      (NotAllocated s fs free live aside arena size) := by
  have hk := framesTaken_of_few free hp hfew
  have htake := h.takeBlock_of_small (ε := Stop HeapError) hsmall
  obtain ⟨log, hfail⟩ := Heap.allocate_of_few hattached hp htake (h.pool.free ▸ hfew)
  apply Ends.of_eq_error hfail
  refine .inr ⟨rfl, hattached, ?_, ?_⟩
  · rw [hk]
    exact Grew.none h log
  · intro payload' hp'
    cases hp.symm.trans hp'
    rw [grownBlocks, hk]
    exact hsmall

/-- With enough frames it grows, and the blocks after that decide. -/
theorem Holds.allocate_of_enough (h : Holds s fs free live aside arena)
    (hattached : s.heap.attached = true) (hp : payloadFor? size = some payload)
    (hsmall : ∀ b ∈ free, b.length < headerSize + payload)
    (henough : framesFor payload ≤ fs.length) :
    Ends (Heap.allocate size) s (Allocated s fs free live aside arena size)
      (NotAllocated s fs free live aside arena size) := by
  have hk := framesTaken_of_enough hp hsmall henough
  have htake := h.takeBlock_of_small (ε := Stop HeapError) hsmall
  obtain ⟨u, hexpand, hu⟩ := h.expand hattached (max (framesFor payload) heapExpandPages)
  have hgot : min (max (framesFor payload) heapExpandPages) fs.length ≠ 0 := by
    have := framesFor_pos payload
    omega
  have hfree : framesFor payload ≤ s.store.frames.free := h.pool.free ▸ henough
  rw [← hk] at hexpand hu hgot
  rcases exists_first_fit (headerSize + payload) (grownBlocks s.store.frames.map fs free size) with
    hsmall' | ⟨pre, b, post, hsplit, hpre, hb⟩
  · have htake' := hu.holds.takeBlock_of_small (ε := Stop HeapError) hsmall'
    apply Ends.of_eq_error (allocate_of_expand hattached hp htake hfree hexpand hgot htake')
    refine .inr ⟨rfl, hattached, hu, ?_⟩
    intro payload' hp'
    cases hp.symm.trans hp'
    exact hsmall'
  · have hblocks := hu.holds
    rw [← grownBlocks, hsplit] at hblocks
    obtain ⟨t, htake', ht⟩ :=
      hblocks.takeBlock_of_fit (ε := Stop HeapError) (dvd_of_payloadFor hp) hpre hb
    apply Ends.of_eq_ok (allocate_of_expand hattached hp htake hfree hexpand hgot htake')
    exact ⟨payload, pre, b, post, u, hp, rfl, hsplit, hpre, hb, hu, ht⟩

theorem Holds.allocate (h : Holds s fs free live aside arena) (size : Nat) :
    Ends (allocate size) s (Allocated s fs free live aside arena size)
      (NotAllocated s fs free live aside arena size) := by
  cases hattached : s.heap.attached with
  | false => exact Ends.of_eq_error (allocate_of_detached hattached size) (.inl ⟨rfl, hattached, rfl⟩)
  | true =>
    cases hp : payloadFor? size with
    | none =>
      have hk := framesTaken_of_overflow fs.length free hp
      apply Ends.of_eq_error (allocate_of_overflow hattached hp)
      refine .inr ⟨rfl, hattached, ?_, ?_⟩
      · rw [hk]
        exact Grew.none h s.store.log
      · intro payload hp'
        exact nomatch hp.symm.trans hp'
    | some payload =>
      rcases exists_first_fit (headerSize + payload) free with
        hsmall | ⟨pre, b, post, rfl, hpre, hb⟩
      · rcases Nat.lt_or_ge fs.length (framesFor payload) with hfew | henough
        · exact h.allocate_of_few hattached hp hsmall hfew
        · exact h.allocate_of_enough hattached hp hsmall henough
      · exact h.allocate_of_fit hattached hp hpre hb

/-- A request that passes the count of the free frames, although no free block is large enough and
the frames that the heap would take do not join to a run that is. -/
def Scattered (map : DirectMap) (fs : List Frame) (free : List Run) (size : Nat) : Prop :=
  ∃ payload, payloadFor? size = some payload ∧ (∀ b ∈ free, b.length < headerSize + payload) ∧
    framesFor payload ≤ fs.length ∧
    ∀ r ∈ Run.ofFrames map (fs.take (max (framesFor payload) heapExpandPages)),
      r.length < headerSize + payload

/-- A scattered request takes frames, and none of the blocks that it gets is large enough. -/
theorem Scattered.grown (h : Scattered map fs free size) :
    framesTaken fs.length free size ≠ 0 ∧ ∃ payload, payloadFor? size = some payload ∧
      ∀ b ∈ grownBlocks map fs free size, b.length < headerSize + payload := by
  obtain ⟨payload, hp, hsmall, henough, hruns⟩ := h
  have hk := framesTaken_of_enough hp hsmall henough
  have hpos := framesFor_pos payload
  refine ⟨by omega, payload, hp, ?_⟩
  intro b hb
  rw [grownBlocks, hk, ← List.take_eq_take_min] at hb
  rcases List.mem_append.mp hb with hb | hb
  · exact hruns b (List.mem_reverse.mp hb)
  · exact hsmall b hb

/-- A request that is refused took frames just in case it is scattered. -/
theorem NotAllocated.scattered_iff {stop : Stop HeapError}
    (h : NotAllocated s fs free live aside arena size stop t) (hattached : s.heap.attached = true) :
    framesTaken fs.length free size ≠ 0 ↔ Scattered s.store.frames.map fs free size := by
  refine ⟨?_, fun h => h.grown.1⟩
  intro hk
  rcases h with ⟨-, hdetached, -⟩ | ⟨-, -, -, hsmall⟩
  · exact nomatch hattached.symm.trans hdetached
  · cases hp : payloadFor? size with
    | none => exact absurd (framesTaken_of_overflow fs.length free hp) hk
    | some payload =>
      have hfree : ∀ b ∈ free, b.length < headerSize + payload := fun b hb =>
        hsmall payload hp b (List.mem_append_right _ hb)
      have henough : framesFor payload ≤ fs.length :=
        Nat.not_lt.mp fun hfew => hk (framesTaken_of_few free hp hfew)
      refine ⟨payload, hp, hfree, henough, fun r hr => hsmall payload hp r ?_⟩
      rw [List.take_eq_take_min, ← framesTaken_of_enough hp hfree henough] at hr
      exact List.mem_append_left _ (List.mem_reverse.mpr hr)

/-- A request that is served is not scattered. -/
theorem Allocated.not_scattered {p : VirtualAddress}
    (h : Allocated s fs free live aside arena size p t) :
    ¬ Scattered s.store.frames.map fs free size := by
  intro hscattered
  obtain ⟨payload, pre, b, post, u, hp, -, hsplit, -, hb, -, -⟩ := h
  obtain ⟨-, payload', hp', hsmall⟩ := hscattered.grown
  cases hp.symm.trans hp'
  refine absurd (hsmall b ?_) (Nat.not_lt.mpr hb)
  rw [hsplit]
  exact List.mem_append_right pre List.mem_cons_self

/-! ## What every operation leads to -/

/-- The addresses that an operation may write: those in free frames and those in its own blocks. -/
def Within (map : DirectMap) (fs : List Frame) (own : List Run) (a : VirtualAddress) : Prop :=
  map.frameAt a ∈ fs ∨ ∃ b ∈ own, a ∈ b

theorem Within.mono {own own' : List Run} {a : VirtualAddress} (h : Within map fs own a)
    (hown : own ⊆ own') : Within map fs own' a :=
  h.imp_right fun ⟨b, hb, ha⟩ => ⟨b, hown hb, ha⟩

/-- The blocks that a request may take from lie in free frames and in free blocks. -/
theorem within_of_mem_grownBlocks {c : Run} (hc : c ∈ grownBlocks map fs free size)
    {a : VirtualAddress} (ha : a ∈ c) : Within map fs free a := by
  rcases List.mem_append.mp hc with hc | hc
  · have hrun := Run.frameAt_mem_of_mem_ofFrames (List.mem_reverse.mp hc) ha
    exact .inl (List.mem_of_mem_take hrun)
  · exact .inr ⟨c, hc, ha⟩

/-- What every operation leads to: frames from the front of the pool's list became part of the
arena, which is tiled around the blocks that are live now. Memory has changed in free frames and in
the operation's own blocks only. -/
structure Advanced (s : HeapStore) (fs : List Frame) (aside : List Run) (arena : List Frame)
    (own live : List Run) (t : HeapStore) : Prop where
  map : t.store.frames.map = s.store.frames.map
  total : t.store.frames.total = s.store.frames.total
  moved : ∃ k free aside', k ≤ fs.length ∧
    Holds t (fs.drop k) free live aside' ((fs.take k).reverse ++ arena) ∧
    t.heap.arenaBytes = s.heap.arenaBytes + k * frameSize ∧
    (s.store.frames.map.frameAt .null ∉ fs ++ arena → aside' = aside)
  ram : s.store.ram.OnlyChanges (Within s.store.frames.map fs own) t.store.ram

theorem Holds.advanced (h : Holds s fs free live aside arena) (own : List Run) :
    Advanced s fs aside arena own live s :=
  ⟨rfl, rfl, ⟨0, free, aside, Nat.zero_le _, h, by simp, fun _ => rfl⟩, .refl _ _⟩

theorem taken_subset (k : Nat) (fs arena : List Frame) :
    (fs.take k).reverse ++ arena ⊆ fs ++ arena := by
  refine List.append_subset.mpr ⟨?_, List.subset_append_right fs arena⟩
  intro f hf
  exact List.mem_append_left _ (List.mem_of_mem_take (List.mem_reverse.mp hf))

theorem Grew.advanced {k : Nat} (h : Grew s t k fs free live aside arena) (hk : k ≤ fs.length)
    (own : List Run) : Advanced s fs aside arena own live t :=
  ⟨h.setup.map, h.setup.total, ⟨k, _, aside, hk, h.holds, h.arenaBytes, fun _ => rfl⟩,
    h.ram.mono fun _ ha => .inl (List.mem_of_mem_take ha)⟩

theorem lost_eq_nil {map : DirectMap} {fs' : List Frame} {pre post : List Run} {b : Run}
    {needed : Nat} (h : Holds s fs' (pre ++ b :: post) live aside arena)
    (hmap : s.store.frames.map = map) (hb : needed ≤ b.length)
    (hnull : map.frameAt .null ∉ arena) : lost needed b post = [] := by
  refine if_neg fun ⟨hfits, hstart⟩ => hnull ?_
  have hbmem : b ∈ pre ++ b :: post ++ live ++ aside := by simp
  rw [← hstart, ← hmap]
  refine h.carved.tiles.mem_arena hbmem ?_
  refine (Run.mem_take_or_drop hb (Nat.le_of_lt (h.carved.length_lt hbmem)) _).mpr (.inr ?_)
  exact Run.start_mem (Nat.lt_of_lt_of_le (by decide) hfits)

/-- What a request that is served leads to: a block that lies in free frames and in the operation's
own blocks is live now. -/
def Provided (s : HeapStore) (fs : List Frame) (aside : List Run) (arena : List Frame)
    (own live : List Run) (size : Nat) (p : VirtualAddress) (t : HeapStore) : Prop :=
  ∃ b payload, p = payloadOf b.start ∧ payloadFor? size = some payload ∧
    b.length = headerSize + payload ∧ (∀ a ∈ b, Within s.store.frames.map fs own a) ∧
    Advanced s fs aside arena own (b :: live) t

/-- A successful allocation makes a block live that was not. -/
theorem Allocated.provided {p : VirtualAddress}
    (h : Allocated s fs free live aside arena size p t) :
    Provided s fs aside arena free live size p t := by
  obtain ⟨payload, pre, b, post, u, hp, rfl, hsplit, -, hb, hu, ht⟩ := h
  have hk := framesTaken_le fs.length free size
  have hwithin : ∀ c ∈ pre ++ b :: post, ∀ a ∈ c, Within s.store.frames.map fs free a :=
    fun c hc a ha => within_of_mem_grownBlocks (hsplit ▸ hc) ha
  rw [grownBlocks] at hsplit
  refine ⟨b.take (headerSize + payload), payload, rfl, hp, rfl, ?_, ht.setup.map.trans hu.setup.map,
    ht.setup.total.trans hu.setup.total, ⟨_, _, _, hk, ht.holds, ?_, ?_⟩, ?_⟩
  · intro a ha
    exact hwithin b (List.mem_append_right pre List.mem_cons_self) a (Nat.lt_of_lt_of_le ha hb)
  · rw [ht.counts.2, hu.arenaBytes]
  · intro hnull
    rw [lost_eq_nil (hsplit ▸ hu.holds) hu.setup.map hb, List.nil_append]
    exact fun hmem => hnull (taken_subset _ fs arena hmem)
  · refine (hu.ram.mono fun a ha => .inl (List.mem_of_mem_take ha)).trans (ht.ram.mono ?_)
    rintro a ⟨c, hc, ha⟩
    refine hwithin c ?_ a ha
    rcases List.mem_append.mp hc with hc | hc
    · simp [hc]
    · simp [List.mem_singleton.mp hc]

theorem NotAllocated.advanced {stop : Stop HeapError} (h : Holds s fs free live aside arena)
    (hn : NotAllocated s fs free live aside arena size stop t) (own : List Run) :
    (∃ e, stop = .error e) ∧ Advanced s fs aside arena own live t := by
  rcases hn with ⟨rfl, -, rfl⟩ | ⟨rfl, -, hg, -⟩
  · exact ⟨⟨_, rfl⟩, h.advanced own⟩
  · exact ⟨⟨_, rfl⟩, hg.advanced (framesTaken_le fs.length free size) own⟩

end Heap

end PagedMemory
