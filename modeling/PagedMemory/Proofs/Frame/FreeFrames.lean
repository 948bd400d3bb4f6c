import PagedMemory.Frame.Pool
import PagedMemory.Proofs.Endings
import PagedMemory.Proofs.Memory
/-!
# The list of free frames

A pool is a list of frames that is kept in those frames. `Holds` relates a pool and memory to that
list; each operation on pools is described by what it does to the list. The links stand in free
frames only, so nothing that is written to other frames can break the list.
-/
namespace PagedMemory

namespace Page

variable {space : Space} {size : PageSize}

/-- There are no more pages in a list without duplicates than in the address space. -/
theorem length_le_pages {ps : List (Page space size)} (h : ps.Nodup) :
    ps.length ≤ size.pages := by
  have hn : (ps.map Page.number).Nodup := h.map fun _ _ => ext_number
  have hsub : ps.map Page.number ⊆ List.range size.pages := by
    intro n hn
    obtain ⟨p, -, rfl⟩ := List.mem_map.mp hn
    exact List.mem_range.mpr p.number_lt
  simpa using (List.subperm_of_subset hn hsub).length_le

/-- A list that misses a page is shorter than the address space. -/
theorem length_lt_pages {ps : List (Page space size)} (h : ps.Nodup) {p : Page space size}
    (hp : p ∉ ps) : ps.length < size.pages :=
  length_le_pages (List.nodup_cons.mpr ⟨hp, h⟩)

end Page

namespace FramePool

/-- The frames that a list links together from an address on, in order; its end is null. -/
def Linked (map : DirectMap) (m : Ram) : VirtualAddress → List Frame → Prop
  | a, [] => a = .null
  | a, f :: fs => a = map.aliasOf f ∧ a ≠ .null ∧ Linked map m ⟨m.readWord a⟩ fs

instance decidableLinked (map : DirectMap) (m : Ram) :
    ∀ a fs, Decidable (Linked map m a fs)
  | a, [] => inferInstanceAs (Decidable (a = .null))
  | a, f :: fs =>
    have := decidableLinked map m ⟨m.readWord a⟩ fs
    inferInstanceAs (Decidable (a = map.aliasOf f ∧ a ≠ .null ∧ Linked map m ⟨m.readWord a⟩ fs))

/-- A pool keeps exactly the frames of a list, in that order and none of them twice. -/
structure Holds (pool : FramePool) (m : Ram) (fs : List Frame) : Prop where
  linked : Linked pool.map m pool.head fs
  nodup : fs.Nodup
  free : pool.free = fs.length

instance (pool : FramePool) (m : Ram) (fs : List Frame) : Decidable (pool.Holds m fs) :=
  decidable_of_iff (Linked pool.map m pool.head fs ∧ fs.Nodup ∧ pool.free = fs.length)
    ⟨fun ⟨hl, hn, hf⟩ => ⟨hl, hn, hf⟩, fun h => ⟨h.linked, h.nodup, h.free⟩⟩

/-- The free frames as they are read from memory. -/
def freeFrames (pool : FramePool) (m : Ram) : List Frame :=
  (chain m PageSize.small.pages pool.head).map pool.map.frameAt

theorem Linked.alias_ne_null {map : DirectMap} {m : Ram} {a : VirtualAddress} {fs : List Frame}
    (h : Linked map m a fs) : ∀ f ∈ fs, map.aliasOf f ≠ .null := by
  induction fs generalizing a with
  | nil => simp
  | cons g fs ih =>
    obtain ⟨ha, hn, hl⟩ := h
    intro f hf
    rcases List.mem_cons.mp hf with rfl | hf
    · rwa [← ha]
    · exact ih hl f hf

/-- A list is as it was if no byte of its frames changed. -/
theorem Linked.congr {map : DirectMap} {m n : Ram} {a : VirtualAddress} {fs : List Frame}
    {p : VirtualAddress → Prop} (h : Linked map m a fs) (hm : m.OnlyChanges p n)
    (hp : ∀ b, p b → map.frameAt b ∉ fs) : Linked map n a fs := by
  induction fs generalizing a with
  | nil => exact h
  | cons f fs ih =>
    obtain ⟨rfl, hn, hl⟩ := h
    refine ⟨rfl, hn, ?_⟩
    rw [hm.readWord_eq]
    · exact ih hl fun b hb hf => hp b hb (List.mem_cons_of_mem f hf)
    · intro b hb hpb
      exact hp b hpb (by simp [Ram.frameAt_of_distance_alias hb])

theorem Linked.chain_eq {map : DirectMap} {m : Ram} {a : VirtualAddress} {fs : List Frame}
    (h : Linked map m a fs) {n : Nat} (hn : fs.length ≤ n) : chain m n a = fs.map map.aliasOf := by
  induction fs generalizing a n with
  | nil =>
    cases h
    cases n <;> simp [chain]
  | cons f fs ih =>
    obtain ⟨ha, hne, hl⟩ := h
    obtain ⟨n, rfl⟩ : ∃ k, n = k + 1 := ⟨n - 1, by simp only [List.length_cons] at hn; omega⟩
    have hnull : a.isNull = false := a.isNull_eq_false_iff.mpr hne
    rw [chain, hnull, List.map_cons, ih hl (by simpa using hn), ha]
    simp

theorem Holds.freeFrames_eq {pool : FramePool} {m : Ram} {fs : List Frame}
    (h : pool.Holds m fs) : pool.freeFrames m = fs := by
  rw [freeFrames, h.linked.chain_eq (Page.length_le_pages h.nodup), List.map_map]
  simp [Function.comp_def]

theorem Holds.congr {pool : FramePool} {m n : Ram} {fs : List Frame} {p : VirtualAddress → Prop}
    (h : pool.Holds m fs) (hm : m.OnlyChanges p n) (hp : ∀ b, p b → pool.map.frameAt b ∉ fs) :
    pool.Holds n fs :=
  ⟨h.linked.congr hm hp, h.nodup, h.free⟩

theorem Holds.with_total {pool : FramePool} {m : Ram} {fs : List Frame} (h : pool.Holds m fs)
    (n : Nat) : ({ pool with total := n } : FramePool).Holds m fs :=
  ⟨h.linked, h.nodup, h.free⟩

theorem holds_empty (map : DirectMap) (m : Ram) : (empty map).Holds m [] :=
  ⟨rfl, List.nodup_nil, rfl⟩

/-! ## Taking a frame -/

theorem pop_of_nil {s : Store FramePool} (h : s.frames.Holds s.ram []) : pop s = .ok none s := by
  have hh : s.frames.head.isNull = true := (Address.isNull_iff _).mpr h.linked
  simp [pop, hh, bind, EStateM.bind, get, getThe, MonadStateOf.get, EStateM.get, pure,
    EStateM.pure]

theorem pop_of_cons {s : Store FramePool} {f : Frame} {fs : List Frame}
    (h : s.frames.Holds s.ram (f :: fs)) :
    ∃ pool : FramePool, pop s = .ok (some f) ⟨s.ram, pool, s.log⟩ ∧ pool.map = s.frames.map ∧
      pool.total = s.frames.total ∧ pool.Holds s.ram fs := by
  obtain ⟨ha, hn, hl⟩ := h.linked
  have hh : s.frames.head.isNull = false := (Address.isNull_eq_false_iff _).mpr hn
  have hfree : s.frames.free = fs.length + 1 := h.free
  refine ⟨{ s.frames with head := ⟨s.ram.readWord s.frames.head⟩, free := s.frames.free - 1 }, ?_,
    rfl, rfl, hl, h.nodup.of_cons, by simp [hfree]⟩
  have hf : Page.containing (s.frames.map.toPhysical s.frames.head) = f := by
    rw [ha]
    exact s.frames.map.frameAt_alias f
  simp [pop, hh, hfree, hf, bind, EStateM.bind, get, getThe, MonadStateOf.get, EStateM.get, set,
    MonadStateOf.set, EStateM.set, pure, EStateM.pure]

theorem take?_of_nil {s : Store FramePool} (h : s.frames.Holds s.ram []) :
    take? s = .ok none s := by
  simp [take?, bind, EStateM.bind, pop_of_nil h, pure, EStateM.pure]

/-- The first frame of the list is handed out, filled with zeros. -/
theorem take?_of_cons {s : Store FramePool} {f : Frame} {fs : List Frame}
    (h : s.frames.Holds s.ram (f :: fs)) :
    ∃ pool : FramePool,
      take? s = .ok (some f) ⟨s.ram.fill (s.frames.map.aliasOf f) frameSize 0, pool, s.log⟩ ∧
      pool.map = s.frames.map ∧ pool.total = s.frames.total ∧
      pool.Holds (s.ram.fill (s.frames.map.aliasOf f) frameSize 0) fs := by
  obtain ⟨pool, hpop, hmap, htotal, hfs⟩ := pop_of_cons h
  refine ⟨pool, ?_, hmap, htotal, hfs.congr (s.ram.onlyChanges_fill _ _ _) ?_⟩
  · simp [take?, clear, bind, EStateM.bind, hpop, hmap, modify, modifyGet, MonadStateOf.modifyGet,
      EStateM.modifyGet, pure, EStateM.pure]
  · intro b hb
    rw [hmap, (s.frames.map.frameAt_eq_iff f b).mpr hb]
    exact (List.nodup_cons.mp h.nodup).1

/-! ## Returning a frame -/

theorem push_of_null {s : Store FramePool} {f : Frame} (hf : s.frames.map.aliasOf f = .null) :
    push f s = .ok false s := by
  have hh : (s.frames.map.aliasOf f).isNull = true := (Address.isNull_iff _).mpr hf
  simp [push, hh, bind, EStateM.bind, get, getThe, MonadStateOf.get, EStateM.get, pure,
    EStateM.pure]

/-- A frame that is not on the list becomes its first one; only the link in the frame is written. -/
theorem push_of_ne_null {s : Store FramePool} {f : Frame} {fs : List Frame}
    (h : s.frames.Holds s.ram fs) (hf : s.frames.map.aliasOf f ≠ .null) (hfs : f ∉ fs) :
    ∃ pool : FramePool,
      push f s =
        .ok true ⟨s.ram.writeWord (s.frames.map.aliasOf f) s.frames.head.value, pool, s.log⟩ ∧
      pool.map = s.frames.map ∧ pool.total = s.frames.total ∧
      pool.Holds (s.ram.writeWord (s.frames.map.aliasOf f) s.frames.head.value) (f :: fs) := by
  have hh : (s.frames.map.aliasOf f).isNull = false := (Address.isNull_eq_false_iff _).mpr hf
  refine ⟨{ s.frames with head := s.frames.map.aliasOf f, free := s.frames.free + 1 }, ?_, rfl, rfl,
    ⟨rfl, hf, ?_⟩, List.nodup_cons.mpr ⟨hfs, h.nodup⟩, by simp [h.free]⟩
  · simp [push, hh, bind, EStateM.bind, get, getThe, MonadStateOf.get, EStateM.get, set,
      MonadStateOf.set, EStateM.set, pure, EStateM.pure]
  · rw [Ram.readWord_writeWord]
    apply h.linked.congr (s.ram.onlyChanges_writeWord _ _)
    intro b hb
    rwa [Ram.frameAt_of_distance_alias hb]

end FramePool

end PagedMemory
