import PagedMemory.Proofs.Frame.Filling
/-!
# Processors that share a pool

Any number of processors take frames from one pool and return them. Leaving the list and going back
onto it are single steps, as a lock makes them so; but a frame is filled with zeros after it has
left the list, a byte at a time and in any order, while the other processors go on. Nothing but
ownership keeps them apart: a processor owns a frame from the moment it takes it off the list until
it puts it back, and all that it writes lies in frames of its own.
-/
namespace PagedMemory

namespace Ram

/-- A fill goes on by one byte. -/
theorem fill_succ (m : Ram) (a : VirtualAddress) {n : Nat} (hn : n < 2 ^ 64) (v : UInt8) :
    m.fill a (n + 1) v = (m.fill a n v).write (a + n) v := by
  ext b
  rw [read_write, read_fill, read_fill]
  by_cases h : a + n = b
  · have hd := a.distance_add hn
    rw [h] at hd
    rw [if_pos h, if_pos (by omega)]
  · have hne : a.distance b ≠ n := fun hd => h (hd ▸ a.add_distance b)
    have hiff : a.distance b < n + 1 ↔ a.distance b < n := by omega
    rw [if_neg h]
    simp only [hiff]

end Ram

/-- What a processor has of a pool: the frame that it fills with zeros, if there is one, with the
offsets of the bytes that it wrote so far, and the frames that it may use. -/
structure Processor where
  filling : Option (Frame × Finset Nat)
  held : List Frame

namespace Processor

def idle : Processor := ⟨none, []⟩

/-- The frames that it took off the list and did not put back. -/
def owned (p : Processor) : List Frame := (p.filling.map Prod.fst).toList ++ p.held

theorem owned_of_filling {p : Processor} {f : Frame} {cleared : Finset Nat}
    (h : p.filling = some (f, cleared)) : p.owned = f :: p.held := by
  simp [owned, h]

theorem owned_of_not_filling {p : Processor} (h : p.filling = none) : p.owned = p.held := by
  simp [owned, h]

theorem perm_owned_erase {p : Processor} {f : Frame} (hf : f ∈ p.held) :
    (f :: { p with held := p.held.erase f }.owned).Perm p.owned :=
  List.perm_middle.symm.trans ((List.perm_cons_erase hf).symm.append_left _)

theorem held_subset_owned (p : Processor) : p.held ⊆ p.owned := List.subset_append_right _ _

end Processor

/-- A pool, and the processors that share it, by their numbers. -/
structure SharedPool where
  store : Store FramePool
  processors : Nat → Processor

namespace SharedPool

/-- A pool of which no processor has anything yet. -/
def opened (s : Store FramePool) : SharedPool := ⟨s, fun _ => .idle⟩

def owned (c : SharedPool) (i : Nat) : List Frame := (c.processors i).owned

theorem owned_opened (s : Store FramePool) (i : Nat) : (opened s).owned i = [] := rfl

/-- The frames on the list, as they are read from memory. -/
def free (c : SharedPool) : List Frame := c.store.frames.freeFrames c.store.ram

/-- What a processor does next. -/
inductive Action
  /-- Take the first frame off the list, with the lock held. -/
  | pop
  /-- Zero a byte of the frame that was taken. -/
  | clear (k : Nat)
  /-- Return the frame to the caller, all of its bytes being cleared. -/
  | deliver
  /-- Store a byte in a frame that is held. -/
  | store (a : VirtualAddress) (v : UInt8)
  /-- Put a frame back on the list, with the lock held. -/
  | push (f : Frame)

/-- After a step of one processor the others are as before. -/
def set (c : SharedPool) (i : Nat) (t : Store FramePool) (p : Processor) : SharedPool :=
  ⟨t, Function.update c.processors i p⟩

/-- A byte of memory is written. -/
def written (c : SharedPool) (a : VirtualAddress) (v : UInt8) : Store FramePool :=
  { c.store with ram := c.store.ram.write a v }

/-- The single steps of a processor. Which one of them takes the next step is left open. -/
inductive Step (c : SharedPool) (i : Nat) : Action → SharedPool → Prop
  | pop {f : Frame} {t : Store FramePool} (idle : (c.processors i).filling = none)
    (run : FramePool.pop c.store = .ok (some f) t) :
    Step c i .pop (c.set i t ⟨some (f, ∅), (c.processors i).held⟩)
  | popNothing {t : Store FramePool} (idle : (c.processors i).filling = none)
    (run : FramePool.pop c.store = .ok none t) : Step c i .pop (c.set i t (c.processors i))
  | clear {f : Frame} {cleared : Finset Nat} {k : Nat}
    (filling : (c.processors i).filling = some (f, cleared)) (inside : k < frameSize) :
    Step c i (.clear k)
      (c.set i (c.written (c.store.frames.map.aliasOf f + k) 0)
        ⟨some (f, insert k cleared), (c.processors i).held⟩)
  | deliver {f : Frame} {cleared : Finset Nat}
    (filling : (c.processors i).filling = some (f, cleared))
    (all : Finset.range frameSize ⊆ cleared) :
    Step c i .deliver (c.set i c.store ⟨none, f :: (c.processors i).held⟩)
  | store {a : VirtualAddress} {v : UInt8}
    (held : c.store.frames.map.frameAt a ∈ (c.processors i).held) :
    Step c i (.store a v) (c.set i (c.written a v) (c.processors i))
  | push {f : Frame} {t : Store FramePool} (held : f ∈ (c.processors i).held)
    (run : FramePool.release f c.store = .ok () t) :
    Step c i (.push f)
      (c.set i t { c.processors i with held := (c.processors i).held.erase f })

/-- Some order of single steps leads from one state to another. -/
def Reaches : SharedPool → SharedPool → Prop :=
  Relation.ReflTransGen fun c d => ∃ i act, Step c i act d

/-- The addresses that a step writes without holding the lock. -/
def Hits (c : SharedPool) (i : Nat) : Action → VirtualAddress → Prop
  | .clear k, a => ∃ f cleared, (c.processors i).filling = some (f, cleared) ∧
    a = c.store.frames.map.aliasOf f + k
  | .store b _, a => a = b
  | _, _ => False

/-! ## Ownership -/

/-- No frame is owned by two processors, or owned and free; none is counted twice. -/
structure Exclusive (fs : List Frame) (owned : Nat → List Frame) : Prop where
  nodup : ∀ i, (fs ++ owned i).Nodup
  apart : ∀ i j, i ≠ j → (owned i).Disjoint (owned j)

namespace Exclusive

variable {fs gs os : List Frame} {owned : Nat → List Frame}

theorem notMem_of_ne (h : Exclusive fs owned) {i j : Nat} (hij : j ≠ i) {f : Frame}
    (hf : f ∈ fs ++ owned i) : f ∉ owned j := by
  intro hj
  rcases List.mem_append.mp hf with hf | hf
  · exact (List.nodup_append'.mp (h.nodup j)).2.2 hf hj
  · exact h.apart j i hij hj hf

/-- A processor may trade frames with the list, whatever the others own. -/
theorem trade (h : Exclusive fs owned) {i : Nat} (hp : (gs ++ os).Perm (fs ++ owned i)) :
    Exclusive gs (Function.update owned i os) := by
  have hn : (gs ++ os).Nodup := hp.nodup_iff.mpr (h.nodup i)
  have hos : ∀ j, j ≠ i → os.Disjoint (owned j) := fun j hj f hf =>
    h.notMem_of_ne hj (hp.subset (List.mem_append_right gs hf))
  refine ⟨?_, ?_⟩
  · intro j
    by_cases hj : j = i
    · subst hj
      simpa using hn
    · rw [Function.update_of_ne hj]
      refine hn.of_append_left.append (h.nodup j).of_append_right ?_
      exact fun f hf => h.notMem_of_ne hj (hp.subset (List.mem_append_left os hf))
  · intro j k hjk
    by_cases hj : j = i
    · subst hj
      rw [Function.update_self, Function.update_of_ne hjk.symm]
      exact hos k hjk.symm
    · rw [Function.update_of_ne hj]
      by_cases hk : k = i
      · subst hk
        rw [Function.update_self]
        exact (hos j hj).symm
      · rw [Function.update_of_ne hk]
        exact h.apart j k hjk

end Exclusive

/-- What a processor has cleared of the frame that it fills is zero. -/
def Zeroed (map : DirectMap) (m : Ram) (p : Processor) : Prop :=
  ∀ f cleared, p.filling = some (f, cleared) →
    ∀ k ∈ cleared, k < frameSize ∧ m.read (map.aliasOf f + k) = 0

/-- It stays zero if the frame is left alone. -/
theorem Zeroed.congr {map : DirectMap} {m n : Ram} {p : Processor} {q : VirtualAddress → Prop}
    (h : Zeroed map m p) (hm : m.OnlyChanges q n)
    (hq : ∀ a f cleared, q a → p.filling = some (f, cleared) → map.frameAt a ≠ f) :
    Zeroed map n p := by
  intro f cleared hf k hk
  obtain ⟨hlt, hzero⟩ := h f cleared hf k hk
  refine ⟨hlt, ?_⟩
  rw [hm _ fun ha => hq _ f cleared ha hf (map.frameAt_alias_add f hlt), hzero]

/-- The invariant of the steps: the list is in order, and every frame has one owner at most. -/
structure Coherent (map : DirectMap) (fs : List Frame) (c : SharedPool) : Prop where
  map_eq : c.store.frames.map = map
  pool : c.store.frames.Holds c.store.ram fs
  exclusive : Exclusive fs c.owned
  alias_ne_null : ∀ i, ∀ f ∈ c.owned i, map.aliasOf f ≠ .null
  zeroed : ∀ i, Zeroed map c.store.ram (c.processors i)

theorem owned_set (c : SharedPool) (i : Nat) (t : Store FramePool) (p : Processor) :
    (c.set i t p).owned = Function.update c.owned i p.owned := by
  funext j
  by_cases hj : j = i
  · subst hj
    simp [owned, set]
  · simp [owned, set, hj]

namespace Coherent

variable {map : DirectMap} {fs gs : List Frame} {c d : SharedPool} {i : Nat}

theorem free_eq (h : Coherent map fs c) : c.free = fs := h.pool.freeFrames_eq

/-- A processor that changes only frames of its own, and trades some of them with the list, leaves
everything else in order. -/
theorem set (h : Coherent map fs c) {t : Store FramePool} {p : Processor}
    (hmap : t.frames.map = map) (hpool : t.frames.Holds t.ram gs)
    (hp : (gs ++ p.owned).Perm (fs ++ c.owned i))
    (hm : c.store.ram.OnlyChanges (fun a => map.frameAt a ∈ c.owned i) t.ram)
    (hz : Zeroed map t.ram p) : Coherent map gs (c.set i t p) := by
  have hown := owned_set c i t p
  refine ⟨hmap, hpool, ?_, ?_, ?_⟩
  · rw [hown]
    exact h.exclusive.trade hp
  · intro j f hf
    rw [hown] at hf
    by_cases hj : j = i
    · subst hj
      rw [Function.update_self] at hf
      rcases List.mem_append.mp (hp.subset (List.mem_append_right gs hf)) with hf | hf
      · exact h.map_eq ▸ h.pool.linked.alias_ne_null f hf
      · exact h.alias_ne_null j f hf
    · rw [Function.update_of_ne hj] at hf
      exact h.alias_ne_null j f hf
  · intro j
    by_cases hj : j = i
    · subst hj
      simpa [SharedPool.set] using hz
    · have hstill := (h.zeroed j).congr hm fun a f cleared ha hf hfa =>
        h.exclusive.notMem_of_ne hj (List.mem_append_right fs ha)
          (by simp [owned, Processor.owned_of_filling hf, hfa])
      simpa [SharedPool.set, hj] using hstill

/-- A byte that is written to a frame in use is in no frame of the list. -/
theorem pool_written (h : Coherent map fs c) {a : VirtualAddress} (ha : map.frameAt a ∈ c.owned i)
    (v : UInt8) : (c.written a v).frames.Holds (c.written a v).ram fs ∧
      c.store.ram.OnlyChanges (fun b => map.frameAt b ∈ c.owned i) (c.written a v).ram := by
  have hfs : map.frameAt a ∉ fs := fun hf =>
    (List.nodup_append'.mp (h.exclusive.nodup i)).2.2 hf ha
  have hm := c.store.ram.onlyChanges_write a v
  refine ⟨h.pool.congr hm ?_, hm.mono ?_⟩
  · rintro b rfl
    rwa [h.map_eq]
  · rintro b rfl
    exact ha

theorem pop (h : Coherent map fs c) {found : Option Frame} {t : Store FramePool}
    (hrun : FramePool.pop c.store = .ok found t) :
    (found = none ∧ fs = [] ∧ t = c.store) ∨ ∃ f rest, found = some f ∧ fs = f :: rest ∧
      t.ram = c.store.ram ∧ t.frames.map = map ∧ t.frames.Holds t.ram rest := by
  cases fs with
  | nil =>
    rw [FramePool.pop_of_nil h.pool] at hrun
    cases hrun
    exact .inl ⟨rfl, rfl, rfl⟩
  | cons f rest =>
    obtain ⟨pool, hpop, hmap, -, hpool⟩ := FramePool.pop_of_cons h.pool
    rw [hpop] at hrun
    cases hrun
    exact .inr ⟨f, rest, rfl, rfl, rfl, hmap.trans h.map_eq, hpool⟩

/-- A frame that is held can always be put back. -/
theorem release (h : Coherent map fs c) {f : Frame} (hf : f ∈ (c.processors i).held) :
    ∃ t, FramePool.release f c.store = .ok () t ∧ t.frames.map = map ∧
      t.frames.Holds t.ram (f :: fs) ∧
      c.store.ram.OnlyChanges (fun a => map.frameAt a = f) t.ram := by
  have howned : f ∈ c.owned i := Processor.held_subset_owned _ hf
  have hnull : c.store.frames.map.aliasOf f ≠ .null := h.map_eq ▸ h.alias_ne_null i f howned
  have hfs : f ∉ fs := fun hmem =>
    (List.nodup_append'.mp (h.exclusive.nodup i)).2.2 hmem howned
  obtain ⟨pool, hpush, hmap, -, hpool⟩ := FramePool.push_of_ne_null h.pool hnull hfs
  rw [h.map_eq] at hpush hmap hpool
  refine ⟨⟨c.store.ram.writeWord (map.aliasOf f) c.store.frames.head.value, pool, c.store.log⟩,
    ?_, hmap, hpool, ?_⟩
  · simp only [FramePool.release, bind, EStateM.bind, hpush]
    rfl
  · apply (Ram.onlyChanges_writeWord _ _ _).mono
    exact fun a ha => Ram.frameAt_of_distance_alias ha

/-- A frame of its own that a processor holds is not the one that it fills. -/
theorem filling_ne_held (h : Coherent map fs c) {f g : Frame} {cleared : Finset Nat}
    (hf : (c.processors i).filling = some (f, cleared)) (hg : g ∈ (c.processors i).held) :
    g ≠ f := by
  have hn : (c.owned i).Nodup := (h.exclusive.nodup i).of_append_right
  rw [owned, Processor.owned_of_filling hf] at hn
  rintro rfl
  exact (List.nodup_cons.mp hn).1 hg

/-- One step of one processor. -/
theorem step (h : Coherent map fs c) {act : Action} (hs : Step c i act d) :
    ∃ gs, Coherent map gs d ∧
      c.store.ram.OnlyChanges (fun a => map.frameAt a ∈ c.owned i) d.store.ram := by
  cases hs with
  | @pop f t idle run =>
    have howned : c.owned i = (c.processors i).held := Processor.owned_of_not_filling idle
    obtain ⟨hnone, -⟩ | ⟨f', rest, hfound, rfl, hram, hmap, hpool⟩ := h.pop run
    · cases hnone
    · cases hfound
      have hm : c.store.ram.OnlyChanges (fun a => map.frameAt a ∈ c.owned i) t.ram :=
        hram ▸ .refl _ _
      refine ⟨rest, h.set hmap hpool ?_ hm ?_, hm⟩
      · rw [howned]
        exact List.perm_middle
      · rintro f' cleared hf k hk
        cases hf
        simp at hk
  | @popNothing t idle run =>
    obtain ⟨-, -, rfl⟩ | ⟨f', rest, hfound, -⟩ := h.pop run
    · exact ⟨fs, h.set h.map_eq h.pool (.refl _) (.refl _ _) (h.zeroed i), .refl _ _⟩
    · cases hfound
  | @clear f cleared k filling inside =>
    have howned : c.owned i = f :: (c.processors i).held := Processor.owned_of_filling filling
    rw [h.map_eq]
    have hat : map.frameAt (map.aliasOf f + k) ∈ c.owned i := by
      rw [map.frameAt_alias_add f inside, howned]
      exact List.mem_cons_self
    obtain ⟨hpool, hm⟩ := h.pool_written hat 0
    refine ⟨fs, h.set h.map_eq hpool ?_ hm ?_, hm⟩
    · rw [howned]
      exact .refl _
    · intro f' cleared' hf j hj
      cases hf
      rcases Finset.mem_insert.mp hj with rfl | hj
      · exact ⟨inside, by rw [written, Ram.read_write, if_pos rfl]⟩
      · obtain ⟨hlt, hzero⟩ := h.zeroed i _ cleared filling j hj
        refine ⟨hlt, ?_⟩
        rw [written, Ram.read_write, hzero, ite_self]
  | @deliver f cleared filling all =>
    have howned : c.owned i = f :: (c.processors i).held := Processor.owned_of_filling filling
    refine ⟨fs, h.set h.map_eq h.pool ?_ (.refl _ _) ?_, .refl _ _⟩
    · rw [howned]
      exact .refl _
    · intro f' cleared' hf
      cases hf
  | @store a v held =>
    rw [h.map_eq] at held
    obtain ⟨hpool, hm⟩ := h.pool_written (Processor.held_subset_owned _ held) v
    refine ⟨fs, h.set h.map_eq hpool (.refl _) hm ?_, hm⟩
    refine (h.zeroed i).congr (c.store.ram.onlyChanges_write a v) ?_
    rintro b f cleared rfl hf
    exact h.filling_ne_held hf held
  | @push f t held run =>
    obtain ⟨t', hrun, hmap, hpool, hchanges⟩ := h.release held
    rw [hrun] at run
    cases run
    have hm : c.store.ram.OnlyChanges (fun a => map.frameAt a ∈ c.owned i) t.ram :=
      hchanges.mono fun a ha => ha ▸ Processor.held_subset_owned _ held
    refine ⟨f :: fs, h.set hmap hpool ?_ hm ?_, hm⟩
    · exact List.perm_middle.symm.trans ((Processor.perm_owned_erase held).append_left fs)
    · refine (h.zeroed i).congr hchanges ?_
      rintro a f' cleared rfl hf
      exact h.filling_ne_held hf held

/-- Any number of steps, in any order. -/
theorem reaches (h : Coherent map fs c) (hs : Reaches c d) : ∃ gs, Coherent map gs d := by
  induction hs with
  | refl => exact ⟨fs, h⟩
  | tail _ hstep ih =>
    obtain ⟨gs, hd⟩ := ih
    obtain ⟨i, act, hstep⟩ := hstep
    obtain ⟨gs', hd', -⟩ := hd.step hstep
    exact ⟨gs', hd'⟩

theorem hits (h : Coherent map fs c) {act : Action} (hs : Step c i act d) {a : VirtualAddress}
    (ha : Hits c i act a) : map.frameAt a ∈ c.owned i := by
  cases hs with
  | pop | popNothing | deliver | push => exact ha.elim
  | @clear f cleared k filling inside =>
    obtain ⟨f', cleared', hf, rfl⟩ := ha
    rw [filling] at hf
    cases hf
    rw [h.map_eq, map.frameAt_alias_add f inside, owned, Processor.owned_of_filling filling]
    exact List.mem_cons_self
  | @store b v held =>
    cases ha
    rw [← h.map_eq]
    exact Processor.held_subset_owned _ held

end Coherent

/-- A frame that nobody else asks for meanwhile is taken in single steps just as at once. -/
theorem reaches_take? (c : SharedPool) {i : Nat} {f : Frame} {t : Store FramePool}
    (hidle : (c.processors i).filling = none) (ht : FramePool.take? c.store = .ok (some f) t) :
    Reaches c (c.set i t ⟨none, f :: (c.processors i).held⟩) := by
  obtain ⟨u, hpop, hclear⟩ : ∃ u, FramePool.pop c.store = .ok (some f) u ∧
      t = { u with ram := u.ram.fill (u.frames.map.aliasOf f) frameSize 0 } := by
    simp only [FramePool.take?, FramePool.clear, bind, EStateM.bind] at ht
    split at ht
    · rename_i found u hpop
      cases found with
      | none => cases ht
      | some g =>
        cases ht
        exact ⟨u, hpop, rfl⟩
    · cases ht
  -- the fill as a loop over the bytes, of which `n` are done
  let partly (n : Nat) : SharedPool :=
    c.set i { u with ram := u.ram.fill (u.frames.map.aliasOf f) n 0 }
      ⟨some (f, Finset.range n), (c.processors i).held⟩
  have hpartly : ∀ n ≤ frameSize, Reaches c (partly n) := by
    intro n
    induction n with
    | zero =>
      intro _
      have hzero : u.ram.fill (u.frames.map.aliasOf f) 0 0 = u.ram := by
        ext b
        rw [Ram.read_fill, if_neg (Nat.not_lt_zero _)]
      refine .single ⟨i, .pop, ?_⟩
      simpa [partly, hzero] using Step.pop hidle hpop
    | succ n ih =>
      intro hn
      have hs : frameSize = 4096 := rfl
      refine (ih (by omega)).tail ⟨i, .clear n, ?_⟩
      have hfilling : ((partly n).processors i).filling = some (f, Finset.range n) := by
        simp [partly, set]
      have hstep := Step.clear hfilling (show n < frameSize by omega)
      have hfill := u.ram.fill_succ (u.frames.map.aliasOf f) (show n < 2 ^ 64 by omega) 0
      simpa [partly, set, written, Finset.range_add_one, hfill] using hstep
  refine (hpartly frameSize le_rfl).tail ⟨i, .deliver, ?_⟩
  have hfilling : ((partly frameSize).processors i).filling = some (f, Finset.range frameSize) := by
    simp [partly, set]
  simpa [partly, set, hclear] using Step.deliver hfilling (Finset.Subset.refl _)

/-- What holds at any time, whatever order the processors take their steps in. -/
structure Safe (map : DirectMap) (c : SharedPool) : Prop where
  /-- No frame is owned by two processors, or twice by one. -/
  apart : ∀ i j, i ≠ j → (c.owned i).Disjoint (c.owned j)
  nodup_owned : ∀ i, (c.owned i).Nodup
  /-- No frame is owned and on the list at the same time. -/
  not_free : ∀ i, (c.owned i).Disjoint c.free
  /-- The list in memory leads from its head through the free frames to null, and is counted. -/
  linked : FramePool.Linked map c.store.ram c.store.frames.head c.free
  nodup_free : c.free.Nodup
  count : c.store.frames.free = c.free.length
  /-- A step outside of the lock writes to a frame that its processor owns. -/
  hits : ∀ i act d, Step c i act d → ∀ a, Hits c i act a → map.frameAt a ∈ c.owned i
  /-- No step at all overwrites anything but a frame of its processor, so no link. -/
  changes : ∀ i act d, Step c i act d →
    c.store.ram.OnlyChanges (fun a => map.frameAt a ∈ c.owned i) d.store.ram
  links : ∀ i act d, Step c i act d → ∀ f ∈ c.free,
    d.store.ram.readWord (map.aliasOf f) = c.store.ram.readWord (map.aliasOf f)
  /-- A frame that is returned to a caller reads zero from end to end. -/
  delivered : ∀ i d, Step c i .deliver d → ∃ f ∈ (d.processors i).held,
    f ∉ (c.processors i).held ∧ ∀ a, map.frameAt a = f → d.store.ram.read a = 0
  /-- The steps with the lock held do not fault. -/
  pops : ∃ found t, FramePool.pop c.store = .ok found t
  pushes : ∀ i, ∀ f ∈ (c.processors i).held, ∃ t, FramePool.release f c.store = .ok () t

namespace Coherent

variable {map : DirectMap} {fs : List Frame} {c d : SharedPool} {i : Nat}

theorem delivered (h : Coherent map fs c) (hs : Step c i .deliver d) :
    ∃ f ∈ (d.processors i).held,
      f ∉ (c.processors i).held ∧ ∀ a, map.frameAt a = f → d.store.ram.read a = 0 := by
  cases hs with
  | @deliver f cleared filling all =>
    refine ⟨f, by simp [SharedPool.set], fun hheld => h.filling_ne_held filling hheld rfl, ?_⟩
    intro a ha
    have hk : (map.aliasOf f).distance a < frameSize := (map.frameAt_eq_iff f a).mp ha
    obtain ⟨-, hzero⟩ := h.zeroed i f cleared filling _ (all (Finset.mem_range.mpr hk))
    rwa [Address.add_distance] at hzero

theorem safe (h : Coherent map fs c) : Safe map c := by
  have hfree := h.free_eq
  have hlinked := h.pool.linked
  rw [h.map_eq] at hlinked
  refine ⟨h.exclusive.apart, fun i => (h.exclusive.nodup i).of_append_right, ?_, ?_, ?_, ?_, ?_, ?_,
    ?_, fun i d => h.delivered, ?_, ?_⟩
  · rw [hfree]
    exact fun i => (List.nodup_append'.mp (h.exclusive.nodup i)).2.2.symm
  · rwa [hfree]
  · rw [hfree]
    exact h.pool.nodup
  · rw [hfree]
    exact h.pool.free
  · exact fun i act d hs a => h.hits hs
  · intro i act d hs
    obtain ⟨-, -, hm⟩ := h.step hs
    exact hm
  · intro i act d hs f hf
    obtain ⟨-, -, hm⟩ := h.step hs
    apply hm.readWord_eq
    intro b hb howned
    rw [Ram.frameAt_of_distance_alias hb] at howned
    rw [hfree] at hf
    exact (List.nodup_append'.mp (h.exclusive.nodup i)).2.2 hf howned
  · cases fs with
    | nil => exact ⟨none, c.store, FramePool.pop_of_nil h.pool⟩
    | cons f fs =>
      obtain ⟨pool, hpop, -⟩ := FramePool.pop_of_cons h.pool
      exact ⟨some f, _, hpop⟩
  · intro i f hf
    obtain ⟨t, hrun, -⟩ := h.release hf
    exact ⟨t, hrun⟩

end Coherent

/-- Processors that share a filled pool start out in order. -/
theorem coherent_opened {map : DirectMap} {fs : List Frame} {s : Store FramePool}
    (hmap : s.frames.map = map) (hpool : s.frames.Holds s.ram fs) :
    Coherent map fs (opened s) := by
  refine ⟨hmap, hpool, ⟨fun i => ?_, fun i j _ => ?_⟩, fun i f hf => ?_, fun i f cleared hf => ?_⟩
  · rw [owned_opened, List.append_nil]
    exact hpool.nodup
  · rw [owned_opened]
    exact List.disjoint_nil_left _
  · rw [owned_opened] at hf
    cases hf
  · cases hf

/-- Whatever memory maps a pool was filled from, over any contents of memory: in every state that
any number of processors reach, in any order of their steps, frames have one owner at most. -/
theorem safe_of_reaches (map : DirectMap) (m : Ram) (log : Log) {memoryMaps : List (List Region)}
    (hn : (memoryMaps.flatten.filter Region.isUsable).Pairwise
      fun r r' => r.frames.toList.Disjoint r'.frames.toList) :
    ∃ counts s, FramePool.addMemoryMaps memoryMaps ⟨m, .empty map, log⟩ = .ok counts s ∧
      (opened s).free = FramePool.addedFrames map memoryMaps ∧
      ∀ c, Reaches (opened s) c → Safe map c := by
  obtain ⟨counts, s, hs, hmap, hpool, -⟩ :=
    FramePool.addMemoryMaps_empty map m log (Region.nodup_wholeFrames hn)
  have hstart := coherent_opened hmap hpool
  refine ⟨counts, s, hs, hstart.free_eq, ?_⟩
  intro c hc
  obtain ⟨fs, h⟩ := hstart.reaches hc
  exact h.safe

/-- One processor has taken a frame while another one has just begun to clear the next. -/
theorem safe_of_reaches_two_processors :
    let map : DirectMap := ⟨0xffff800000000000⟩
    let memoryMaps : List (List Region) := [[⟨⟨0x1000⟩, 0x2000, .usable⟩]]
    ((memoryMaps.flatten.filter Region.isUsable).Pairwise
        fun r r' => r.frames.toList.Disjoint r'.frames.toList) ∧
      ∃ counts s, FramePool.addMemoryMaps memoryMaps ⟨.uniform 0xaa, .empty map, .empty none⟩ =
          .ok counts s ∧
        ∃ c, Reaches (opened s) c ∧ (c.processors 0).held = [.ofNumber 1] ∧
          (c.processors 1).filling = some (.ofNumber 2, {5}) ∧ Safe map c := by
  intro map memoryMaps
  have hn : (memoryMaps.flatten.filter Region.isUsable).Pairwise
      fun r r' => r.frames.toList.Disjoint r'.frames.toList := by
    change List.Pairwise (fun r r' : Region => ∀ f ∈ r.frames.toList, f ∉ r'.frames.toList) _
    decide
  obtain ⟨counts, s, hs, -, hsafe⟩ := safe_of_reaches map (.uniform 0xaa) (.empty none) hn
  have hadded : FramePool.addedFrames map memoryMaps = [.ofNumber 1, .ofNumber 2] := by decide
  obtain ⟨counts', s', hs', -, hpool, -⟩ :=
    FramePool.addMemoryMaps_empty map (.uniform 0xaa) (.empty none) (Region.nodup_wholeFrames hn)
  rw [hs] at hs'
  cases hs'
  rw [hadded] at hpool
  obtain ⟨pool, htake, -, -, hrest⟩ := FramePool.take?_of_cons hpool
  obtain ⟨pool', hpop, -⟩ := FramePool.pop_of_cons (s := ⟨_, pool, s.log⟩) hrest
  obtain ⟨c, hc, hheld, hfilling⟩ : ∃ c, Reaches (opened s) c ∧
      (c.processors 0).held = [.ofNumber 1] ∧
      (c.processors 1).filling = some (.ofNumber 2, ∅) := by
    refine ⟨_, (reaches_take? (opened s) (i := 0) rfl htake).tail ⟨1, .pop, .pop rfl hpop⟩, ?_, ?_⟩
    · simp [set, opened, Processor.idle]
    · simp [set]
  have hlast := hc.tail ⟨1, .clear 5, .clear hfilling (by decide)⟩
  exact ⟨hn, counts, s, hs, _, hlast, by simp [set, hheld], by simp [set], hsafe _ hlast⟩

end SharedPool

end PagedMemory
