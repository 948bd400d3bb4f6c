import PagedMemory.Heap.Basic
import PagedMemory.Proofs.Frame.FreeFrames
import PagedMemory.Proofs.Heap.Carved
/-!
# How a heap grows

Frames are taken from the front of the list of the pool and joined to runs on the way. `Run.ofFrames`
is that joining on its own; growing by some frames adds its runs to the list of free blocks, the last
one first, and the frames to the arena.
-/
namespace PagedMemory

open FreeList

namespace Run

/-- A run is extended by a frame at either end. -/
theorem extend?_eq_some {run longer : Run} {page : VirtualAddress}
    (h : run.extend? page = some longer) :
    (run.start + run.length = page ∧ longer = ⟨run.start, run.length + frameSize⟩) ∨
      (page + frameSize = run.start ∧ longer = ⟨page, run.length + frameSize⟩) := by
  rw [extend?] at h
  split at h
  · rename_i hafter
    exact .inl ⟨hafter, (Option.some.inj h).symm⟩
  · split at h
    · rename_i hbefore
      exact .inr ⟨hbefore, (Option.some.inj h).symm⟩
    · cases h

theorem start_ne_null_of_extend {run longer : Run} {page : VirtualAddress}
    (h : run.extend? page = some longer) (hrun : run.start ≠ .null) (hpage : page ≠ .null) :
    longer.start ≠ .null := by
  rcases extend?_eq_some h with ⟨-, rfl⟩ | ⟨-, rfl⟩
  · exact hrun
  · exact hpage

theorem mem_of_extend {run longer : Run} {page a : VirtualAddress}
    (h : run.extend? page = some longer) (ha : a ∈ longer) : a ∈ run ∨ a ∈ ofFrame page := by
  rcases extend?_eq_some h with ⟨rfl, rfl⟩ | ⟨hbefore, rfl⟩
  · simp only [mem_iff, ofFrame] at ha ⊢
    rcases Nat.lt_or_ge (run.start.distance a) run.length with hlt | hge
    · exact .inl hlt
    · have := Address.distance_add_of_le _ _ hge
      exact .inr (by omega)
  · simp only [mem_iff, ofFrame, ← hbefore] at ha ⊢
    rcases Nat.lt_or_ge (page.distance a) frameSize with hlt | hge
    · exact .inr hlt
    · have := Address.distance_add_of_le _ _ hge
      exact .inl (by omega)

/-- The runs that frames join to once a run is open, in the order in which they are finished. -/
def joined (map : DirectMap) : Run → List Frame → List Run
  | run, [] => [run]
  | run, f :: fs =>
    match run.extend? (map.aliasOf f) with
    | some longer => joined map longer fs
    | none => run :: joined map (.ofFrame (map.aliasOf f)) fs

/-- The runs that frames join to. -/
def ofFrames (map : DirectMap) : List Frame → List Run
  | [] => []
  | f :: fs => joined map (.ofFrame (map.aliasOf f)) fs

theorem mem_of_mem_joined {map : DirectMap} {run r : Run} {fs : List Frame} {a : VirtualAddress}
    (hr : r ∈ joined map run fs) (ha : a ∈ r) : a ∈ run ∨ map.frameAt a ∈ fs := by
  induction fs generalizing run with
  | nil => exact .inl (List.mem_singleton.mp hr ▸ ha)
  | cons f fs ih =>
    rw [joined] at hr
    split at hr
    · rename_i longer hext
      rcases ih hr with ha | ha
      · rcases mem_of_extend hext ha with ha | ha
        · exact .inl ha
        · exact .inr (by simp [(mem_ofFrame map f a).mp ha])
      · exact .inr (List.mem_cons_of_mem f ha)
    · rcases List.mem_cons.mp hr with rfl | hr
      · exact .inl ha
      · rcases ih hr with ha | ha
        · exact .inr (by simp [(mem_ofFrame map f a).mp ha])
        · exact .inr (List.mem_cons_of_mem f ha)

/-- The runs of some frames lie in those frames. -/
theorem frameAt_mem_of_mem_ofFrames {map : DirectMap} {r : Run} {fs : List Frame}
    {a : VirtualAddress} (hr : r ∈ ofFrames map fs) (ha : a ∈ r) : map.frameAt a ∈ fs := by
  cases fs with
  | nil => cases hr
  | cons f fs =>
    rcases mem_of_mem_joined hr ha with ha | ha
    · simp [(mem_ofFrame map f a).mp ha]
    · exact List.mem_cons_of_mem f ha

end Run

namespace Tiles

variable {map : DirectMap} {rest : List Run} {b c : Run} {arena : List Frame}

theorem length_add_lt (h : Tiles map (b :: c :: rest) arena) (ha : arena.length < 2 ^ 52) :
    b.length + c.length < 2 ^ 64 := by
  have := h.total
  simp only [List.map_cons, List.sum_cons, frameSize] at this
  omega

/-- A frame that extends a run is joined with it. -/
theorem extend {run longer : Run} {page : VirtualAddress}
    (h : Tiles map (Run.ofFrame page :: run :: rest) arena) (ha : arena.length < 2 ^ 52)
    (he : run.extend? page = some longer) : Tiles map (longer :: rest) arena := by
  have hlen := h.length_add_lt ha
  rcases Run.extend?_eq_some he with ⟨hafter, rfl⟩ | ⟨hbefore, rfl⟩
  · refine (h.perm (.swap _ _ _)).join hafter.symm (c := Run.ofFrame page) ?_
    omega
  · have hjoin := h.join (b := Run.ofFrame page) hbefore.symm (Nat.le_of_lt hlen)
    simpa only [Run.ofFrame, Nat.add_comm] using hjoin

end Tiles

namespace Carved

variable {map : DirectMap} {m : Ram} {list : FreeList} {free live aside : List Run}
variable {arena : List Frame}

/-- Blocks that are neither free nor live may be cut and joined at will. -/
theorem retile (h : Carved map m list free live aside arena) {aside' : List Run}
    {arena' : List Frame} (ht : Tiles map (aside' ++ (free ++ live)) arena')
    (ha : arena'.length < 2 ^ 52) : Carved map m list free live aside' arena' :=
  ⟨h.linked, h.recorded, h.started, ht.perm List.perm_append_comm, ha⟩

theorem tiles_aside (h : Carved map m list free live aside arena) :
    Tiles map (aside ++ (free ++ live)) arena := h.tiles.perm List.perm_append_comm

theorem addFrame (h : Carved map m list free live aside arena) {f : Frame} (hf : f ∉ arena)
    (ha : arena.length + 1 < 2 ^ 52) :
    Carved map m list free live (Run.ofFrame (map.aliasOf f) :: aside) (f :: arena) :=
  h.retile (h.tiles_aside.addFrame hf) ha

theorem extend {run longer : Run} {page : VirtualAddress}
    (h : Carved map m list free live (Run.ofFrame page :: run :: aside) arena)
    (he : run.extend? page = some longer) : Carved map m list free live (longer :: aside) arena :=
  h.retile (h.tiles_aside.extend h.room he) h.room

end Carved

namespace Heap

/-- A heap with its pool: the free frames, and the blocks that tile the arena. -/
structure Holds (s : HeapStore) (fs : List Frame) (free live aside : List Run)
    (arena : List Frame) : Prop where
  pool : s.store.frames.Holds s.store.ram fs
  carved : Carved s.store.frames.map s.store.ram s.heap.list free live aside arena
  apart : ∀ f ∈ fs, f ∉ arena
  room : fs.length + arena.length < 2 ^ 52

/-- What no operation of the heap changes. -/
structure SameSetup (s t : HeapStore) : Prop where
  map : t.store.frames.map = s.store.frames.map
  total : t.store.frames.total = s.store.frames.total
  attached : t.heap.attached = s.heap.attached

theorem SameSetup.refl (s : HeapStore) : SameSetup s s := ⟨rfl, rfl, rfl⟩

theorem SameSetup.trans {s t u : HeapStore} (h : SameSetup s t) (h' : SameSetup t u) :
    SameSetup s u :=
  ⟨h'.map.trans h.map, h'.total.trans h.total, h'.attached.trans h.attached⟩

/-- How often the heap grew and how much it took have not changed. -/
def SameCounts (s t : HeapStore) : Prop :=
  t.heap.expansions = s.heap.expansions ∧ t.heap.arenaBytes = s.heap.arenaBytes

variable {s : HeapStore} {fs : List Frame} {free live aside : List Run} {arena : List Frame}

theorem onStore_of_ok {ε α : Type} {x : EStateM ε (Store FramePool) α} {a : α}
    {t : Store FramePool} (h : x s.store = .ok a t) :
    onStore x s = .ok a { s with store := t } := by
  rw [onStore, onPart, h]

theorem Holds.alias_ne_null (h : Holds s fs free live aside arena) {f : Frame} (hf : f ∈ fs) :
    s.store.frames.map.aliasOf f ≠ .null := h.pool.linked.alias_ne_null f hf

/-- Taking a frame makes it a block that is set aside. -/
theorem Holds.take_frame {f : Frame} (h : Holds s (f :: fs) free live aside arena) :
    ∃ t : Store FramePool, FramePool.take? s.store = .ok (some f) t ∧
      SameSetup s { s with store := t } ∧
      Holds { s with store := t } fs free live
        (Run.ofFrame (s.store.frames.map.aliasOf f) :: aside) (f :: arena) ∧
      s.store.ram.OnlyChanges (fun a => s.store.frames.map.frameAt a = f) t.ram := by
  obtain ⟨hf, -⟩ := List.forall_mem_cons.mp h.apart
  obtain ⟨pool, htake, hmap, htotal, hpool⟩ := FramePool.take?_of_cons h.pool
  have hm : s.store.ram.OnlyChanges (fun a => s.store.frames.map.frameAt a = f)
      (s.store.ram.fill (s.store.frames.map.aliasOf f) frameSize 0) :=
    (s.store.ram.onlyChanges_fill _ _ _).mono fun a ha =>
      (s.store.frames.map.frameAt_eq_iff f a).mpr ha
  have hroom := h.room
  rw [List.length_cons] at hroom
  have hcarved := h.carved.congr hm fun b hb x hx he => hf (by
    rw [← he]
    exact h.carved.tiles.mem_arena (List.mem_append_left _ hb)
      (h.carved.header_subset (List.mem_append_left _ hb) hx))
  refine ⟨_, htake, ⟨hmap, htotal, rfl⟩, ⟨hpool, ?_, ?_, ?_⟩, hm⟩
  · simp only [hmap]
    exact hcarved.addFrame hf (by omega)
  · intro g hg hmem
    rcases List.mem_cons.mp hmem with rfl | hmem
    · exact (List.nodup_cons.mp h.pool.nodup).1 hg
    · exact h.apart g (List.mem_cons_of_mem f hg) hmem
  · rw [List.length_cons]
    omega

/-- A run that was set aside is put onto the list. -/
theorem Holds.push_run {run : Run} (h : Holds s fs free live (run :: aside) arena)
    (hrun : run.start ≠ .null) :
    ∃ t, pushRun (ε := Fault) run s = .ok () t ∧ SameSetup s t ∧ SameCounts s t ∧
      Holds t fs (run :: free) live aside arena ∧ s.store.ram.OnlyChanges (· ∈ run) t.store.ram := by
  obtain ⟨hcarved, hm⟩ := h.carved.push hrun
  have hmem : run ∈ free ++ live ++ run :: aside := by simp
  have hm' := hm.mono fun a ha => h.carved.header_subset hmem ha
  refine ⟨_, rfl, ⟨rfl, rfl, rfl⟩, ⟨rfl, rfl⟩, ⟨h.pool.congr hm' ?_, hcarved,
    h.apart, h.room⟩, hm'⟩
  intro a ha hf
  exact h.apart _ hf (h.carved.tiles.mem_arena hmem ha)

/-! ## Taking frames -/

section gather

variable {n k : Nat} {run : Run} {last : Option Run} {f : Frame} {u : Store FramePool}
  {t v : HeapStore}

theorem gather_of_empty {open? : Option Run} (h : FramePool.take? s.store = .ok none s.store) :
    gather (n + 1) open? s = .ok (open?, 0) s := by
  simp [gather, bind, EStateM.bind, onStore_of_ok h, pure, EStateM.pure]

theorem gather_of_first (h : FramePool.take? s.store = .ok (some f) u)
    (hf : u.frames.map.aliasOf f ≠ .null)
    (hg : gather n (some (.ofFrame (u.frames.map.aliasOf f))) { s with store := u } =
      .ok (last, k) t) : gather (n + 1) none s = .ok (last, k + 1) t := by
  rw [ne_eq, ← Address.isNull_iff] at hf
  simp [gather, bind, EStateM.bind, onStore_of_ok h, get, getThe, MonadStateOf.get, EStateM.get,
    hf, hg, pure, EStateM.pure]

theorem gather_of_extend {longer : Run} (h : FramePool.take? s.store = .ok (some f) u)
    (hf : u.frames.map.aliasOf f ≠ .null)
    (hrun : run.extend? (u.frames.map.aliasOf f) = some longer)
    (hg : gather n (some longer) { s with store := u } = .ok (last, k) t) :
    gather (n + 1) (some run) s = .ok (last, k + 1) t := by
  rw [ne_eq, ← Address.isNull_iff] at hf
  simp [gather, bind, EStateM.bind, onStore_of_ok h, get, getThe, MonadStateOf.get, EStateM.get,
    hf, hrun, hg, pure, EStateM.pure]

theorem gather_of_gap (h : FramePool.take? s.store = .ok (some f) u)
    (hf : u.frames.map.aliasOf f ≠ .null) (hrun : run.extend? (u.frames.map.aliasOf f) = none)
    (hp : pushRun (ε := Fault) run { s with store := u } = .ok () v)
    (hg : gather n (some (.ofFrame (u.frames.map.aliasOf f))) v = .ok (last, k) t) :
    gather (n + 1) (some run) s = .ok (last, k + 1) t := by
  rw [ne_eq, ← Address.isNull_iff] at hf
  simp [gather, bind, EStateM.bind, onStore_of_ok h, get, getThe, MonadStateOf.get, EStateM.get,
    hf, hrun, hp, hg, pure, EStateM.pure]

end gather

/-- Taking frames while a run is open: it finishes as the runs that the frames join to, all but the
last of which are put onto the list. -/
theorem Holds.gather_run {run : Run} (h : Holds s fs free live (run :: aside) arena)
    (hrun : run.start ≠ .null) (n : Nat) :
    ∃ finished last t, gather n (some run) s = .ok (some last, min n fs.length) t ∧
      Run.joined s.store.frames.map run (fs.take n) = finished ++ [last] ∧ last.start ≠ .null ∧
      SameSetup s t ∧ SameCounts s t ∧
      Holds t (fs.drop n) (finished.reverse ++ free) live (last :: aside)
        ((fs.take n).reverse ++ arena) ∧
      s.store.ram.OnlyChanges (fun a => a ∈ run ∨ s.store.frames.map.frameAt a ∈ fs.take n)
        t.store.ram := by
  induction n generalizing s fs free run arena with
  | zero =>
    exact ⟨[], run, s, by simp [gather]; rfl, by simp [Run.joined], hrun, .refl s, ⟨rfl, rfl⟩,
      by simpa using h, .refl _ _⟩
  | succ n ih =>
    cases fs with
    | nil =>
      exact ⟨[], run, s, gather_of_empty (FramePool.take?_of_nil h.pool), by simp [Run.joined], hrun,
        .refl s, ⟨rfl, rfl⟩, by simpa using h, .refl _ _⟩
    | cons f fs =>
      obtain ⟨u, htake, hsetup, hu, hm⟩ := h.take_frame
      have hmap : u.frames.map = s.store.frames.map := hsetup.map
      have hpage := h.alias_ne_null List.mem_cons_self
      simp only [List.take_succ_cons, List.drop_succ_cons, List.length_cons,
        Nat.add_min_add_right, Run.joined]
      cases hext : run.extend? (s.store.frames.map.aliasOf f) with
      | some longer =>
        -- the frame and the open run become one, which stays open
        have hlonger : Holds { s with store := u } fs free live (longer :: aside) (f :: arena) :=
          ⟨hu.pool, hmap ▸ (hmap ▸ hu.carved).extend hext, hu.apart, hu.room⟩
        obtain ⟨finished, last, t, hg, hjoin, hlast, hs, hc, ht, hm'⟩ :=
          ih hlonger (Run.start_ne_null_of_extend hext hrun hpage)
        simp only [hmap] at hjoin hm'
        refine ⟨finished, last, t, gather_of_extend htake (hmap ▸ hpage) (hmap ▸ hext) hg, hjoin,
          hlast, hsetup.trans hs, hc, by simpa using ht, ?_⟩
        refine (hm.mono fun a ha => .inr (by simp [ha])).trans (hm'.mono ?_)
        intro a ha
        rcases ha with ha | ha
        · rcases Run.mem_of_extend hext ha with ha | ha
          · exact .inl ha
          · exact .inr (by simp [(Run.mem_ofFrame _ f a).mp ha])
        · exact .inr (by simp [ha])
      | none =>
        -- the run is finished, and the frame opens the next one
        have hswap := hu.carved.aside_perm (.swap run _ aside)
        obtain ⟨v, hpush, hs, hc, hv, hm'⟩ :=
          Holds.push_run ⟨hu.pool, hswap, hu.apart, hu.room⟩ hrun
        have hmap' : v.store.frames.map = s.store.frames.map := hs.map.trans hmap
        obtain ⟨finished, last, t, hg, hjoin, hlast, hs', hc', ht, hm''⟩ := ih hv hpage
        simp only [hmap'] at hjoin hm''
        refine ⟨run :: finished, last, t,
          gather_of_gap htake (hmap ▸ hpage) (hmap ▸ hext) hpush (hmap ▸ hg), ?_, hlast,
          (hsetup.trans hs).trans hs', ⟨hc'.1.trans hc.1, hc'.2.trans hc.2⟩, by simpa using ht, ?_⟩
        · rw [hjoin, List.cons_append]
        · refine ((hm.mono fun a ha => .inr (by simp [ha])).trans
            (hm'.mono fun a ha => .inl ha)).trans
            (hm''.mono fun a ha => .inr ?_)
          rcases ha with ha | ha
          · simp [(Run.mem_ofFrame _ f a).mp ha]
          · simp [ha]

/-- Taking frames from the start: all runs but the last are put onto the list. -/
theorem Holds.gather_none (h : Holds s fs free live aside arena) (n : Nat) :
    ∃ finished last t, gather n none s = .ok (last, min n fs.length) t ∧
      Run.ofFrames s.store.frames.map (fs.take n) = finished ++ last.toList ∧
      (∀ run ∈ last, run.start ≠ .null) ∧ SameSetup s t ∧ SameCounts s t ∧
      Holds t (fs.drop n) (finished.reverse ++ free) live (last.toList ++ aside)
        ((fs.take n).reverse ++ arena) ∧
      s.store.ram.OnlyChanges (fun a => s.store.frames.map.frameAt a ∈ fs.take n) t.store.ram := by
  cases n with
  | zero =>
    exact ⟨[], none, s, by simp [gather]; rfl, by simp [Run.ofFrames], by simp, .refl s, ⟨rfl, rfl⟩,
      by simpa using h, .refl _ _⟩
  | succ n =>
    cases fs with
    | nil =>
      exact ⟨[], none, s, gather_of_empty (FramePool.take?_of_nil h.pool), by simp [Run.ofFrames],
        by simp, .refl s, ⟨rfl, rfl⟩, by simpa using h, .refl _ _⟩
    | cons f fs =>
      obtain ⟨u, htake, hsetup, hu, hm⟩ := h.take_frame
      have hmap : u.frames.map = s.store.frames.map := hsetup.map
      have hpage := h.alias_ne_null List.mem_cons_self
      obtain ⟨finished, last, t, hg, hjoin, hlast, hs, hc, ht, hm'⟩ := hu.gather_run hpage n
      simp only [hmap] at hjoin hm'
      simp only [List.take_succ_cons, List.drop_succ_cons, List.length_cons,
        Nat.add_min_add_right]
      refine ⟨finished, some last, t, gather_of_first htake (hmap ▸ hpage) (hmap ▸ hg), hjoin, ?_,
        hsetup.trans hs, hc, by simpa using ht, ?_⟩
      · rintro run ⟨⟩
        exact hlast
      · refine (hm.mono fun a ha => by simp [ha]).trans (hm'.mono ?_)
        intro a ha
        rcases ha with ha | ha
        · simp [(Run.mem_ofFrame _ f a).mp ha]
        · simp [ha]

/-! ## Growing -/

theorem expand_of_not_attached (h : s.heap.attached = false) (n : Nat) :
    expand n s = .ok 0 s := by
  simp [expand, bind, EStateM.bind, get, getThe, MonadStateOf.get, EStateM.get, h, pure,
    EStateM.pure]

/-- What is left to do once the frames are taken: the last run goes onto the list, and if there were
frames at all they are counted and told of. -/
theorem expand_of_gather {n got : Nat} {last : Option Run} {u v : HeapStore}
    (hattached : s.heap.attached = true) (hg : gather n none s = .ok (last, got) u)
    (hp : ∀ run ∈ last, pushRun (ε := Fault) run u = .ok () v) (hnone : last = none → v = u) :
    ∃ log, expand n s = .ok got
      { heap := { v.heap with
          expansions := v.heap.expansions + (if got = 0 then 0 else 1)
          arenaBytes := v.heap.arenaBytes + got * frameSize }
        store := { v.store with log } } := by
  have hpush : expand n s = (do
      if 0 < got then
        modify fun s => { s with heap := { s.heap with
          expansions := s.heap.expansions + 1
          arenaBytes := s.heap.arenaBytes + got * frameSize } }
        let arena := (← get).heap.arenaBytes
        onStore <| Store.logLine .debug fun _ =>
          "heap grew by " ++ got.repr ++ " frames to " ++ (arena / 1024).repr ++ " KiB"
      return got : Step HeapStore Nat) v := by
    cases last with
    | none =>
      cases hnone rfl
      simp [expand, bind, EStateM.bind, get, getThe, MonadStateOf.get, EStateM.get, hattached, hg]
    | some run =>
      simp [expand, bind, EStateM.bind, get, getThe, MonadStateOf.get, EStateM.get, hattached, hg,
        hp run rfl]
  rw [hpush]
  by_cases hgot : got = 0
  · subst hgot
    exact ⟨v.store.log, by simp; rfl⟩
  · rw [if_pos (Nat.pos_of_ne_zero hgot), if_neg hgot]
    exact ⟨_, rfl⟩

/-- What growing by some frames from the front of the pool's list leads to. -/
structure Grew (s t : HeapStore) (k : Nat) (fs : List Frame) (free live aside : List Run)
    (arena : List Frame) : Prop where
  setup : SameSetup s t
  holds : Holds t (fs.drop k) ((Run.ofFrames s.store.frames.map (fs.take k)).reverse ++ free) live
    aside ((fs.take k).reverse ++ arena)
  expansions : t.heap.expansions = s.heap.expansions + (if k = 0 then 0 else 1)
  arenaBytes : t.heap.arenaBytes = s.heap.arenaBytes + k * frameSize
  ram : s.store.ram.OnlyChanges (fun a => s.store.frames.map.frameAt a ∈ fs.take k) t.store.ram

/-- Not growing at all. -/
theorem Grew.none (h : Holds s fs free live aside arena) (log : Log) :
    Grew s { s with store := { s.store with log } } 0 fs free live aside arena :=
  ⟨⟨rfl, rfl, rfl⟩, ⟨h.pool, h.carved, h.apart, h.room⟩, rfl, by simp, .refl _ _⟩

/-- Growing takes frames from the front of the pool's list, as many as are asked for and there are.
Their runs become free blocks. -/
theorem Holds.expand (h : Holds s fs free live aside arena) (hattached : s.heap.attached = true)
    (n : Nat) :
    ∃ t, expand n s = .ok (min n fs.length) t ∧
      Grew s t (min n fs.length) fs free live aside arena := by
  obtain ⟨finished, last, u, hg, hjoin, hlast, hs, hc, hu, hm⟩ := h.gather_none n
  -- the run that is still open goes onto the list like the others
  have hpushed : ∃ v, (∀ run ∈ last, pushRun (ε := Fault) run u = .ok () v) ∧
      (last = none → v = u) ∧ SameSetup s v ∧ SameCounts s v ∧
      Holds v (fs.drop n) ((finished ++ last.toList).reverse ++ free) live aside
        ((fs.take n).reverse ++ arena) ∧
      s.store.ram.OnlyChanges (fun a => s.store.frames.map.frameAt a ∈ fs.take n) v.store.ram := by
    cases last with
    | none => exact ⟨u, by simp, fun _ => rfl, hs, hc, by simpa using hu, hm⟩
    | some run =>
      obtain ⟨v, hpush, hs', hc', hv, hm'⟩ := Holds.push_run hu (hlast run rfl)
      refine ⟨v, ?_, by simp, hs.trans hs', ⟨hc'.1.trans hc.1, hc'.2.trans hc.2⟩, by simpa using hv,
        hm.trans (hm'.mono ?_)⟩
      · rintro _ ⟨⟩
        exact hpush
      · intro a ha
        refine Run.frameAt_mem_of_mem_ofFrames (r := run) ?_ ha
        rw [hjoin]
        simp
  obtain ⟨v, hp, hnone, hs', hc', hv, hm'⟩ := hpushed
  obtain ⟨log, hexpand⟩ := expand_of_gather hattached hg hp hnone
  rw [← hjoin, List.take_eq_take_min, List.drop_eq_drop_min] at hv
  rw [List.take_eq_take_min] at hm'
  exact ⟨_, hexpand, ⟨hs'.map, hs'.total, hs'.attached⟩, ⟨hv.pool, hv.carved, hv.apart, hv.room⟩,
    congrArg (· + _) hc'.1, congrArg (· + _) hc'.2, hm'⟩

end Heap

end PagedMemory
