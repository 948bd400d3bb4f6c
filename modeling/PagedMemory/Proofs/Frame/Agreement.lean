import PagedMemory.Proofs.Agreement
import PagedMemory.Proofs.Frame.Filling
/-!
# Pools that agree

A pool reads nothing from memory but links, and each link was written when its frame was put on the
list. Two pools with the same frames on their lists hand out the same frames, take frames back alike
and count alike, whatever else is in their memories.

That a memory map is added is felt in its own usable frames only.
-/
namespace PagedMemory

namespace FramePool

variable {s s' t u : Store FramePool} {fs gs : List Frame} {f : Frame}

/-! ## Where frames are added -/

/-- Memory has changed in some frames only, and they are still seen where they were. -/
def Touched (s : Store FramePool) (gs : List Frame) (t : Store FramePool) : Prop :=
  t.frames.map = s.frames.map ∧
    s.ram.OnlyChanges (fun a => s.frames.map.frameAt a ∈ gs) t.ram

theorem Touched.mono (h : Touched s fs t) (hsub : fs ⊆ gs) : Touched s gs t :=
  ⟨h.1, h.2.mono fun _ ha => hsub ha⟩

theorem Touched.trans (h : Touched s fs t) (h' : Touched t gs u) : Touched s (fs ++ gs) u := by
  refine ⟨h'.1.trans h.1, (h.2.mono fun a ha => List.mem_append_left gs ha).trans (h'.2.mono ?_)⟩
  intro a ha
  rw [h.1] at ha
  exact List.mem_append_right fs ha

theorem push_touches (f : Frame) (s : Store FramePool) :
    Ends (push f) s (fun _ t => Touched s [f] t) (fun _ _ => False) := by
  by_cases hnull : s.frames.map.aliasOf f = .null
  · exact Ends.of_eq_ok (push_of_null hnull) ⟨rfl, .refl _ _⟩
  · have hh : (s.frames.map.aliasOf f).isNull = false := (Address.isNull_eq_false_iff _).mpr hnull
    rw [push, Ends.get_bind_iff]
    simp only [hh, Bool.false_eq_true, if_false]
    refine ⟨rfl, (s.ram.onlyChanges_writeWord _ _).mono fun a ha => ?_⟩
    exact List.mem_singleton.mpr (Ram.frameAt_of_distance_alias ha)

theorem addFrames_touches (gs : List Frame) (s : Store FramePool) :
    Ends (addFrames gs) s (fun _ t => Touched s gs t) (fun _ _ => False) := by
  induction gs generalizing s with
  | nil => exact ⟨rfl, .refl _ _⟩
  | cons g gs ih =>
    rw [addFrames]
    refine Ends.bind (push_touches g s) ?_
    intro added t ht
    cases added with
    | true => exact Ends.bind (ih t) fun n u hu => ht.trans hu
    | false =>
      simp only [Bool.false_eq_true, if_false, Ends.logLine_bind_iff]
      exact (ih _).mono (fun n u hu => ht.trans hu) fun _ _ => id

theorem addRegions_touches (rs : List Region) (s : Store FramePool) :
    Ends (addRegions rs) s (fun _ t => Touched s (rs.flatMap fun r => r.frames.toList) t)
      (fun _ _ => False) := by
  induction rs generalizing s with
  | nil => exact ⟨rfl, .refl _ _⟩
  | cons r rs ih =>
    rw [addRegions, List.flatMap_cons]
    refine Ends.bind (addFrames_touches _ s) ?_
    intro n t ht
    rw [Ends.logLine_bind_iff]
    refine Ends.bind (ih _) fun k u hu => ?_
    exact (ht.mono (List.reverse_perm _).subset).trans hu

theorem addMemoryMap_touches (memoryMap : List Region) (s : Store FramePool) :
    Ends (addMemoryMap memoryMap) s (fun _ t => Touched s (Region.wholeFrames memoryMap) t)
      (fun _ t => Touched s (Region.wholeFrames memoryMap) t) := by
  rw [addMemoryMap]
  refine Ends.bind ((addRegions_touches _ s).mono (fun _ _ h => h) fun _ _ h => h.elim) ?_
  intro n t ht
  have hwhole : Touched s (Region.wholeFrames memoryMap) t := by
    refine ht.mono fun f hf => ?_
    simpa [Region.wholeFrames] using hf
  rw [Ends.modify_bind_iff]
  refine Ends.bind ((reportAdded_ends n _).mono (fun _ _ h => h) ?_) ?_
  · rintro f u ⟨-, rfl, -⟩
    exact hwhole
  · rintro - u ⟨log, rfl⟩
    exact hwhole

/-! ## Two pools -/

/-- Pools that keep the same frames are the same. -/
theorem Holds.pool_eq {pool pool' : FramePool} {m m' : Ram} (h : pool.Holds m fs)
    (h' : pool'.Holds m' fs) (hmap : pool'.map = pool.map) (htotal : pool'.total = pool.total) :
    pool' = pool := by
  obtain ⟨map, head, free, total⟩ := pool
  obtain ⟨map', head', free', total'⟩ := pool'
  cases hmap
  cases htotal
  have hfree : free' = free := h'.free.trans h.free.symm
  have hhead : head' = head := by
    cases fs with
    | nil => exact h'.linked.trans h.linked.symm
    | cons f fs => exact h'.linked.1.trans h.linked.1.symm
  rw [hfree, hhead]

/-- Two pools with the same frames on their lists and the same numbers. -/
structure Alike (s s' : Store FramePool) : Prop where
  pool : s'.frames = s.frames
  lists : ∃ fs, s.frames.Holds s.ram fs ∧ s'.frames.Holds s'.ram fs

namespace Alike

/-- The numbers follow from the frames. -/
theorem of_holds (h : s.frames.Holds s.ram fs) (h' : s'.frames.Holds s'.ram fs)
    (hmap : s'.frames.map = s.frames.map) (htotal : s'.frames.total = s.frames.total) :
    Alike s s' :=
  ⟨h.pool_eq h' hmap htotal, fs, h, h'⟩

theorem freeFrames_eq (h : Alike s s') :
    s'.frames.freeFrames s'.ram = s.frames.freeFrames s.ram := by
  obtain ⟨fs, hs, hs'⟩ := h.lists
  exact hs'.freeFrames_eq.trans hs.freeFrames_eq.symm

theorem allocate (h : Alike s s') :
    Agree (FramePool.allocate s) (FramePool.allocate s') (fun _ => Alike) (fun _ => Alike) := by
  obtain ⟨fs, hs, hs'⟩ := h.lists
  rw [FramePool.allocate]
  cases fs with
  | nil =>
    refine Agree.bind_of_ok (Op.ofStep_of_ok (take?_of_nil hs))
      (Op.ofStep_of_ok (take?_of_nil hs')) ?_
    exact ⟨rfl, h⟩
  | cons f fs =>
    obtain ⟨pool, htake, hmap, htotal, hpool⟩ := take?_of_cons hs
    obtain ⟨pool', htake', hmap', htotal', hpool'⟩ := take?_of_cons hs'
    refine Agree.bind_of_ok (Op.ofStep_of_ok htake) (Op.ofStep_of_ok htake') ⟨rfl, ?_⟩
    refine of_holds hpool hpool' ?_ ?_
    · exact (hmap'.trans (congrArg FramePool.map h.pool)).trans hmap.symm
    · exact (htotal'.trans (congrArg FramePool.total h.pool)).trans htotal.symm

theorem release (h : Alike s s') (hnull : s.frames.map.aliasOf f ≠ .null)
    (hf : f ∉ s.frames.freeFrames s.ram) :
    Agree (FramePool.release f s) (FramePool.release f s') (fun _ => Alike)
      (fun _ _ _ => False) := by
  obtain ⟨fs, hs, hs'⟩ := h.lists
  rw [hs.freeFrames_eq] at hf
  obtain ⟨pool, hpush, hmap, htotal, hpool⟩ := push_of_ne_null hs hnull hf
  obtain ⟨pool', hpush', hmap', htotal', hpool'⟩ :=
    push_of_ne_null hs' (h.pool.symm ▸ hnull) hf
  rw [FramePool.release]
  refine Agree.bind_of_ok hpush hpush' ⟨rfl, of_holds hpool hpool' ?_ ?_⟩
  · exact (hmap'.trans (congrArg FramePool.map h.pool)).trans hmap.symm
  · exact (htotal'.trans (congrArg FramePool.total h.pool)).trans htotal.symm

theorem addMemoryMap (h : Alike s s') {memoryMap : List Region}
    (hn : (Region.wholeFrames memoryMap ++ s.frames.freeFrames s.ram).Nodup) :
    Agree (FramePool.addMemoryMap memoryMap s) (FramePool.addMemoryMap memoryMap s')
      (fun _ => Alike) (fun _ _ _ => False) := by
  obtain ⟨fs, hs, hs'⟩ := h.lists
  rw [hs.freeFrames_eq] at hn
  refine .of_ends (addMemoryMap_ends memoryMap hs hn) (addMemoryMap_ends memoryMap hs' hn) ?_
    (fun _ _ _ _ => False.elim) (fun _ _ _ _ _ => id) fun _ _ _ _ hf => hf.elim
  rintro n t n' t' ⟨⟨hmap, hpool, hcount⟩, htotal⟩ ⟨⟨hmap', hpool', hcount'⟩, htotal'⟩
  rw [h.pool] at hmap' hpool' hcount' htotal'
  have hsame : n = n' := hcount.trans hcount'.symm
  refine ⟨hsame, of_holds hpool hpool' (hmap'.trans hmap.symm) ?_⟩
  rw [htotal', htotal, hsame]

end Alike

end FramePool

end PagedMemory
