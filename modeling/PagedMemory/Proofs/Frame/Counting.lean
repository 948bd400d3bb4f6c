import PagedMemory.Proofs.Frame.Filling
/-!
# The counters of a pool

A memory map that names a frame twice leads to a list of free frames that runs in a circle, and then
nothing can be said of the frames that are handed out. The counters of the pool are right all the
same: each frame that goes onto the list raises the number of free frames by one, each frame that
leaves it lowers it by one, and the direct map and the number of frames in all stay what they are.
-/
namespace PagedMemory

namespace FramePool

variable {p q r : FramePool} {n k : Nat}

/-- A pool after some frames left it. -/
structure Drawn (p q : FramePool) (n : Nat) : Prop where
  map : q.map = p.map
  total : q.total = p.total
  free : q.free + n = p.free

theorem Drawn.none (p : FramePool) : Drawn p p 0 := ⟨rfl, rfl, rfl⟩

theorem Drawn.trans (h : Drawn p q n) (h' : Drawn q r k) : Drawn p r (n + k) := by
  refine ⟨h'.map.trans h.map, h'.total.trans h.total, ?_⟩
  have hn := h.free
  have hk := h'.free
  omega

/-! ## Frames that leave the list -/

theorem pop_counts (s : Store FramePool) :
    Ends pop s (fun found t => Drawn s.frames t.frames found.toList.length)
      (fun _ t => Drawn s.frames t.frames 0) := by
  rw [pop, Ends.get_bind_iff]
  dsimp only
  split
  · exact .none _
  · by_cases hfree : s.frames.free = 0
    · rw [if_pos hfree]
      exact ⟨rfl, rfl, rfl⟩
    · rw [if_neg hfree]
      exact ⟨rfl, rfl, Nat.sub_add_cancel (Nat.pos_of_ne_zero hfree)⟩

theorem take?_counts (s : Store FramePool) :
    Ends take? s (fun found t => Drawn s.frames t.frames found.toList.length)
      (fun _ t => Drawn s.frames t.frames 0) := by
  rw [take?]
  refine Ends.bind (pop_counts s) ?_
  rintro (_ | f) t ht
  · exact ht
  · exact ht

/-- A frame whose alias is null cannot be given back. -/
theorem release_of_null {s : Store FramePool} {f : Frame} (h : s.frames.map.aliasOf f = .null) :
    release f s = .error .nullFrame s := by
  simp [release, Bind.bind, EStateM.bind, push_of_null h, throw, throwThe, MonadExceptOf.throw,
    EStateM.throw]

/-! ## Frames that are added -/

/-- A pool after a number of frames were put on its list. -/
structure Grown (p q : FramePool) (n : Nat) : Prop where
  map : q.map = p.map
  total : q.total = p.total
  free : q.free = p.free + n

theorem Grown.trans (h : Grown p q n) (h' : Grown q r k) : Grown p r (n + k) := by
  refine ⟨h'.map.trans h.map, h'.total.trans h.total, ?_⟩
  rw [h'.free, h.free, Nat.add_assoc]

/-- Whatever the list is like, a frame that can be on it goes there. -/
theorem push_counts {s : Store FramePool} {f : Frame} (h : s.frames.map.aliasOf f ≠ .null) :
    ∃ t, push f s = .ok true t ∧ Grown s.frames t.frames 1 := by
  have hh : (s.frames.map.aliasOf f).isNull = false := (Address.isNull_eq_false_iff _).mpr h
  refine ⟨{ s with
    ram := s.ram.writeWord (s.frames.map.aliasOf f) s.frames.head.value
    frames := { s.frames with head := s.frames.map.aliasOf f, free := s.frames.free + 1 } }, ?_,
    ⟨rfl, rfl, rfl⟩⟩
  simp [push, hh, bind, EStateM.bind, get, getThe, MonadStateOf.get, EStateM.get, set,
    MonadStateOf.set, EStateM.set, pure, EStateM.pure]

theorem addFrames_counts (gs : List Frame) (s : Store FramePool) :
    Ends (addFrames gs) s
      (fun n t => n = (listable s.frames.map gs).length ∧ Grown s.frames t.frames n)
      (fun _ _ => False) := by
  induction gs generalizing s with
  | nil => exact ⟨rfl, rfl, rfl, rfl⟩
  | cons g gs ih =>
    rw [addFrames]
    by_cases hnull : s.frames.map.aliasOf g = .null
    · refine Ends.bind_of_ok (push_of_null hnull) ?_
      rw [listable_cons_of_null gs hnull]
      exact ih _
    · obtain ⟨t, hpush, ht⟩ := push_counts hnull
      refine Ends.bind_of_ok hpush ?_
      refine Ends.bind (ih t) ?_
      rintro n u ⟨hn, hu⟩
      rw [Ends.pure_iff, listable_cons_of_ne_null gs hnull, List.length_cons, ← ht.map]
      exact ⟨congrArg (· + 1) hn, Nat.add_comm n 1 ▸ ht.trans hu⟩

theorem addRegions_counts (rs : List Region) (s : Store FramePool) :
    Ends (addRegions rs) s
      (fun n t => n = (listable s.frames.map (rs.flatMap fun r => r.frames.toList)).length ∧
        Grown s.frames t.frames n)
      (fun _ _ => False) := by
  induction rs generalizing s with
  | nil => exact ⟨rfl, rfl, rfl, rfl⟩
  | cons r rs ih =>
    rw [addRegions]
    refine Ends.bind (addFrames_counts _ s) ?_
    rintro n t ⟨hn, ht⟩
    rw [listable_reverse, List.length_reverse] at hn
    rw [Ends.logLine_bind_iff]
    refine Ends.bind (ih _) ?_
    rintro k u ⟨hk, hu⟩
    rw [ht.map] at hk
    rw [Ends.pure_iff, List.flatMap_cons, listable_append, List.length_append, ← hn, ← hk]
    exact ⟨rfl, ht.trans hu⟩

/-- A memory map adds as many frames as it names, those with a null alias left out. -/
theorem addMemoryMap_counts (memoryMap : List Region) (s : Store FramePool) :
    Ends (addMemoryMap memoryMap) s
      (fun n t => n = (listable s.frames.map (Region.wholeFrames memoryMap)).length ∧
        t.frames.map = s.frames.map ∧ t.frames.total = s.frames.total + n ∧
        t.frames.free = s.frames.free + n)
      (fun f _ => f = .mulOverflow) := by
  have hperm : ((memoryMap.reverse.filter Region.isUsable).flatMap fun r => r.frames.toList).Perm
      (Region.wholeFrames memoryMap) :=
    ((List.reverse_perm memoryMap).filter _).flatMap_right _
  rw [addMemoryMap]
  refine Ends.bind ((addRegions_counts _ s).mono (fun _ _ h => h) fun _ _ => False.elim) ?_
  rintro n t ⟨hn, ht⟩
  rw [Ends.modify_bind_iff]
  refine Ends.bind ((reportAdded_ends n _).mono (fun _ _ h => h) fun _ _ h => h.1) ?_
  rintro - u ⟨log, rfl⟩
  exact ⟨hn.trans (hperm.filter _).length_eq, ht.map, congrArg (· + n) ht.total, ht.free⟩

/-! ## Programs that only take frames -/

variable {ε α β : Type}

/-- However a program ends, some frames left the pool, and that is all that happened to it. -/
def OnlyDraws (x : EStateM ε (Store FramePool) α) : Prop :=
  ∀ s, Ends x s (fun _ t => ∃ n, Drawn s.frames t.frames n)
    (fun _ t => ∃ n, Drawn s.frames t.frames n)

theorem OnlyDraws.of_frames_eq {x : EStateM ε (Store FramePool) α}
    (h : ∀ s, Ends x s (fun _ t => t.frames = s.frames) (fun _ t => t.frames = s.frames)) :
    OnlyDraws x :=
  fun s => (h s).mono (fun _ _ ht => ⟨0, ht ▸ .none _⟩) fun _ _ ht => ⟨0, ht ▸ .none _⟩

theorem OnlyDraws.bind {x : EStateM ε (Store FramePool) α}
    {f : α → EStateM ε (Store FramePool) β} (hx : OnlyDraws x) (hf : ∀ a, OnlyDraws (f a)) :
    OnlyDraws (x >>= f) := by
  intro s
  refine Ends.bind_trans ?_ (hx s) hf
  rintro s t u ⟨n, ht⟩ ⟨k, hu⟩
  exact ⟨n + k, ht.trans hu⟩

theorem onlyDraws_check (c : Except Fault α) :
    OnlyDraws (Op.ofCheck c : Op ε (Store FramePool) α) :=
  .of_frames_eq fun _ => by cases c <;> rfl

theorem onlyDraws_updateRam (f : Ram → Ram) :
    OnlyDraws (Store.updateRam f : EStateM ε (Store FramePool) Unit) :=
  .of_frames_eq fun _ => rfl

theorem onlyDraws_take : OnlyDraws (Op.ofStep FrameSource.take : Op ε (Store FramePool) _) :=
  fun s => Ends.ofStep ((take?_counts s).mono (fun _ _ ht => ⟨_, ht⟩) fun _ _ ht => ⟨_, ht⟩)

end FramePool

end PagedMemory
