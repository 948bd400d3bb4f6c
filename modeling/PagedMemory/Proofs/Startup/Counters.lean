import PagedMemory.Proofs.Frame.Counting
import PagedMemory.Proofs.Heap.Growth
import PagedMemory.Proofs.Paging.TableCount
/-!
# Where the frames of a pool go

Whatever the list of free frames is like, page tables draw frames from the pool and never put any
back, and a heap that grows counts as many frames for its arena as the pool does.
-/
namespace PagedMemory

/-! ## Page tables -/

namespace AddressSpace

open FramePool

theorem onlyDraws_create (window : Window) :
    OnlyDraws (create window : Op MapError (Store FramePool) AddressSpace) := by
  refine onlyDraws_take.bind ?_
  rintro (_ | root)
  · exact .of_frames_eq fun s => rfl
  · refine (onlyDraws_check _).bind fun table => ?_
    exact (onlyDraws_updateRam _).bind fun _ => .of_frames_eq fun s => rfl

theorem onlyDraws_nextTable (space : AddressSpace) (parent : Frame) (i : TableIndex)
    (level : TableLevel) :
    OnlyDraws (space.nextTable parent i level : Op MapError (Store FramePool) Frame) := by
  refine (onlyDraws_check _).bind fun parentTable => ?_
  intro s
  rw [Ends.get_bind_iff]
  dsimp only
  split
  · exact ⟨0, .none _⟩
  · refine onlyDraws_take.bind ?_ s
    rintro (_ | frame)
    · exact .of_frames_eq fun s => rfl
    · refine (onlyDraws_check _).bind fun table => ?_
      refine (onlyDraws_updateRam _).bind fun _ => (onlyDraws_check _).bind fun link => ?_
      exact (onlyDraws_updateRam _).bind fun _ => .of_frames_eq fun s => rfl

theorem onlyDraws_mapPage (space : AddressSpace) (va : VirtualAddress) (pa : PhysicalAddress)
    (size : PageSize) :
    OnlyDraws (space.mapPage va pa size : Op MapError (Store FramePool) Unit) := by
  refine (onlyDraws_nextTable _ _ _ _).bind fun pml3 => ?_
  refine (onlyDraws_nextTable _ _ _ _).bind fun pml2 => ?_
  cases size with
  | large =>
    refine (onlyDraws_check _).bind fun table => (onlyDraws_check _).bind fun leaf => ?_
    exact onlyDraws_updateRam _
  | small =>
    refine (onlyDraws_nextTable _ _ _ _).bind fun pml1 => ?_
    refine (onlyDraws_check _).bind fun table => (onlyDraws_check _).bind fun leaf => ?_
    exact onlyDraws_updateRam _

end AddressSpace

namespace Paging

open FramePool

/-- Building the kernel map takes frames from the pool. -/
theorem initPaging_draws (memoryMap : List Region) (image : KernelImage) (s : PagingStore) :
    Ends (initPaging memoryMap image) s
      (fun _ t => ∃ n, Drawn s.store.frames t.store.frames n) (fun _ _ => True) := by
  rw [initPaging, Ends.get_bind_iff]
  split
  · trivial
  · have hcreate : Ends createSpace s (fun _ t => ∃ n, Drawn s.store.frames t.store.frames n)
        (fun _ _ => True) := by
      rw [createSpace, Ends.get_bind_iff]
      refine Ends.onPart (Ends.mapError
        ((AddressSpace.onlyDraws_create _ s.store).mono (fun _ _ h => h) ?_))
      rintro (_ | _) t - <;> trivial
    refine Ends.bind hcreate ?_
    rintro space t ht
    refine Ends.bind (mapRegions_ends_of
      (P := fun _ t => ∃ n, Drawn s.store.frames t.store.frames n) ?logged memoryMap ?page [] ht)
      fun _ u hu => hu
    case logged => exact fun _ _ _ h => h
    case page =>
      rintro q - - u ⟨n, hu⟩
      refine Ends.onPart (Ends.mapError
        ((AddressSpace.onlyDraws_mapPage _ _ _ _ u.store).mono ?_ ?_))
      · rintro - v ⟨k, hv⟩
        exact ⟨n + k, hu.trans hv⟩
      · rintro (_ | _) v - <;> trivial

/-- A kernel map that was built can be loaded, unless its root is out of range. -/
theorem loadKernelMap_of_built {s : PagingStore} {root : Frame} (h : s.kernelMap = .built root) :
    Ends loadKernelMap s
      (fun value t => value.IsPlain root ∧ t.kernelMap = .active root ∧
        t.store.frames = s.store.frames ∧ t.store.ram = s.store.ram)
      (fun stop _ => ∃ f, stop = .fault f) := by
  have hroot : s.kernelMap.root? = some root := by rw [h]; rfl
  rw [loadKernelMap, Ends.get_bind_iff, hroot]
  dsimp only
  cases hvalue : Cr3.ofRoot root with
  | error f => exact ⟨f, rfl⟩
  | ok value => exact ⟨Cr3.isPlain_of_ofRoot hvalue, rfl, rfl, rfl⟩

end Paging

/-! ## The heap -/

namespace Heap

open FramePool

/-- A heap after it took some frames from its pool but before it counted them. -/
structure Drew (s t : HeapStore) (n : Nat) : Prop where
  drawn : Drawn s.store.frames t.store.frames n
  attached : t.heap.attached = s.heap.attached
  arenaBytes : t.heap.arenaBytes = s.heap.arenaBytes

variable {s t u : HeapStore} {n k : Nat}

theorem Drew.trans (h : Drew s t n) (h' : Drew t u k) : Drew s u (n + k) :=
  ⟨h.drawn.trans h'.drawn, h'.attached.trans h.attached, h'.arenaBytes.trans h.arenaBytes⟩

theorem pushRun_draws (run : Run) (s : HeapStore) :
    Ends (pushRun (ε := Fault) run) s (fun _ t => Drew s t 0) (fun _ _ => True) :=
  ⟨.none _, rfl, rfl⟩

theorem gather_draws (n : Nat) (run : Option Run) (s : HeapStore) :
    Ends (gather n run) s (fun r t => r.2 ≤ n ∧ Drew s t r.2) (fun _ _ => True) := by
  induction n generalizing run s with
  | zero => exact ⟨Nat.le_refl 0, .none _, rfl, rfl⟩
  | succ n ih =>
    have htake : Ends (onStore FramePool.take?) s
        (fun found t => Drew s t found.toList.length) (fun _ _ => True) :=
      Ends.onPart ((take?_counts s.store).mono (fun _ _ ht => ⟨ht, rfl, rfl⟩) fun _ _ _ => trivial)
    rw [gather]
    refine Ends.bind htake ?_
    rintro (_ | frame) t ht
    · exact ⟨Nat.zero_le _, ht⟩
    · rw [Ends.get_bind_iff]
      dsimp only
      split
      · -- a frame that is seen at null is an error of the pool
        rename_i hnull
        have hrelease : Ends (onStore (FramePool.release frame)) t (fun _ _ => False)
            (fun _ _ => True) :=
          Ends.onPart (Ends.of_eq_error (release_of_null ((Address.isNull_iff _).mp hnull)) trivial)
        exact Ends.bind hrelease fun _ _ => False.elim
      · have hrest : ∀ joined u, Drew t u 0 → Ends (do
            let r ← gather n (some joined)
            return (r.1, r.2 + 1)) u (fun r v => r.2 ≤ n + 1 ∧ Drew s v r.2)
            (fun _ _ => True) := by
          intro joined u hu
          refine Ends.bind (ih (some joined) u) ?_
          rintro ⟨last, taken⟩ v ⟨hle, hv⟩
          refine ⟨Nat.succ_le_succ hle, ?_⟩
          have hall := (ht.trans hu).trans hv
          rwa [Nat.add_zero, Option.toList_some, List.length_singleton, Nat.add_comm] at hall
        have hstays : Drew t t 0 := ⟨.none _, rfl, rfl⟩
        cases run with
        | none => exact hrest _ t hstays
        | some run =>
          dsimp only
          split
          · exact hrest _ t hstays
          · exact Ends.bind (pushRun_draws run t) fun _ u hu => hrest _ u hu

/-- What a heap has once it was given to a pool and took frames from there, up to `n` of them. -/
structure Grows (s t : HeapStore) (n got : Nat) : Prop where
  le : got ≤ n
  drawn : Drawn s.store.frames t.store.frames got
  attached : t.heap.attached = true
  arenaBytes : t.heap.arenaBytes = s.heap.arenaBytes + got * frameSize

theorem expand_grows (n : Nat) (s : HeapStore) (h : s.heap.attached = true) :
    Ends (expand n) s (fun got t => Grows s t n got) (fun _ _ => True) := by
  rw [expand, Ends.get_bind_iff, h]
  simp only [Bool.not_true, Bool.false_eq_true, if_false]
  refine Ends.bind (gather_draws n none s) ?_
  rintro ⟨last, got⟩ t ⟨hle, ht⟩
  have hpush : ∀ u, Drew t u 0 → Ends (do
      if 0 < got then
        modify fun s => { s with heap := { s.heap with
          expansions := s.heap.expansions + 1
          arenaBytes := s.heap.arenaBytes + got * frameSize } }
        let arena := (← get).heap.arenaBytes
        onStore <| Store.logLine .debug fun _ =>
          "heap grew by " ++ got.repr ++ " frames to " ++ (arena / 1024).repr ++ " KiB"
      return got : Step HeapStore Nat) u (fun got v => Grows s v n got) (fun _ _ => True) := by
    intro u hu
    have hall := ht.trans hu
    split
    · exact ⟨hle, hall.drawn, hall.attached.trans h, congrArg (· + got * frameSize) hall.arenaBytes⟩
    · have hgot : got = 0 := by omega
      subst hgot
      exact ⟨hle, hall.drawn, hall.attached.trans h, hall.arenaBytes⟩
  cases last with
  | none => exact hpush t ⟨.none _, rfl, rfl⟩
  | some run => exact Ends.bind (pushRun_draws run t) fun _ u hu => hpush u hu

/-- A heap that has no pool yet is given one, and takes frames from it. -/
theorem init_grows {bytes pages : Nat} (hpages : (bytes + (frameSize - 1)) / frameSize = pages)
    (s : HeapStore) (h : s.heap.attached = false) :
    Ends (init bytes) s (fun got t => Grows s t pages got)
      (fun stop _ => ∃ f, stop = .fault f) := by
  subst hpages
  rw [init, Ends.get_bind_iff, h]
  simp only [Bool.false_eq_true, if_false]
  rw [Ends.modify_bind_iff]
  split
  · exact ⟨Nat.zero_le _, .none _, rfl, by simp⟩
  · refine Ends.bind (Ends.ofStep ((expand_grows _ _ rfl).mono (fun _ _ h => h)
      fun f _ _ => ⟨f, rfl⟩)) ?_
    rintro got t ⟨hle, hdrawn, hattached, harena⟩
    split
    · exact ⟨hle, hdrawn, hattached, harena⟩
    · exact ⟨hle, hdrawn, hattached, harena⟩

/-- If nothing is wrong with the list of free frames, it gets all that it asks for or all that there
are. -/
theorem init_takes {fs arena : List Frame} {free live aside : List Run} {bytes pages : Nat}
    (hpages : (bytes + (frameSize - 1)) / frameSize = pages)
    (hs : Holds s fs free live aside arena) (h : s.heap.attached = false) :
    Ends (init bytes) s (fun got _ => got = min pages fs.length) (fun _ _ => False) := by
  subst hpages
  have hset : Holds { s with heap := { s.heap with attached := true } } fs free live aside arena :=
    ⟨hs.pool, hs.carved, hs.apart, hs.room⟩
  rw [init, Ends.get_bind_iff, h]
  simp only [Bool.false_eq_true, if_false]
  rw [Ends.modify_bind_iff]
  split
  · rename_i hzero
    rw [hzero, Nat.zero_min]
    rfl
  · obtain ⟨t, hexpand, -⟩ := hset.expand rfl ((bytes + (frameSize - 1)) / frameSize)
    refine Ends.bind_of_ok (Op.ofStep_of_ok hexpand) ?_
    split <;> rfl

end Heap

end PagedMemory
