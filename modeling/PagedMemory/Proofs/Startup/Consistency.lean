import PagedMemory.Proofs.Startup.Counters
import PagedMemory.Proofs.Startup.Once
/-!
# What startup leaves

Whichever stage of startup fails, the instances that were set up before it are there, and those
after it are as they were. A memory map without a frame leaves nothing at all; without enough frames
for the tables there is a pool, but no kernel map and no heap that answers; otherwise only a fault
keeps startup from its end.

The frames are accounted for at the end: those of the memory map are free, in page tables or in the
arena of the heap. How many are left for the heap is known if the memory map names no frame twice;
otherwise the list of free frames may be broken, and only the counters can be relied on.
-/
namespace PagedMemory

namespace Ends

variable {ε σ α : Type} {x : EStateM ε σ α} {s : σ} {ok : α → σ → Prop} {stop : ε → σ → Prop}

/-- What is known on a condition is known of the results on that condition. -/
theorem imp {p : Prop} (h : p → Ends x s ok stop) :
    Ends x s (fun a t => p → ok a t) (fun e t => p → stop e t) := by
  unfold Ends at *
  cases hx : x s with
  | ok a t => exact fun hp => by simpa [hx] using h hp
  | error e t => exact fun hp => by simpa [hx] using h hp

/-- A program ends as it does. -/
theorem self (x : EStateM ε σ α) (s : σ) :
    Ends x s (fun a t => x s = .ok a t) (fun e t => x s = .error e t) := by
  unfold Ends
  cases x s <;> rfl

end Ends

namespace System

open FramePool

variable {info : BootInfo} {s t : System}

/-- The frames of the memory map that a pool can hand out. -/
def usableFrames (info : BootInfo) : List Frame :=
  listable ⟨info.directMapOffset⟩ (Region.wholeFrames info.memoryMap)

/-- The tables of the kernel map. -/
def tables (info : BootInfo) : Nat :=
  Paging.kernelTables ⟨info.directMapOffset⟩ info.kernel info.memoryMap

/-- No instance is set up. -/
structure Fresh (s : System) : Prop where
  pool : s.pool = none
  kernelMap : s.kernelMap = none
  heap : s.heap = .empty
  heapPool : s.heapPool = none

/-- There is a pool, which some frames of the memory map were taken from, and a kernel map, but the
heap has no pool yet. -/
structure Paged (info : BootInfo) (k : KernelMap) (taken : Nat) (s : System) : Prop where
  pool : ∃ p, s.pool = some p ∧ p.map = ⟨info.directMapOffset⟩ ∧
    p.total = (usableFrames info).length ∧ p.free ≤ p.total ∧
    ((Region.wholeFrames info.memoryMap).Nodup → taken ≤ (usableFrames info).length ∧
      p.Holds s.ram ((usableFrames info).drop taken))
  kernelMap : s.kernelMap = some k
  heap : s.heap = .empty
  heapPool : s.heapPool = none

/-- A heap without a pool refuses every request. -/
theorem allocate_of_empty (h : s.heap = .empty) (hp : s.heapPool = none) (size : Nat) :
    onHeap (Heap.allocate size) s = .error (.error .notInitialized) s := by
  obtain ⟨ram, log, started, pool, kernelMap, heap, heapPool⟩ := s
  cases h
  cases hp
  cases pool <;> rfl

/-- What an ending of startup without a register value leaves. -/
def Halted (info : BootInfo) : Stop StartupError → System → Prop
  | .error .noUsableMemory, t => usableFrames info = [] ∧ t.pool = none ∧ t.kernelMap = none ∧
      ∀ size, onHeap (Heap.allocate size) t = .error (.error .notInitialized) t
  | .error (.paging _), t => usableFrames info ≠ [] ∧ t.pool.isSome ∧ t.kernelMap = some .missing ∧
      ∀ size, onHeap (Heap.allocate size) t = .error (.error .notInitialized) t
  | .error .alreadyInitialized, _ | .error (.heap _), _ => False
  | .fault _, _ => True

/-! ## Stages -/

theorem logBootInfo_fresh (h : Fresh s) :
    Ends (logBootInfo info) s (fun _ t => Fresh t) (Halted info) := by
  rw [logBootInfo, Ends.get_bind_iff]
  split
  · cases info.usableBytes with
    | error f => trivial
    | ok usable =>
      exact ⟨Option.map_eq_none_iff.mpr h.pool, h.kernelMap, h.heap, h.heapPool⟩
  · exact h

/-- Filling a new pool from the memory map. -/
theorem addMemoryMap_usable (info : BootInfo) (m : Ram) (log : Log) :
    Ends (addMemoryMap info.memoryMap) ⟨m, .empty ⟨info.directMapOffset⟩, log⟩
      (fun n t => n = (usableFrames info).length ∧ t.frames.map = ⟨info.directMapOffset⟩ ∧
        t.frames.total = n ∧ t.frames.free = n ∧
        ((Region.wholeFrames info.memoryMap).Nodup → t.frames.Holds t.ram (usableFrames info)))
      (fun _ _ => True) := by
  have hholds : (Region.wholeFrames info.memoryMap).Nodup →
      Ends (addMemoryMap info.memoryMap) ⟨m, .empty ⟨info.directMapOffset⟩, log⟩
        (fun _ t => t.frames.Holds t.ram (usableFrames info)) (fun _ _ => True) := by
    intro hn
    refine (addMemoryMap_ends info.memoryMap (holds_empty _ m) (by simpa using hn)).mono ?_
      fun _ _ _ => trivial
    rintro n t ⟨⟨-, hpool, -⟩, -⟩
    rwa [List.append_nil] at hpool
  refine ((addMemoryMap_counts info.memoryMap _).and (Ends.imp hholds)).mono ?_ fun _ _ _ => trivial
  rintro n t ⟨⟨hn, hmap, htotal, hfree⟩, hpool⟩
  exact ⟨hn, hmap, htotal.trans (Nat.zero_add n), hfree.trans (Nat.zero_add n), hpool⟩

theorem fillPool_paged (h : Fresh s) :
    Ends (fillPool info) s (fun _ t => usableFrames info ≠ [] ∧ Paged info .missing 0 t)
      (Halted info) := by
  have hmade : Ends (makePool ⟨info.directMapOffset⟩ info.memoryMap) s
      (fun r t => Fresh t ∧ r.2 = (usableFrames info).length ∧
        r.1.map = ⟨info.directMapOffset⟩ ∧ r.1.total = r.2 ∧ r.1.free = r.2 ∧
        ((Region.wholeFrames info.memoryMap).Nodup → r.1.Holds t.ram (usableFrames info)))
      (fun _ _ => True) := by
    refine makePool_ends ((addMemoryMap_usable info s.ram s.log).mono ?_ fun _ _ _ => trivial)
    exact fun n t ht => ⟨⟨h.pool, h.kernelMap, h.heap, h.heapPool⟩, ht⟩
  rw [fillPool]
  refine Ends.bind (Ends.ofStep hmade) ?_
  rintro ⟨pool, n⟩ t ⟨ht, hn, hmap, htotal, hfree, hpool⟩
  dsimp only at hn hmap htotal hfree hpool ⊢
  split
  · rename_i hzero
    refine ⟨List.length_eq_zero_iff.mp (hn.symm.trans hzero), ht.pool, ht.kernelMap, ?_⟩
    exact allocate_of_empty ht.heap ht.heapPool
  · rename_i hpos
    refine ⟨?_, ⟨pool, rfl, hmap, htotal.trans hn, ?_, ?_⟩, rfl, ht.heap, ht.heapPool⟩
    · intro hnil
      rw [hnil] at hn
      exact hpos hn
    · exact (hfree.trans htotal.symm).le
    · exact fun hnodup => ⟨Nat.zero_le _, hpool hnodup⟩

theorem buildKernelMap_paged (hne : usableFrames info ≠ []) (h : Paged info .missing 0 s) :
    Ends (buildKernelMap info) s (fun root t => Paged info (.built root) (tables info) t)
      (Halted info) := by
  obtain ⟨p, hp, hmap, htotal, hle, hpool⟩ := h.pool
  have hkernel : s.paging.kernelMap = .missing := by
    rw [paging, h.kernelMap]
    rfl
  have hframes : s.paging.store.frames = p := by
    rw [paging, store, hp]
    rfl
  have htakes : (Region.wholeFrames info.memoryMap).Nodup →
      Ends (Paging.initPaging info.memoryMap info.kernel) s.paging
        (fun _ t => tables info ≤ (usableFrames info).length ∧
          t.store.frames.Holds t.store.ram ((usableFrames info).drop (tables info)))
        (fun _ _ => True) := by
    intro hn
    have hholds : s.paging.store.frames.Holds s.paging.store.ram (usableFrames info) := by
      rw [hframes]
      exact (hpool hn).2
    have hends := Paging.initPaging_takes hholds hkernel info.memoryMap info.kernel
    rw [hframes, hmap] at hends
    exact hends.mono (fun _ _ h => ⟨h.1, h.2.1⟩) fun _ _ _ => trivial
  refine Ends.onPart (Ends.mapError ?_)
  refine (((Paging.initPaging_draws info.memoryMap info.kernel s.paging).and
    (Paging.kernelMap_initPaging info.memoryMap info.kernel s.paging)).and
    (Ends.imp htakes)).mono ?_ ?_
  · rintro root t ⟨⟨⟨n, hdrawn⟩, -, hbuilt⟩, hnodup⟩
    rw [hframes] at hdrawn
    have hfree := hdrawn.free
    refine ⟨⟨t.store.frames, ?_, hdrawn.map.trans hmap, hdrawn.total.trans htotal, ?_, hnodup⟩,
      ?_, h.heap, h.heapPool⟩
    · simp [setPaging, setStore, hp]
    · rw [hdrawn.total]
      omega
    · simp [setPaging, setStore, h.kernelMap, hbuilt]
  · rintro (e | f) t ⟨⟨-, hkept, -⟩, -⟩
    · refine ⟨hne, ?_, ?_, allocate_of_empty h.heap h.heapPool⟩
      · simp [setPaging, setStore, hp]
      · simp [setPaging, setStore, h.kernelMap, hkept, hkernel]
    · trivial

theorem loadKernelMap_paged {root : Frame} {taken : Nat} (h : Paged info (.built root) taken s) :
    Ends loadKernelMap s
      (fun value t => value.IsPlain root ∧ Paged info (.active root) taken t)
      (Halted info) := by
  obtain ⟨p, hp, hmap, htotal, hle, hpool⟩ := h.pool
  have hkernel : s.paging.kernelMap = .built root := by
    rw [paging, h.kernelMap]
    rfl
  refine Ends.onPart (Ends.mapError ((Paging.loadKernelMap_of_built hkernel).mono ?_ ?_))
  · rintro value t ⟨hplain, hactive, hframes, hram⟩
    have hsame : t.store.frames = p := by
      rw [hframes, paging, store, hp]
      rfl
    refine ⟨hplain, ⟨p, ?_, hmap, htotal, hle, ?_⟩, ?_, h.heap, h.heapPool⟩
    · simp [setPaging, setStore, hp, hsame]
    · have hram' : (setPaging t s).ram = s.ram := hram
      rwa [hram']
    · simp [setPaging, setStore, h.kernelMap, hactive]
  · rintro - t ⟨f, rfl⟩
    trivial

/-- The system at the end of startup. `u` is what the stages before the heap left. -/
structure Ready (info : BootInfo) (u : System) (value : Cr3) (t : System) : Prop where
  active : t.kernelMap = some (.active value.root)
  plain : value.IsPlain value.root
  attached : t.heap.attached = true
  shared : t.heapPool = none
  map : t.pool.map FramePool.map = some ⟨info.directMapOffset⟩
  total : t.store.frames.total = (usableFrames info).length
  /-- What paging left is free or in the arena. -/
  accounted : u.store.frames.free ≤ t.store.frames.total ∧ ∃ got ≤ 10,
    t.heap.arenaBytes = got * frameSize ∧ t.store.frames.free + got = u.store.frames.free
  /-- The heap got its ten frames, or all that paging left. -/
  exact : (Region.wholeFrames info.memoryMap).Nodup →
    t.heap.arenaBytes = frameSize * min 10 u.store.frames.free ∧
      t.store.frames.total =
        t.store.frames.free + tables info + t.heap.arenaBytes / frameSize

theorem attachHeap_ready {value : Cr3} (hplain : value.IsPlain value.root)
    (h : Paged info (.active value.root) (tables info) s) :
    Ends attachHeap s (fun _ t => Ready info s value t) (Halted info) := by
  obtain ⟨p, hp, hmap, htotal, hle, hpool⟩ := h.pool
  have hframes : s.store.frames = p := by
    rw [store, hp]
    rfl
  have hheap : s.heapStore = ⟨.empty, ⟨s.ram, p, s.log⟩⟩ := by
    rw [heapStore, h.heap, h.heapPool, hp]
    rfl
  have hpages : (initialHeapSize + (frameSize - 1)) / frameSize = 10 := by decide
  have htakes : (Region.wholeFrames info.memoryMap).Nodup →
      Ends (Heap.init initialHeapSize) s.heapStore
        (fun got _ => got = min 10 p.free ∧ p.free + tables info = p.total) (fun _ _ => True) := by
    intro hn
    obtain ⟨hfit, hholds⟩ := hpool hn
    have hfree := hholds.free
    rw [List.length_drop] at hfree
    have hlength := (length_listable_le ⟨info.directMapOffset⟩ _).trans_lt
      (Region.length_wholeFrames_lt hn)
    have hsetup : Heap.Holds s.heapStore ((usableFrames info).drop (tables info)) [] [] [] [] := by
      rw [hheap]
      refine ⟨hholds, .empty _ _, fun f _ => List.not_mem_nil, ?_⟩
      rw [List.length_drop, List.length_nil]
      exact (Nat.sub_le _ _).trans_lt hlength
    refine (Heap.init_takes hpages hsetup (by rw [hheap]; rfl)).mono ?_ fun _ _ => False.elim
    rintro got - rfl
    rw [List.length_drop, ← hfree]
    exact ⟨rfl, by omega⟩
  refine Ends.onPart (Ends.mapError (((Heap.init_grows hpages s.heapStore
    (by rw [hheap]; rfl)).and (Ends.imp htakes)).mono ?_ ?_))
  · rintro got t ⟨⟨hgot, hdrawn, hattached, harena⟩, hexact⟩
    rw [hheap] at hdrawn harena
    have hset : setHeapStore t s = { s.setStore t.store with heap := t.heap } := by
      rw [setHeapStore, h.heapPool]
    have hpool' : (setHeapStore t s).pool = some t.store.frames := by
      rw [hset, setStore, hp]
      rfl
    have hframes' : (setHeapStore t s).store.frames = t.store.frames := by
      rw [store, hpool']
      rfl
    have harena' : (setHeapStore t s).heap.arenaBytes = got * frameSize := by
      rw [hset]
      exact harena.trans (Nat.zero_add _)
    have hmap' : t.store.frames.map = p.map := hdrawn.map
    have htotal' : t.store.frames.total = p.total := hdrawn.total
    have hfree' : t.store.frames.free + got = p.free := hdrawn.free
    refine ⟨?_, hplain, ?_, ?_, ?_, ?_, ?_, ?_⟩
    · rw [hset]
      exact h.kernelMap
    · rw [hset]
      exact hattached
    · rw [hset]
      exact h.heapPool
    · rw [hpool', Option.map_some, hmap', hmap]
    · rw [hframes', htotal', htotal]
    · rw [hframes', hframes, htotal']
      exact ⟨hle, got, hgot, harena', hfree'⟩
    · intro hn
      obtain ⟨hmin, hcount⟩ := hexact hn
      rw [hframes', hframes, harena', htotal', Nat.mul_div_cancel got (by decide)]
      refine ⟨?_, by omega⟩
      rw [hmin, Nat.mul_comm]
  · rintro - t ⟨⟨f, rfl⟩, -⟩
    trivial

/-! ## From the start -/

/-- The stages up to the heap. -/
def mapMemory (info : BootInfo) : Op StartupError System Cr3 := do
  logBootInfo info
  fillPool info
  let _ ← buildKernelMap info
  loadKernelMap

theorem run_bringUp (info : BootInfo) : (bringUp info).run = (do
    let value ← mapMemory info
    let _ ← attachHeap
    logReady
    return value) := by
  simp only [bringUp, Plan.run, mapMemory, bind_assoc]

theorem mapMemory_paged (h : Fresh s) :
    Ends (mapMemory info) s
      (fun value t => value.IsPlain value.root ∧ usableFrames info ≠ [] ∧
        Paged info (.active value.root) (tables info) t)
      (Halted info) := by
  rw [mapMemory]
  refine Ends.bind (logBootInfo_fresh h) fun _ t ht => ?_
  refine Ends.bind (fillPool_paged ht) ?_
  rintro - u ⟨hne, hu⟩
  refine Ends.bind (buildKernelMap_paged hne hu) fun root v hv => ?_
  refine (loadKernelMap_paged hv).mono ?_ fun _ _ h => h
  rintro value w ⟨hplain, hw⟩
  obtain rfl := hplain.1
  exact ⟨hplain, hne, hw⟩

/-- The line at the end changes the log only. -/
theorem Ready.logReady {u : System} {value : Cr3} (h : Ready info u value t) :
    Ends logReady t (fun _ v => Ready info u value v) (Halted info) := by
  rw [System.logReady, Ends.get_bind_iff]
  refine Ends.of_eq_ok (onStore_logLine _ _ t) ?_
  exact ⟨h.active, h.plain, h.attached, h.shared, h.map, h.total, h.accounted, h.exact⟩

theorem initMemory_ends (hs : s.started = false) (h : Fresh s) (info : BootInfo) :
    Ends (initMemory info) s
      (fun value t => usableFrames info ≠ [] ∧ ∃ u,
        mapMemory info { s with started := true } = .ok value u ∧ Ready info u value t)
      (Halted info) := by
  have hset : Fresh { s with started := true } := ⟨h.pool, h.kernelMap, h.heap, h.heapPool⟩
  have hpaged : Ends (mapMemory info) { s with started := true } _ (Halted info) :=
    mapMemory_paged hset
  have hrun : Ends (bringUp info).run { s with started := true }
      (fun value t => usableFrames info ≠ [] ∧ ∃ u,
        mapMemory info { s with started := true } = .ok value u ∧ Ready info u value t)
      (Halted info) := by
    rw [run_bringUp]
    refine Ends.bind ((hpaged.and (Ends.self _ _)).mono (fun _ _ h => h) fun _ _ h => h.1) ?_
    rintro value u ⟨⟨hplain, hne, hu⟩, hmap⟩
    refine Ends.bind (attachHeap_ready hplain hu) fun _ v hv => ?_
    exact Ends.bind hv.logReady fun _ w hw => ⟨hne, u, hmap, hw⟩
  unfold Ends at hrun ⊢
  rwa [initMemory_of_not_started hs]

/-- Of all calls of startup, whoever makes them and when, one gets past the flag, and the others are
refused and change nothing. That one leaves the instances as its result says. -/
theorem initMemory_once (m : Ram) (log : Log) :
    let s := bare m log
    (∀ infos schedule, (∃ i ∈ schedule, i < infos.length) →
      let r := (StartRace.start s infos).run schedule
      ∃ winner ∈ schedule, StartRace.WonBy s infos schedule r winner ∧
        ∀ i, i ≠ winner → (r.step i).system = r.system) ∧
    (∀ info rest, initMemoryInTurn (info :: rest) s =
      ((ending (initMemory info) s).1 :: rest.map fun _ => refusal,
        (ending (initMemory info) s).2)) ∧
    ∀ info, Ends (initMemory info) s
      (fun value t => usableFrames info ≠ [] ∧ ∃ u,
        mapMemory info { s with started := true } = .ok value u ∧ Ready info u value t)
      (Halted info) := by
  intro s
  refine ⟨?race, fun info rest => initMemoryInTurn_cons rfl info rest,
    fun info => initMemory_ends rfl ⟨rfl, rfl, rfl, rfl⟩ info⟩
  rintro infos schedule ⟨i, hi, hlt⟩ r
  rcases StartRace.run_start (s := s) rfl infos schedule with ⟨hnone, -⟩ | ⟨winner, hmem, hwon⟩
  · exact absurd (hnone i hi) (Nat.not_le.mpr hlt)
  · exact ⟨winner, hmem, hwon, fun j hj => (hwon.step_other hj).1⟩

/-- Sixteen frames, of which the tables take four and the heap ten. -/
theorem initMemory_once_sixteen_frames :
    let info : BootInfo := ⟨[⟨⟨0x1000⟩, 0x10000, .usable⟩], ⟨0, 0⟩, 0xffff800000000000⟩
    let s := bare (.uniform 0) (.empty none)
    (Region.wholeFrames info.memoryMap).Nodup ∧ tables info = 4 ∧
      ∃ value t, initMemory info s = .ok value t ∧ t.store.frames.total = 16 ∧
        t.heap.arenaBytes = 10 * frameSize ∧ t.store.frames.free = 2 := by
  intro info s
  have hn : (Region.wholeFrames info.memoryMap).Nodup := by decide +kernel
  have htables : tables info = 4 := by decide +kernel
  have husable : (usableFrames info).length = 16 := by decide +kernel
  obtain ⟨value, t, hrun, -⟩ : ∃ value t, initMemory info s = .ok value t ∧ True :=
    Ends.exists_ok (by decide +kernel)
  -- the memory map itself is not looked at any more
  clear_value info
  obtain ⟨-, u, -, hready⟩ := ((initMemory_once (.uniform 0) (.empty none)).2.2 info).of_ok hrun
  obtain ⟨harena, htotal⟩ := hready.exact hn
  obtain ⟨-, got, -, hgot, hfree⟩ := hready.accounted
  have hall := hready.total
  rw [husable] at hall
  rw [htables, hall, hgot, frameSize] at htotal
  rw [hgot, frameSize] at harena
  have hten : got = 10 := by omega
  subst hten
  exact ⟨hn, htables, value, t, hrun, hall, hgot, by omega⟩

/-- A usable frame that is listed three times is followed by itself on the list of free frames. Its
link is cleared when it is taken, so it can be taken once more and nothing after that: there are
four frames left by number, but the arena of the heap has three. -/
theorem arena_short_of_frame_listed_thrice :
    ¬ ∀ (info : BootInfo) (m : Ram) (log : Log) (value : Cr3) (u t : System),
      mapMemory info { bare m log with started := true } = .ok value u →
      initMemory info (bare m log) = .ok value t →
      t.heap.arenaBytes = frameSize * min 10 u.store.frames.free := by
  intro hall
  obtain ⟨info, hpaged, hrun⟩ : ∃ info : BootInfo,
      Ends (mapMemory info) { bare (.uniform 0) (.empty none) with started := true }
        (fun _ u => u.store.frames.free = 4) (fun _ _ => False) ∧
      Ends (initMemory info) (bare (.uniform 0) (.empty none))
        (fun _ t => t.heap.arenaBytes = 3 * frameSize) (fun _ _ => False) :=
    ⟨⟨[⟨⟨0x1000⟩, 0x5000, .usable⟩, ⟨⟨0x6000⟩, 0x1000, .usable⟩, ⟨⟨0x6000⟩, 0x1000, .usable⟩,
      ⟨⟨0x6000⟩, 0x1000, .usable⟩], ⟨0, 0⟩, 0x100000000000⟩,
      by decide +kernel, by decide +kernel⟩
  obtain ⟨value, t, hinit, harena⟩ := hrun.exists_ok
  obtain ⟨-, u, hmap, -⟩ := (initMemory_ends rfl ⟨rfl, rfl, rfl, rfl⟩ info).of_ok hinit
  have hfree := hpaged.of_ok hmap
  have heq := hall info _ _ value u t hmap hinit
  rw [harena, hfree] at heq
  exact absurd heq (by decide)

end System

end PagedMemory
