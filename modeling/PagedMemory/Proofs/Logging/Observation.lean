import PagedMemory.Proofs.Logging.Counts
import PagedMemory.Proofs.Startup.Once
/-!
# Logging observes

Whatever is asked of the memory core, one operation after the other, it answers the same and does
the same whatever is logged, with one exception: a log that keeps the lines that tell of progress
stops an operation whose sum or product for that line does not fit in a word. The operations are
those of startup, of pools, of page tables and address spaces, and of the heap.
-/
namespace PagedMemory

open Logged (withLog)

variable {ε : Type} {th th' : Option LogLevel}

namespace System

open FramePool (Reportable)

theorem blind_onStore {α : Type} {x : EStateM ε (Store FramePool) α} (h : LogBlind th th' x) :
    LogBlind th th' (onStore x) :=
  h.onPart (fun _ _ => rfl) fun _ _ _ _ => rfl

theorem blind_onPaging {α : Type} {x : EStateM ε PagingStore α} (h : LogBlind th th' x) :
    LogBlind th th' (onPaging x) :=
  h.onPart (fun _ _ => rfl) fun _ _ _ _ => rfl

theorem setHeapStore_withLog (l k : Log) (t : HeapStore) (s : System) :
    setHeapStore (withLog l t) (withLog k s) = withLog l (setHeapStore t s) := by
  obtain ⟨ram, log, started, pool, kernelMap, heap, heapPool⟩ := s
  cases heapPool <;> rfl

theorem blind_onHeap {α : Type} {x : EStateM ε HeapStore α} (h : LogBlind th th' x) :
    LogBlind th th' (onHeap x) :=
  h.onPart (fun _ _ => rfl) setHeapStore_withLog

/-- The memory and the log of a system with an empty pool beside it. -/
def beside (map : DirectMap) (s : System) : Store FramePool := ⟨s.ram, .empty map, s.log⟩

def setBeside (t : Store FramePool) (s : System) : System := { s with ram := t.ram, log := t.log }

/-- A new pool is filled beside the system. -/
theorem makePool_eq (map : DirectMap) (memoryMap : List Region) :
    makePool map memoryMap = onPart (beside map) setBeside
      (do let added ← FramePool.addMemoryMap memoryMap
          return ((← get).frames, added)) := by
  funext s
  simp only [makePool, onPart, beside, Bind.bind, EStateM.bind]
  cases FramePool.addMemoryMap memoryMap ⟨s.ram, .empty map, s.log⟩ <;> rfl

theorem countsForLog_makePool (map : DirectMap) (memoryMap : List Region) :
    CountsForLog (fun _ => Reportable map memoryMap) .mulOverflow (makePool map memoryMap) := by
  have hadd := (FramePool.countsForLog_addMemoryMap memoryMap).bind
    (f := fun added => do return ((← get).frames, added))
    (fun _ _ _ => LogBlind.get_bind (fun _ _ => rfl) fun _ => .value _) fun _ _ => trivial
  have hpart := hadd.onPart (beside map) setBeside (fun _ _ => rfl) fun _ _ _ _ => rfl
  rw [makePool_eq]
  exact hpart

theorem countsForLog_initOwnHeap (map : DirectMap) (memoryMap : List Region) (bytes : Nat) :
    CountsForLog (fun _ => Reportable map memoryMap) (.fault .mulOverflow)
      (initOwnHeap map memoryMap bytes) := by
  refine (countsForLog_makePool map memoryMap).ofStep.bind ?_ ?_
  · rintro th th' - ⟨pool, added⟩ -
    refine LogBlind.get_bind (fun _ _ => rfl) fun s => ?_
    split
    · exact .fail_bind _ _
    · refine LogBlind.bind (.of_relog fun _ _ => rfl) fun _ => ?_
      exact (blind_onHeap (Heap.blind_init bytes)).bind fun got => .value _
  · rintro ⟨pool, added⟩
    refine Spares.get_bind fun s => ?_
    split
    · exact .fail_bind _ _
    · exact (Spares.changes _).bind fun _ => (Heap.spares_init rfl bytes).onPart.bind fun _ =>
        .value _

/-! ## Startup -/

theorem countsForLog_logBootInfo (info : BootInfo) :
    CountsForLog (fun _ => info.Countable) (.fault .addOverflow) (logBootInfo (ε := ε) info) := by
  refine .of_line ?_ ?_
  · rintro ⟨usable, husable⟩
    rw [husable]
    exact ⟨_, onStore_logLine .info _⟩
  · intro hnot t
    unfold BootInfo.Countable at hnot
    unfold BootInfo.usableBytes at hnot ⊢
    dsimp only at hnot ⊢
    split
    · rename_i hlt
      exact absurd ⟨_, if_pos hlt⟩ hnot
    · rfl

theorem blind_fillPool {info : BootInfo} (h : informs th = informs th' ∨ info.Countable) :
    LogBlind th th' (fillPool info) := by
  have hpool := (countsForLog_makePool ⟨info.directMapOffset⟩ info.memoryMap).ofStep
    (ε := StartupError)
  refine (hpool.blind (h.imp_right (·.reportable _))).bind ?_
  rintro ⟨pool, added⟩
  dsimp only
  split
  · exact .fail_bind _ _
  · exact .of_relog fun _ _ => rfl

theorem spares_fillPool (info : BootInfo) : Spares (.fault .addOverflow) (fillPool info) := by
  have hpool : Spares .addOverflow (makePool ⟨info.directMapOffset⟩ info.memoryMap) :=
    fun s => makePool_ends ((FramePool.addMemoryMap_counts _ _).mono (fun _ _ _ => trivial)
      fun f _ hf => by rw [hf]; exact nofun)
  refine hpool.ofStep.bind ?_
  rintro ⟨pool, added⟩
  dsimp only
  split
  · exact .fail_bind _ _
  · exact .changes _

theorem countsForLog_run_bringUp (info : BootInfo) :
    CountsForLog (fun _ => info.Countable) (.fault .addOverflow) (bringUp info).run := by
  refine (countsForLog_logBootInfo info).bind ?_ ?_
  · rintro th th' - - h
    refine (blind_fillPool h).bind fun _ => ?_
    refine (blind_onPaging (Paging.blind_initPaging _ _).mapError).bind fun _ => ?_
    refine (blind_onPaging Paging.blind_loadKernelMap.mapError).bind fun value => ?_
    refine (blind_onHeap (Heap.blind_init _).mapError).bind fun _ => ?_
    refine LogBlind.bind ?_ fun _ => .value value
    exact LogBlind.get_bind (fun _ _ => rfl) fun s => blind_onStore (.logLine _ _)
  · rintro -
    refine (spares_fillPool info).bind fun _ => ?_
    refine (Paging.spares_initPaging rfl _ _).mapError.onPart.bind fun _ => ?_
    refine (Paging.spares_loadKernelMap rfl).mapError.onPart.bind fun value => ?_
    refine (Heap.spares_init rfl _).mapError.onPart.bind fun _ => ?_
    exact Spares.bind (fun _ => trivial) fun _ => .value value

/-- Startup that was not run before. -/
theorem countsForLog_initMemory (info : BootInfo) :
    CountsForLog (fun s => s.started = true ∨ info.Countable) (.fault .addOverflow)
      (initMemory info) where
  invariant _ _ := Iff.rfl
  agree := by
    rintro th th' _ _ ⟨u, l, l', rfl, rfl, rfl, rfl⟩ h
    cases hs : u.started with
    | true =>
      have hrefused : ∀ l, initMemory info (withLog l u) =
          .error (.error .alreadyInitialized) (withLog l u) :=
        fun l => initMemory_of_started (s := withLog l u) hs info
      exact Agree.of_error (hrefused l) (hrefused l') (.withLog u l l')
    | false =>
      have hrun : ∀ l, initMemory info (withLog l u) =
          (bringUp info).run (withLog l { u with started := true }) :=
        fun l => initMemory_of_not_started (s := withLog l u) hs info
      rw [hrun, hrun]
      refine (countsForLog_run_bringUp info).agree (.withLog _ l l') (h.imp_right ?_)
      exact (·.resolve_left fun hset => Bool.noConfusion (hs.symm.trans hset))
  kept {t} hlog hC := by
    obtain ⟨hs, hC⟩ := not_or.mp hC
    unfold Ends
    rw [initMemory_of_not_started (Bool.eq_false_of_not_eq_true hs)]
    exact (countsForLog_run_bringUp info).kept (t := { t with started := true }) hlog hC
  skipped {t} hlog hC := by
    obtain ⟨hs, hC⟩ := not_or.mp hC
    unfold Ends
    rw [initMemory_of_not_started (Bool.eq_false_of_not_eq_true hs)]
    exact (countsForLog_run_bringUp info).skipped (t := { t with started := true }) hlog hC

end System

/-! ## Operations -/

namespace AddressSpace

/-- What is asked of trees of page tables, wherever their frames come from. -/
inductive Request
  | create (window : Window)
  | mapPage (space : AddressSpace) (virt : VirtualAddress) (phys : PhysicalAddress)
    (size : PageSize)
  | leaf (space : AddressSpace) (virt : VirtualAddress)
  | translate (space : AddressSpace) (virt : VirtualAddress)

/-- What a request gives if it succeeds. -/
inductive Reply
  | space (space : AddressSpace)
  | done
  | leaf (found : Option (Entry × PageSize))
  | found (a : Option PhysicalAddress)

variable {F : Type} [FrameSource F]

/-- Carries out a request. -/
def Request.perform : Request → Op MapError (Store F) Reply
  | .create window => do return .space (← AddressSpace.create window)
  | .mapPage space virt phys size => do
    space.mapPage virt phys size
    return .done
  | .leaf space virt => do return .leaf (← Op.ofCheck (space.leaf (← get).ram virt))
  | .translate space virt => do return .found (← Op.ofCheck (space.translate (← get).ram virt))

theorem blind_perform (hF : BlindSource th th' F) (q : Request) :
    LogBlind th th' (q.perform (F := F)) := by
  cases q with
  | create window => exact (blind_create hF window).bind fun _ => .value _
  | mapPage space virt phys size => exact (blind_mapPage hF _ _ _ _).bind fun _ => .value _
  | leaf space virt =>
    exact LogBlind.get_bind (fun _ _ => rfl) fun s => (LogBlind.check _).bind fun _ => .value _
  | translate space virt =>
    exact LogBlind.get_bind (fun _ _ => rfl) fun s => (LogBlind.check _).bind fun _ => .value _

end AddressSpace

namespace System

open FramePool (Reportable)

/-- What is asked of the memory core. -/
inductive Operation
  | initMemory (info : BootInfo)
  /-- An empty pool with page tables on top of it. -/
  | newPool (map : DirectMap)
  | addMemoryMap (memoryMap : List Region)
  | allocateFrame
  | takeFrame
  | releaseFrame (f : Frame)
  | paging (q : Paging.Request)
  | space (q : AddressSpace.Request)
  | initHeap (bytes : Nat)
  | initOwnHeap (map : DirectMap) (memoryMap : List Region) (bytes : Nat)
  | growHeap (pages : Nat)
  | allocate (size : Nat)
  | free (p : VirtualAddress)
  | reallocate (p : VirtualAddress) (size : Nat)
  | allocLayout (layout : Layout)
  | allocZeroed (layout : Layout)
  | reallocLayout (p : VirtualAddress) (layout : Layout) (size : Nat)

/-- What an operation gives if it succeeds. -/
inductive Reply
  | done
  | register (value : Cr3)
  | count (n : Nat)
  | heap (taken added : Nat)
  | frame (f : Option Frame)
  | paging (r : Paging.Reply)
  | space (r : AddressSpace.Reply)
  | payload (p : Option VirtualAddress)

/-- Why an operation failed. -/
inductive Failure
  | startup (e : StartupError)
  | frames (e : OutOfFrames)
  | paging (e : PagingError)
  | mapping (e : MapError)
  | heap (e : HeapError)

namespace Operation

/-- Carries out an operation. -/
def perform : Operation → Op Failure System Reply
  | .initMemory info => do return .register (← Op.mapError .startup (System.initMemory info))
  | .newPool map => do
    modify fun s => { s with pool := some (.empty map), kernelMap := some .missing }
    return .done
  | .addMemoryMap memoryMap => do
    return .count (← onStore (Op.ofStep (FramePool.addMemoryMap memoryMap)))
  | .allocateFrame => do
    return .frame (some (← onStore (Op.mapError .frames FramePool.allocate)))
  | .takeFrame => do return .frame (← onStore (Op.ofStep FrameSource.take))
  | .releaseFrame f => do
    onStore (Op.ofStep (FramePool.release f))
    return .done
  | .paging q => do return .paging (← onPaging (Op.mapError .paging q.perform))
  | .space q => do return .space (← onStore (Op.mapError .mapping q.perform))
  | .initHeap bytes => do return .count (← onHeap (Op.mapError .heap (Heap.init bytes)))
  | .initOwnHeap map memoryMap bytes => do
    let (taken, added) ← Op.mapError .heap (System.initOwnHeap map memoryMap bytes)
    return .heap taken added
  | .growHeap pages => do return .count (← onHeap (Op.ofStep (Heap.expand pages)))
  | .allocate size => do
    return .payload (some (← onHeap (Op.mapError .heap (Heap.allocate size))))
  | .free p => do
    onHeap (Op.ofStep (Heap.free p))
    return .done
  | .reallocate p size => do
    return .payload (some (← onHeap (Op.mapError .heap (Heap.reallocate p size))))
  | .allocLayout layout => do return .payload (← onHeap (Op.ofStep (Heap.allocLayout layout)))
  | .allocZeroed layout => do return .payload (← onHeap (Op.ofStep (Heap.allocZeroed layout)))
  | .reallocLayout p layout size => do
    return .payload (← onHeap (Op.ofStep (Heap.reallocLayout p layout size)))

/-- Whether what an operation works out for the log only fits in a word. -/
def Countable : Operation → System → Prop
  | .initMemory info, s => s.started = true ∨ info.Countable
  | .addMemoryMap memoryMap, s => Reportable s.store.frames.map memoryMap
  | .initOwnHeap map memoryMap _, _ => Reportable map memoryMap
  | _, _ => True

/-- How an operation stops if it does not fit. -/
def overflow : Operation → Stop Failure
  | .initMemory _ => .fault .addOverflow
  | _ => .fault .mulOverflow

theorem countsForLog_perform (op : Operation) :
    CountsForLog op.Countable op.overflow op.perform := by
  have hlift : ∀ {α : Type} {x : Op Failure System α} {f : α → Reply},
      (∀ {th th'}, LogBlind th th' x) → CountsForLog (fun _ => True) (.fault .mulOverflow)
        (do return f (← x) : Op Failure System Reply) :=
    fun h => (CountsForLog.of_blind (fun _ => trivial) h).map _
  cases op with
  | initMemory info => exact (countsForLog_initMemory info).mapError.map _
  | addMemoryMap memoryMap =>
    exact ((FramePool.countsForLog_addMemoryMap memoryMap).ofStep.onPart store setStore
      (fun _ _ => rfl) fun _ _ _ _ => rfl).map _
  | initOwnHeap map memoryMap bytes =>
    exact (countsForLog_initOwnHeap map memoryMap bytes).mapError.map _
  | newPool map => exact hlift (LogBlind.changes fun _ _ => rfl)
  | allocateFrame => exact hlift (blind_onStore FramePool.blind_allocate.mapError)
  | takeFrame => exact hlift (blind_onStore FramePool.blind_take?.ofStep)
  | releaseFrame f => exact hlift (blind_onStore (FramePool.blind_release f).ofStep)
  | paging q => exact hlift (blind_onPaging (Paging.blind_perform q).mapError)
  | space q =>
    exact hlift (blind_onStore (AddressSpace.blind_perform blindSource_framePool q).mapError)
  | initHeap bytes => exact hlift (blind_onHeap (Heap.blind_init bytes).mapError)
  | growHeap pages => exact hlift (blind_onHeap (Heap.blind_expand pages).ofStep)
  | allocate size => exact hlift (blind_onHeap (Heap.blind_allocate size).mapError)
  | free p => exact hlift (blind_onHeap (Heap.blind_free p).ofStep)
  | reallocate p size => exact hlift (blind_onHeap (Heap.blind_reallocate p size).mapError)
  | allocLayout layout => exact hlift (blind_onHeap (Heap.blind_allocLayout layout).ofStep)
  | allocZeroed layout => exact hlift (blind_onHeap (Heap.blind_allocZeroed layout).ofStep)
  | reallocLayout p layout size =>
    exact hlift (blind_onHeap (Heap.blind_reallocLayout p layout size).ofStep)

/-- Whether every operation of a run fits. -/
def CountableAlong : List Operation → System → Prop
  | [], _ => True
  | op :: rest, s => op.Countable s ∧ CountableAlong rest (ending op.perform s).2

/-- A run shows what the log keeps exactly if some operation of it does not fit. -/
theorem seen_perform_eq_iff (ops : List Operation) {t t' : System}
    (ht : SameButLog th th' t t') :
    seen (ops.map perform) t = seen (ops.map perform) t' ↔
      informs th = informs th' ∨ CountableAlong ops t := by
  induction ops generalizing t t' with
  | nil => exact iff_of_true (congrArg ([], ·) (ht.withLog_eq _)) (.inr trivial)
  | cons op rest ih =>
    have hop := countsForLog_perform op
    have hnext := fun hC => ih (hop.agree ht hC).ending_states
    rw [List.map_cons, seen_cons_eq_iff, hop.ending_eq_iff ht]
    constructor
    · rintro ⟨hinforms | hC, hrest⟩
      · exact .inl hinforms
      · exact ((hnext (.inr hC)).mp hrest).imp_right fun hrest => ⟨hC, hrest⟩
    · rintro (hinforms | ⟨hC, hrest⟩)
      · exact ⟨.inl hinforms, (hnext (.inl hinforms)).mpr (.inl hinforms)⟩
      · exact ⟨.inr hC, (hnext (.inr hC)).mpr (.inr hrest)⟩

end Operation

/-- What is kept in the log makes a difference to startup, or to any other operations, exactly if a
sum or a product for the log is too large and one log keeps the line and the other does not. To page
tables over other frames it makes none. -/
theorem seen_eq_iff_countable {F : Type} [FrameSource F] :
    (∀ (info : BootInfo) (m : Ram) (l l' : Log),
      seen [initMemory info] (bare m l) = seen [initMemory info] (bare m l') ↔
        informs l.threshold = informs l'.threshold ∨ info.Countable) ∧
    (∀ (ops : List Operation) (s : System) (l l' : Log),
      seen (ops.map Operation.perform) (withLog l s) =
          seen (ops.map Operation.perform) (withLog l' s) ↔
        informs l.threshold = informs l'.threshold ∨
          Operation.CountableAlong ops (withLog l s)) ∧
    ∀ (qs : List AddressSpace.Request) (s : Store F) (l l' : Log),
      BlindSource l.threshold l'.threshold F →
        seen (qs.map AddressSpace.Request.perform) (withLog l s) =
          seen (qs.map AddressSpace.Request.perform) (withLog l' s) := by
  refine ⟨fun info m l l' => ?_, fun ops s l l' => ?_, fun qs s l l' hF => ?_⟩
  · have hseen := (countsForLog_initMemory info).seen_singleton_eq_iff (.withLog (bare m l) l l')
    exact hseen.trans (or_congr_right (or_iff_right Bool.false_ne_true))
  · exact Operation.seen_perform_eq_iff ops (.withLog s l l')
  · refine LogBlind.seen_eq ?_ (.withLog s l l')
    rintro x hx
    obtain ⟨q, -, rfl⟩ := List.mem_map.mp hx
    exact AddressSpace.blind_perform hF q

/-- Sixteen frames come up the same with all lines and with none, and so does a tree over a list of
four frames. -/
theorem seen_eq_of_sixteen_frames :
    let info : BootInfo := ⟨[⟨⟨0x1000⟩, 0x10000, .usable⟩], ⟨0, 0⟩, 0x100000000000⟩
    let m : Ram := .uniform 0
    let all : Log := .empty (some .trace)
    let none : Log := .empty none
    let w : Window := .whole ⟨0xffff800000000000⟩
    let s : Store (List Frame) :=
      ⟨m, [.ofNumber 7, .ofNumber 3, .ofNumber 12, .ofNumber 5], none⟩
    let qs : List AddressSpace.Request :=
      [.create w, .mapPage ⟨w, .ofNumber 7⟩ ⟨0x40201000⟩ ⟨0x5000⟩ .small,
        .translate ⟨w, .ofNumber 7⟩ ⟨0x40201234⟩]
    info.Countable ∧
      seen [initMemory info] (bare m all) = seen [initMemory info] (bare m none) ∧
      BlindSource all.threshold none.threshold (List Frame) ∧
      seen (qs.map AddressSpace.Request.perform) (withLog all s) =
        seen (qs.map AddressSpace.Request.perform) (withLog none s) := by
  intro info m all none w s qs
  have hcountable : info.Countable := ⟨0x10000, by decide⟩
  obtain ⟨hstartup, -, htrees⟩ := seen_eq_iff_countable (F := List Frame)
  exact ⟨hcountable, (hstartup info m all none).mpr (.inr hcountable), blindSource_list,
    htrees qs s all none blindSource_list⟩

/-- A usable region behind the last frame gives the pool nothing, so five frames come up with it
just the same. But its length counts, and together with theirs it is too large: if the lines that
tell of progress are kept, startup stops at the first of them. -/
theorem seen_ne_of_region_behind_last_frame :
    ¬ ∀ (info : BootInfo) (m : Ram) (l l' : Log),
      seen [initMemory info] (bare m l) = seen [initMemory info] (bare m l') := by
  intro hall
  obtain ⟨info, hinformed, hsilent⟩ : ∃ info : BootInfo,
      Ends (initMemory info) (bare (.uniform 0) (.empty (some .info))) (fun _ _ => False)
        (fun stop _ => stop = .fault .addOverflow) ∧
      Ends (initMemory info) (bare (.uniform 0) (.empty none))
        (fun _ t => t.store.frames.total = 5) (fun _ _ => False) :=
    ⟨⟨[⟨⟨0x1000⟩, 0x5000, .usable⟩, ⟨⟨0xfffffffffffff001⟩, 0xffffffffffffffff, .usable⟩],
      ⟨0, 0⟩, 0x100000000000⟩, by decide +kernel, by decide +kernel⟩
  obtain ⟨stop, t, hstop, -⟩ := hinformed.exists_error
  obtain ⟨value, u, hvalue, -⟩ := hsilent.exists_ok
  have hsame := (seen_cons_eq_iff.mp (hall info (.uniform 0) (.empty (some .info)) (.empty none))).1
  rw [ending, ending, hstop, hvalue] at hsame
  cases hsame

end System

end PagedMemory
