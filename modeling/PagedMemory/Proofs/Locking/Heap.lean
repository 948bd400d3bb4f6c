import PagedMemory.Heap.Layout
import PagedMemory.Proofs.Locking.Paging
/-!
# Where the heap takes locks

An operation on the heap holds the lock of the heap from start to end. Meanwhile it takes the lock
of the frames to see how many are free, and for each single frame that it takes or returns.
-/
namespace PagedMemory

open Locking

namespace Heap

variable {held : List LockName} {ε α : Type}

def lockedOnStore (x : Locking (Store FramePool) ε α) : Locking HeapStore ε α :=
  x.onPart HeapStore.store fun store s => { s with store }

theorem implements_lockedOnStore {x : Locking (Store FramePool) ε α}
    {y : EStateM ε (Store FramePool) α} (h : Implements held x y) :
    Implements held (lockedOnStore x) (onStore y) :=
  h.onPart ⟨fun _ _ => rfl, fun _ _ _ => rfl, fun _ => rfl⟩

/-! ## Growing -/

def lockedGather : Nat → Option Run → Locking HeapStore Fault (Option Run × Nat)
  | 0, run => return (run, 0)
  | n + 1, run => do
    let some frame ← lockedOnStore FramePool.lockedTake? | return (run, 0)
    let page := (← lift get).store.frames.map.aliasOf frame
    if page.isNull then
      lockedOnStore (FramePool.lockedRelease frame)
      return (run, 0)
    let joined ← match run with
      | none => pure (Run.ofFrame page)
      | some open_run =>
        match open_run.extend? page with
        | some longer => pure longer
        | none => do
          lift (pushRun open_run)
          pure (Run.ofFrame page)
    let (last, taken) ← lockedGather n (some joined)
    return (last, taken + 1)

theorem implements_lockedGather (n : Nat) (run : Option Run) (h : .frames ∉ held) :
    Implements held (lockedGather n run) (gather n run) := by
  induction n generalizing run with
  | zero => exact .pure _
  | succ n ih =>
    refine (implements_lockedOnStore (FramePool.implements_lockedTake? h)).bind fun frame => ?_
    cases frame with
    | none => exact .pure _
    | some frame =>
      refine .lift_bind _ fun s => ?_
      by_cases hnull : (s.store.frames.map.aliasOf frame).isNull
      · simp only [hnull, if_true]
        refine (implements_lockedOnStore (FramePool.implements_lockedRelease frame h)).bind ?_
        exact fun _ => .pure _
      · simp only [hnull]
        have hrest : ∀ joined, Implements held
            (do let (last, taken) ← lockedGather n (some joined); return (last, taken + 1))
            (do let (last, taken) ← gather n (some joined); return (last, taken + 1)) :=
          fun joined => (ih (some joined)).bind fun _ => .pure _
        cases run with
        | none => exact (Implements.pure _).bind hrest
        | some open_run =>
          cases hextend : open_run.extend? (s.store.frames.map.aliasOf frame) with
          | some longer =>
            simp only [hextend]
            exact (Implements.pure _).bind hrest
          | none =>
            simp only [hextend]
            exact .lift_bind _ fun _ => (Implements.pure _).bind hrest

def lockedExpand (pages : Nat) : Locking HeapStore Fault Nat := do
  if !(← lift get).heap.attached then
    return 0
  let (last, got) ← lockedGather pages none
  lift do
    if let some run := last then
      pushRun run
    if 0 < got then
      modify fun s => { s with heap := { s.heap with
        expansions := s.heap.expansions + 1
        arenaBytes := s.heap.arenaBytes + got * frameSize } }
      let arena := (← get).heap.arenaBytes
      onStore <| Store.logLine .debug fun _ =>
        "heap grew by " ++ got.repr ++ " frames to " ++ (arena / 1024).repr ++ " KiB"
    return got

theorem implements_lockedExpand (pages : Nat) (h : .frames ∉ held) :
    Implements held (lockedExpand pages) (expand pages) := by
  refine .lift_bind _ fun s => ?_
  by_cases hattached : s.heap.attached
  · simp only [hattached]
    exact (implements_lockedGather _ _ h).bind fun _ => .lift _
  · simp only [hattached]
    exact .pure _

def lockedGrow (pages : Nat) : Locking HeapStore Fault Nat := withLock .heap (lockedExpand pages)

theorem implements_lockedGrow (pages : Nat) : Implements [] (lockedGrow pages) (expand pages) :=
  .withLock_nil (implements_lockedExpand pages (by decide))

def lockedInit (bytes : Nat) : Locking HeapStore (Stop HeapError) Nat :=
  withLock .heap do
    if (← lift get).heap.attached then
      fail .alreadyInitialized
    lift <| modify fun s => { s with heap := { s.heap with attached := true } }
    let pages := (bytes + (frameSize - 1)) / frameSize
    if pages = 0 then
      return 0
    let got ← ofStep (lockedExpand pages)
    lift do
      if got < pages then
        onStore <| Store.logLine .warn fun _ =>
          "heap wanted " ++ pages.repr ++ " initial frames but got " ++ got.repr
      let arena := (← get).heap.arenaBytes
      onStore <| Store.logLine .info fun _ => "heap ready with " ++ (arena / 1024).repr ++ " KiB"
      return got

theorem implements_lockedInit (bytes : Nat) : Implements [] (lockedInit bytes) (init bytes) := by
  refine .withLock_nil <| .lift_bind _ fun s => ?_
  by_cases hattached : s.heap.attached
  · simp only [hattached, if_true]
    exact .fail _
  · simp only [hattached]
    refine .lift_bind _ fun _ => ?_
    by_cases hpages : (bytes + (frameSize - 1)) / frameSize = 0
    · simp only [hpages, if_true]
      exact .pure _
    · simp only [hpages, if_false]
      exact (implements_lockedExpand _ (by decide)).ofStep.bind fun _ => .lift _

/-! ## Payloads -/

/-- Allocation as it is done with the lock of the heap held. -/
def lockedServe (size : Nat) : Locking HeapStore (Stop HeapError) VirtualAddress := do
  if !(← lift get).heap.attached then
    fail .notInitialized
  let some payload := payloadFor? size | fail (.outOfMemory size)
  if let some p ← lift (takeBlock? payload) then
    return p
  let needed := framesFor payload
  let available ← lockedOnStore FramePool.lockedFreeCount
  if available < needed then
    lift <| onStore <| Store.logLine .debug fun _ =>
      "heap needs " ++ needed.repr ++ " frames for " ++ size.repr ++ " bytes, " ++
        available.repr ++ " free"
    fail (.outOfMemory size)
  if (← ofStep (lockedExpand (max needed heapExpandPages))) = 0 then
    fail (.outOfMemory size)
  match ← lift (takeBlock? payload) with
  | some p => return p
  | none => fail (.outOfMemory size)

/-- To count the free frames is to look at the pool. -/
theorem implements_freeCount_bind (h : .frames ∉ held) {f : Nat → Locking HeapStore ε α}
    {g : HeapStore → EStateM ε HeapStore α}
    (hf : ∀ s : HeapStore, Implements held (f s.store.frames.free) (g s)) :
    Implements held (lockedOnStore FramePool.lockedFreeCount >>= f) (get >>= g) := by
  have hcount := implements_lockedOnStore (ε := ε) (FramePool.implements_lockedFreeCount h)
  refine ⟨?_, hcount.keeps.bind fun n => ?_⟩
  · rw [alone_bind, hcount.alone]
    funext s
    exact congrFun (hf s).alone s
  · -- any number may be found
    exact (hf ⟨.empty, .uniform 0, ⟨⟨0⟩, .null, n, 0⟩, .empty none⟩).keeps

theorem implements_lockedServe (size : Nat) (h : .frames ∉ held) :
    Implements held (lockedServe size) (allocate size) := by
  refine .lift_bind _ fun s => ?_
  by_cases hattached : s.heap.attached
  · simp only [hattached]
    cases payloadFor? size with
    | none => exact .fail _
    | some payload =>
      refine .lift_bind _ fun found => ?_
      cases found with
      | some p => exact .pure _
      | none =>
        refine implements_freeCount_bind h fun t => ?_
        by_cases hfew : t.store.frames.free < framesFor payload
        · simp only [hfew, if_true]
          exact .lift_bind _ fun _ => .fail _
        · simp only [hfew, if_false]
          refine (implements_lockedExpand _ h).ofStep.bind fun got => ?_
          by_cases hgot : got = 0
          · simp only [hgot, if_true]
            exact .fail _
          · simp only [hgot, if_false]
            refine .lift_bind _ fun found => ?_
            cases found with
            | some p => exact .pure _
            | none => exact .fail _
  · simp only [hattached]
    exact .fail _

def lockedAllocate (size : Nat) : Locking HeapStore (Stop HeapError) VirtualAddress :=
  withLock .heap (lockedServe size)

theorem implements_lockedAllocate (size : Nat) :
    Implements [] (lockedAllocate size) (allocate size) :=
  .withLock_nil (implements_lockedServe size (by decide))

/-- Null is ignored before the lock is taken. -/
def lockedFree (payload : VirtualAddress) : Locking HeapStore Fault Unit := do
  if !payload.isNull then
    withLock .heap (lift (releaseBlock payload))

theorem implements_lockedFree (payload : VirtualAddress) :
    Implements [] (lockedFree payload) (free payload) := by
  rw [lockedFree, free]
  split
  · exact .withLock_nil (.lift _)
  · exact .pure _

def lockedReallocate (payload : VirtualAddress) (size : Nat) :
    Locking HeapStore (Stop HeapError) VirtualAddress :=
  withLock .heap do
    let fresh ← lockedServe size
    lift do
      if payload.isNull then
        return fresh
      let old ← Op.ofCheck (FreeList.payloadSize (← get).store.ram payload)
      onStore <| Store.updateRam (·.copy payload fresh (min old size))
      releaseBlock payload
      return fresh

theorem implements_lockedReallocate (payload : VirtualAddress) (size : Nat) :
    Implements [] (lockedReallocate payload size) (reallocate payload size) :=
  .withLock_nil <| (implements_lockedServe size (by decide)).bind fun _ => .lift _

/-! ## Layouts -/

def lockedAllocLayout (layout : Layout) : Locking HeapStore Fault (Option VirtualAddress) :=
  if layout.isServed then (lockedAllocate layout.size).toOption else pure none

theorem implements_lockedAllocLayout (layout : Layout) :
    Implements [] (lockedAllocLayout layout) (allocLayout layout) := by
  rw [lockedAllocLayout, allocLayout]
  split
  · exact (implements_lockedAllocate _).toOption
  · exact .pure _

/-- The payload is cleared once the lock was given up. -/
def lockedAllocZeroed (layout : Layout) : Locking HeapStore Fault (Option VirtualAddress) := do
  let some payload ← lockedAllocLayout layout | return none
  lift do
    onStore <| Store.updateRam (·.fill payload layout.size 0)
    return some payload

theorem implements_lockedAllocZeroed (layout : Layout) :
    Implements [] (lockedAllocZeroed layout) (allocZeroed layout) := by
  refine (implements_lockedAllocLayout layout).bind fun payload => ?_
  cases payload with
  | none => exact .pure _
  | some payload => exact .lift _

def lockedReallocLayout (payload : VirtualAddress) (layout : Layout) (size : Nat) :
    Locking HeapStore Fault (Option VirtualAddress) :=
  if layout.isServed then (lockedReallocate payload size).toOption else pure none

theorem implements_lockedReallocLayout (payload : VirtualAddress) (layout : Layout) (size : Nat) :
    Implements [] (lockedReallocLayout payload layout size)
      (reallocLayout payload layout size) := by
  rw [lockedReallocLayout, reallocLayout]
  split
  · exact (implements_lockedReallocate ..).toOption
  · exact .pure _

end Heap

end PagedMemory
