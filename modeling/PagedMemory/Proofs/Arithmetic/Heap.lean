import PagedMemory.Proofs.Arithmetic.Pool
import PagedMemory.Proofs.Heap.Operations
/-!
# The checked arithmetic of a heap

The programs of a heap with each sum, difference and product of sizes and counts checked where it is
worked out. What a heap counts is bounded by the frames that there are, those of its arena and those
that are free, and as these are few enough to be counted in bytes, a checked program does what the
program itself does.

Addresses are not checked here. The sums that tell whether a frame extends a run wrap around. All
others stay between the start of a block and the address behind its last byte, so they are within
bounds if the block is; for blocks of a heap that is a matter of where its frames are visible, and
part of how they tile its arena.
-/
namespace PagedMemory

/-! ## The free list -/

namespace FreeList

variable {m : Ram} {list : FreeList} {needed : Nat} {previous : Option VirtualAddress}
variable {block : VirtualAddress}

def checkedCarve (list : FreeList) (m : Ram) (needed : Nat) (previous : Option VirtualAddress)
    (block : VirtualAddress) : Except Fault (Ram × FreeList) := do
  let left ← Word.sub (m.blockSize block) needed
  let (m, list) :=
    if headerSize ≤ left then
      let rest := block + needed
      let (m, list) := list.relink (m.setHeader rest left (m.blockNext block)) previous rest
      (m.setBlockSize block needed, list)
    else
      list.relink m previous (m.blockNext block)
  return (m.setBlockNext block .null, list)

theorem checkedCarve_eq (h : needed ≤ m.blockSize block) :
    list.checkedCarve m needed previous block = .ok (list.carve m needed previous block) := by
  rw [checkedCarve, Word.sub_eq h]
  rfl

/-- A block that is found is as large as it has to be. -/
theorem le_blockSize_of_firstFit {n : Nat} {found : Option VirtualAddress × VirtualAddress}
    (h : firstFit m needed n previous block = some found) : needed ≤ m.blockSize found.2 := by
  induction n generalizing previous block with
  | zero => cases h
  | succ n ih =>
    rw [firstFit] at h
    split at h
    · cases h
    · split at h
      · rename_i hfits
        cases h
        exact hfits
      · exact ih h

def checkedTake? (list : FreeList) (m : Ram) (size : Nat) :
    Except Fault (Option (VirtualAddress × Ram × FreeList)) :=
  let needed := headerSize + size
  if needed < 2 ^ 64 then
    match firstFit m needed maxBlocks none list.first with
    | none => return none
    | some (previous, block) =>
      return some (payloadOf block, ← list.checkedCarve m needed previous block)
  else return none

theorem checkedTake?_eq (list : FreeList) (m : Ram) (size : Nat) :
    list.checkedTake? m size = .ok (list.take? m size) := by
  simp only [checkedTake?, take?]
  split
  · cases hfound : firstFit m (headerSize + size) maxBlocks none list.first with
    | none => rfl
    | some found =>
      dsimp only
      rw [checkedCarve_eq (le_blockSize_of_firstFit hfound)]
      rfl
  · rfl

end FreeList

/-! ## The heap -/

def Run.checkedExtend? (run : Run) (page : VirtualAddress) : Except Fault (Option Run) := do
  if run.start + run.length = page then
    return some ⟨run.start, ← Word.add run.length frameSize⟩
  else if page + frameSize = run.start then
    return some ⟨page, ← Word.add run.length frameSize⟩
  else
    return none

theorem Run.checkedExtend?_eq {run : Run} (h : run.length + frameSize < 2 ^ 64)
    (page : VirtualAddress) : run.checkedExtend? page = .ok (run.extend? page) := by
  rw [checkedExtend?, extend?, Word.add_eq h]
  split
  · rfl
  · split <;> rfl

theorem Run.length_of_extend {run longer : Run} {page : VirtualAddress}
    (h : run.extend? page = some longer) : longer.length = run.length + frameSize := by
  rcases extend?_eq_some h with ⟨-, rfl⟩ | ⟨-, rfl⟩ <;> rfl

namespace Heap

variable {s : HeapStore} {fs : List Frame} {free live aside : List Run} {arena : List Frame}

def checkedGather : Nat → Nat → Option Run → Step HeapStore (Option Run × Nat)
  | got, 0, run => return (run, got)
  | got, n + 1, run => do
    let some frame ← onStore FramePool.take? | return (run, got)
    let page := (← get).store.frames.map.aliasOf frame
    if page.isNull then
      onStore (FramePool.checkedRelease frame)
      return (run, got)
    let got ← Step.ofCheck (Word.add got 1)
    let joined ← match run with
      | none => pure (Run.ofFrame page)
      | some open_run =>
        match ← Step.ofCheck (open_run.checkedExtend? page) with
        | some longer => pure longer
        | none => do
          pushRun open_run
          pure (Run.ofFrame page)
    checkedGather got n (some joined)

/-- A frame that is taken is counted off. -/
theorem free_of_take {s t : HeapStore} {found : Option Frame}
    (h : onStore FramePool.take? s = .ok found t) :
    t.store.frames.free + found.toList.length = s.store.frames.free := by
  have hcounts : Ends (onStore FramePool.take?) s
      (fun found t => t.store.frames.free + found.toList.length = s.store.frames.free)
      (fun _ _ => True) :=
    Ends.onPart ((FramePool.take?_counts s.store).mono (fun _ _ ht => ht.free) fun _ _ _ => trivial)
  exact hcounts.of_ok h

/-- The frames that are left bound what is counted, and the run that is open. -/
theorem checkedGather_eq (n got : Nat) (run : Option Run) (s : HeapStore)
    (hgot : got + s.store.frames.free < 2 ^ 64)
    (hrun : run.elim 0 Run.length + frameSize * s.store.frames.free < 2 ^ 64) :
    checkedGather got n run s = ((fun r => (r.1, got + r.2)) <$> gather n run) s := by
  induction n generalizing got run s with
  | zero => rfl
  | succ n ih =>
    rw [checkedGather, gather, map_bind]
    refine bind_congr_at rfl fun found t ht => ?_
    have hfree := free_of_take ht
    cases found with
    | none => rfl
    | some frame =>
      rw [Option.toList_some, List.length_singleton] at hfree
      rw [← hfree] at hgot hrun
      rw [Nat.mul_succ] at hrun
      have hrest : ∀ (joined : Run) (u : HeapStore), u.store.frames = t.store.frames →
          joined.length + frameSize * t.store.frames.free < 2 ^ 64 →
          checkedGather (got + 1) n (some joined) u = ((fun r => (r.1, got + r.2)) <$> (do
            let r ← gather n (some joined)
            return (r.1, r.2 + 1) : Step HeapStore (Option Run × Nat))) u := by
        intro joined u hu hjoined
        rw [← hu] at hgot hjoined
        rw [ih (got + 1) (some joined) u (by omega) hjoined]
        refine congrFun (map_eq_map_bind (fun r => ?_) _) u
        rw [Nat.add_right_comm, Nat.add_assoc]
      rw [map_bind]
      refine bind_congr_of_ok rfl ?_
      dsimp only
      split
      · have hrelease : t.store.frames.free + 1 < 2 ^ 64 := by omega
        rw [map_bind]
        exact bind_congr_at (onPart_congr_at (FramePool.checkedRelease_eq frame hrelease))
          fun _ _ _ => rfl
      · rw [Word.add_eq (by omega), Step.ofCheck_ok_bind]
        cases run with
        | none =>
          refine hrest _ t rfl ?_
          simp only [Run.ofFrame]
          omega
        | some open_run =>
          rw [Option.elim_some] at hrun
          dsimp only
          rw [Run.checkedExtend?_eq (by omega), Step.ofCheck_ok_bind]
          cases hextend : open_run.extend? (t.store.frames.map.aliasOf frame) with
          | some longer =>
            refine hrest longer t rfl ?_
            rw [Run.length_of_extend hextend]
            omega
          | none =>
            dsimp only
            rw [map_bind]
            refine bind_congr_of_ok rfl ?_
            refine hrest _ _ rfl ?_
            simp only [Run.ofFrame]
            omega

/-- Counts a number of frames for the arena. -/
def checkedTally (got : Nat) : Step HeapStore Unit := do
  let heap := (← get).heap
  let expansions ← Step.ofCheck (Word.add heap.expansions 1)
  modify fun s => { s with heap := { s.heap with expansions } }
  let bytes ← Step.ofCheck (Word.mul got frameSize)
  let arenaBytes ← Step.ofCheck (Word.add heap.arenaBytes bytes)
  modify fun s => { s with heap := { s.heap with arenaBytes } }

def checkedExpand (pages : Nat) : Step HeapStore Nat := do
  if !(← get).heap.attached then
    return 0
  let (last, got) ← checkedGather 0 pages none
  if let some run := last then
    pushRun run
  if 0 < got then
    checkedTally got
    let arena := (← get).heap.arenaBytes
    onStore <| Store.logLine .debug fun _ =>
      "heap grew by " ++ got.repr ++ " frames to " ++ (arena / 1024).repr ++ " KiB"
  return got

/-- What a heap has counted, bounded by the frames of its arena. -/
structure Tallied (heap : Heap) (arena : List Frame) : Prop where
  expansions : heap.expansions ≤ arena.length
  arenaBytes : heap.arenaBytes = frameSize * arena.length

theorem checkedTally_eq {got : Nat} (h : s.heap.expansions + 1 < 2 ^ 64)
    (hbytes : s.heap.arenaBytes + got * frameSize < 2 ^ 64) :
    checkedTally got s = (modify fun s => { s with heap := { s.heap with
      expansions := s.heap.expansions + 1
      arenaBytes := s.heap.arenaBytes + got * frameSize } } : Step HeapStore Unit) s := by
  change (Step.ofCheck (Word.add s.heap.expansions 1) >>= _ : Step HeapStore Unit) s = _
  rw [Word.add_eq h, Word.mul_eq (by omega), Step.ofCheck_ok_bind]
  change (Step.ofCheck (Word.add s.heap.arenaBytes _) >>= _ : Step HeapStore Unit) _ = _
  rw [Word.add_eq hbytes]
  rfl

theorem Holds.checkedExpand_eq (h : Holds s fs free live aside arena)
    (hc : Tallied s.heap arena) (pages : Nat) :
    checkedExpand pages s = Heap.expand pages s := by
  have hroom := h.room
  rw [checkedExpand, Heap.expand]
  refine bind_congr_of_ok rfl ?_
  cases hattached : s.heap.attached with
  | false => rfl
  | true =>
    obtain ⟨finished, last, u, hg, -, -, -, hcounts, -, -⟩ := h.gather_none pages
    have hchecked : checkedGather 0 pages none s = gather pages none s := by
      refine (checkedGather_eq pages 0 none s ?_ ?_).trans ?_
      · rw [h.pool.free]
        omega
      · rw [h.pool.free]
        simp only [Option.elim_none, frameSize]
        omega
      · simp
    refine bind_congr_at hchecked ?_
    rw [hg]
    rintro _ _ ⟨⟩
    obtain ⟨hexpansions, hbytes⟩ := hcounts
    have hfew : u.heap.expansions + 1 < 2 ^ 64 := by
      have := hc.expansions
      omega
    have hsmall : u.heap.arenaBytes + min pages fs.length * frameSize < 2 ^ 64 := by
      rw [hbytes, hc.arenaBytes, frameSize]
      omega
    -- putting the last run on the list counts nothing
    cases last with
    | none =>
      dsimp only
      split
      · exact bind_congr_at (checkedTally_eq hfew hsmall) fun _ _ _ => rfl
      · rfl
    | some run =>
      refine bind_congr_of_ok rfl ?_
      dsimp only
      split
      · exact bind_congr_at (checkedTally_eq hfew hsmall) fun _ _ _ => rfl
      · rfl

/-! ## Allocating -/

def checkedTakeBlock? (payload : Nat) : Op HeapError HeapStore (Option VirtualAddress) := do
  let s ← get
  match ← Op.ofCheck (s.heap.list.checkedTake? s.store.ram payload) with
  | none => return none
  | some (p, m, list) =>
    setMemory m list
    return some p

theorem checkedTakeBlock?_eq (payload : Nat) : checkedTakeBlock? payload = takeBlock? payload := by
  funext s
  refine bind_congr_of_ok rfl ?_
  rw [FreeList.checkedTake?_eq]
  rfl

/-- Where there is no block to be taken nothing changes. -/
theorem eq_of_takeBlock_none {ε : Type} {payload : Nat} {t : HeapStore}
    (h : takeBlock? (ε := ε) payload s = .ok none t) : t = s := by
  have hends : Ends (takeBlock? (ε := ε) payload) s (fun found t => found = none → t = s)
      (fun _ _ => True) := by
    rw [takeBlock?, Ends.get_bind_iff]
    split
    · exact fun _ => rfl
    · rintro ⟨⟩
  exact hends.of_ok h rfl

def checkedAllocate (size : Nat) : Op HeapError HeapStore VirtualAddress := do
  if !(← get).heap.attached then
    Op.fail .notInitialized
  let some payload ← Op.ofCheck (Word.nextMultiple? (max size 1) heapAlign)
    | Op.fail (.outOfMemory size)
  if let some p ← checkedTakeBlock? payload then
    return p
  let needed ← Op.ofCheck (Word.divCeil (Word.saturatingAdd payload headerSize) frameSize)
  let available := (← get).store.frames.free
  if available < needed then
    onStore <| Store.logLine .debug fun _ =>
      "heap needs " ++ needed.repr ++ " frames for " ++ size.repr ++ " bytes, " ++
        available.repr ++ " free"
    Op.fail (.outOfMemory size)
  if (← Op.ofStep (checkedExpand (max needed heapExpandPages))) = 0 then
    Op.fail (.outOfMemory size)
  match ← checkedTakeBlock? payload with
  | some p => return p
  | none => Op.fail (.outOfMemory size)

theorem Holds.checkedAllocate_eq (h : Holds s fs free live aside arena) (hc : Tallied s.heap arena)
    {size : Nat} (hsize : size < 2 ^ 64) : checkedAllocate size s = Heap.allocate size s := by
  rw [checkedAllocate, Heap.allocate]
  refine bind_congr_of_ok rfl ?_
  cases hattached : s.heap.attached with
  | false => rfl
  | true =>
    rw [nextMultiple?_eq hsize, Op.ofCheck_ok_bind]
    cases payloadFor? size with
    | none => rfl
    | some payload =>
      refine bind_congr_at (congrFun (checkedTakeBlock?_eq payload) s) fun found t ht => ?_
      cases found with
      | some p => rfl
      | none =>
        cases eq_of_takeBlock_none ht
        dsimp only
        rw [divCeil_eq, Op.ofCheck_ok_bind]
        refine bind_congr_of_ok rfl ?_
        split
        · rfl
        · refine bind_congr_at (Op.ofStep_congr_at (h.checkedExpand_eq hc _)) fun _ _ _ => ?_
          exact checkedTakeBlock?_eq payload ▸ rfl

/-! ## The other operations -/

def checkedInit (bytes : Nat) : Op HeapError HeapStore Nat := do
  if (← get).heap.attached then
    Op.fail .alreadyInitialized
  modify fun s => { s with heap := { s.heap with attached := true } }
  let pages ← Op.ofCheck (Word.divCeil bytes frameSize)
  if pages = 0 then
    return 0
  let got ← Op.ofStep (checkedExpand pages)
  if got < pages then
    onStore <| Store.logLine .warn fun _ =>
      "heap wanted " ++ pages.repr ++ " initial frames but got " ++ got.repr
  let arena := (← get).heap.arenaBytes
  onStore <| Store.logLine .info fun _ => "heap ready with " ++ (arena / 1024).repr ++ " KiB"
  return got

theorem Holds.checkedInit_eq (h : Holds s fs free live aside arena) (hc : Tallied s.heap arena)
    {bytes : Nat} (hbytes : bytes < 2 ^ 64) : checkedInit bytes s = Heap.init bytes s := by
  rw [checkedInit, Heap.init]
  refine bind_congr_of_ok rfl ?_
  cases hattached : s.heap.attached with
  | true => rfl
  | false =>
    refine bind_congr_of_ok rfl ?_
    rw [Word.divCeil_frameSize hbytes, Op.ofCheck_ok_bind]
    dsimp only
    split
    · rfl
    · have hset : Holds { s with heap := { s.heap with attached := true } } fs free live aside
          arena := ⟨h.pool, h.carved, h.apart, h.room⟩
      refine bind_congr_at (Op.ofStep_congr_at (hset.checkedExpand_eq ?_ _)) fun _ _ _ => rfl
      exact ⟨hc.expansions, hc.arenaBytes⟩

def checkedReallocate (payload : VirtualAddress) (size : Nat) :
    Op HeapError HeapStore VirtualAddress := do
  let fresh ← checkedAllocate size
  if payload.isNull then
    return fresh
  let old ← Op.ofCheck (FreeList.payloadSize (← get).store.ram payload)
  onStore <| Store.updateRam (·.copy payload fresh (min old size))
  releaseBlock payload
  return fresh

theorem Holds.checkedReallocate_eq (h : Holds s fs free live aside arena)
    (hc : Tallied s.heap arena) (payload : VirtualAddress) {size : Nat} (hsize : size < 2 ^ 64) :
    checkedReallocate payload size s = Heap.reallocate payload size s :=
  bind_congr_at (h.checkedAllocate_eq hc hsize) fun _ _ _ => rfl

def checkedAllocLayout (layout : Layout) : Step HeapStore (Option VirtualAddress) :=
  if layout.isServed then (checkedAllocate layout.size).toOption else pure none

theorem Holds.checkedAllocLayout_eq (h : Holds s fs free live aside arena)
    (hc : Tallied s.heap arena) {layout : Layout} (hsize : layout.size < 2 ^ 64) :
    checkedAllocLayout layout s = allocLayout layout s := by
  rw [checkedAllocLayout, allocLayout]
  split
  · exact Op.toOption_congr_at (h.checkedAllocate_eq hc hsize)
  · rfl

def checkedAllocZeroed (layout : Layout) : Step HeapStore (Option VirtualAddress) := do
  let some payload ← checkedAllocLayout layout | return none
  onStore <| Store.updateRam (·.fill payload layout.size 0)
  return some payload

theorem Holds.checkedAllocZeroed_eq (h : Holds s fs free live aside arena)
    (hc : Tallied s.heap arena) {layout : Layout} (hsize : layout.size < 2 ^ 64) :
    checkedAllocZeroed layout s = allocZeroed layout s :=
  bind_congr_at (h.checkedAllocLayout_eq hc hsize) fun _ _ _ => rfl

def checkedReallocLayout (payload : VirtualAddress) (layout : Layout) (size : Nat) :
    Step HeapStore (Option VirtualAddress) :=
  if layout.isServed then (checkedReallocate payload size).toOption else pure none

theorem Holds.checkedReallocLayout_eq (h : Holds s fs free live aside arena)
    (hc : Tallied s.heap arena) (payload : VirtualAddress) (layout : Layout) {size : Nat}
    (hsize : size < 2 ^ 64) :
    checkedReallocLayout payload layout size s = reallocLayout payload layout size s := by
  rw [checkedReallocLayout, reallocLayout]
  split
  · exact Op.toOption_congr_at (h.checkedReallocate_eq hc payload hsize)
  · rfl

end Heap

end PagedMemory
