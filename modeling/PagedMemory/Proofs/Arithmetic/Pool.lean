import PagedMemory.Proofs.Arithmetic.Words
import PagedMemory.Proofs.Frame.Counting
/-!
# The checked arithmetic of a frame pool

The programs of a frame pool with their sums checked: the number of free frames goes up with each
frame that is put on the list, and those that a memory map adds are counted for each region, for all
regions and for the pool. A checked program does what the program itself does unless there are more
frames than a word can count. To take a frame a pool counts down, and it checks that anyway.
-/
namespace PagedMemory

namespace FramePool

variable {s t : Store FramePool}

/-! ## Single frames -/

def checkedPush (f : Frame) : Step (Store FramePool) Bool := do
  let s ← get
  let node := s.frames.map.aliasOf f
  if node.isNull then
    return false
  let ram := s.ram.writeWord node s.frames.head.value
  set { s with ram, frames := { s.frames with head := node } }
  let free ← Step.ofCheck (Word.add s.frames.free 1)
  set { s with ram, frames := { s.frames with head := node, free } }
  return true

theorem checkedPush_eq (f : Frame) (h : s.frames.free + 1 < 2 ^ 64) :
    checkedPush f s = push f s := by
  refine bind_congr_of_ok rfl ?_
  dsimp only
  split
  · rfl
  · rw [Word.add_eq h]
    rfl

def checkedRelease (f : Frame) : Step (Store FramePool) Unit := do
  if !(← checkedPush f) then
    throw .nullFrame

theorem checkedRelease_eq (f : Frame) (h : s.frames.free + 1 < 2 ^ 64) :
    checkedRelease f s = release f s :=
  bind_congr_at (checkedPush_eq f h) fun _ _ _ => rfl

/-! ## Memory maps -/

def checkedAddFrames : Nat → List Frame → Step (Store FramePool) Nat
  | count, [] => return count
  | count, f :: rest => do
    if ← checkedPush f then
      let count ← Step.ofCheck (Word.add count 1)
      checkedAddFrames count rest
    else
      Store.logLine .debug fun _ => "skipping frame " ++ toString f ++ ": its HHDM alias is null"
      checkedAddFrames count rest

theorem free_of_push {f : Frame} {pushed : Bool} (h : push f s = .ok pushed t) :
    t.frames.free = s.frames.free + pushed.toNat := by
  by_cases hnull : s.frames.map.aliasOf f = .null
  · cases (push_of_null hnull).symm.trans h
    rfl
  · obtain ⟨u, hpush, hu⟩ := push_counts hnull
    cases hpush.symm.trans h
    exact hu.free

theorem checkedAddFrames_eq (gs : List Frame) (count : Nat) (s : Store FramePool)
    (hcount : count + gs.length < 2 ^ 64) (hfree : s.frames.free + gs.length < 2 ^ 64) :
    checkedAddFrames count gs s = ((count + ·) <$> addFrames gs) s := by
  induction gs generalizing count s with
  | nil => rfl
  | cons g gs ih =>
    rw [List.length_cons] at hcount hfree
    rw [checkedAddFrames, addFrames, map_bind]
    refine bind_congr_at (checkedPush_eq g (by omega)) fun pushed t ht => ?_
    have hpushed := free_of_push ht
    cases pushed with
    | false =>
      rw [Bool.toNat_false, Nat.add_zero] at hpushed
      simp only [Bool.false_eq_true, if_false, map_bind]
      refine bind_congr_of_ok rfl ?_
      exact ih count _ (by omega) (by dsimp only; omega)
    | true =>
      rw [Bool.toNat_true] at hpushed
      simp only [if_true, Word.add_eq (show count + 1 < 2 ^ 64 by omega), Step.ofCheck_ok_bind]
      rw [ih (count + 1) t (by omega) (by omega)]
      exact congrFun (map_eq_map_bind (fun n => by omega) _) t

def checkedAddRegions : Nat → List Region → Step (Store FramePool) Nat
  | added, [] => return added
  | added, r :: rest => do
    let count ← checkedAddFrames 0 r.frames.toList.reverse
    Store.logLine .debug fun _ => "usable region " ++ r.bounds ++ ": " ++ count.repr ++ " frames"
    let added ← Step.ofCheck (Word.add added count)
    checkedAddRegions added rest

/-- The frames of regions bound what is counted for them. -/
theorem checkedAddRegions_eq (rs : List Region) (added : Nat) (s : Store FramePool)
    (hadded : added + (rs.flatMap fun r => r.frames.toList).length < 2 ^ 64)
    (hfree : s.frames.free + (rs.flatMap fun r => r.frames.toList).length < 2 ^ 64) :
    checkedAddRegions added rs s = ((added + ·) <$> addRegions rs) s := by
  induction rs generalizing added s with
  | nil => rfl
  | cons r rs ih =>
    rw [List.flatMap_cons, List.length_append] at hadded hfree
    rw [checkedAddRegions, addRegions, map_bind]
    have hchecked : checkedAddFrames 0 r.frames.toList.reverse s =
        addFrames r.frames.toList.reverse s := by
      refine (checkedAddFrames_eq _ 0 s ?_ ?_).trans ?_
      · rw [List.length_reverse]
        omega
      · rw [List.length_reverse]
        omega
      · simp
    refine bind_congr_at hchecked fun count t ht => ?_
    obtain ⟨hcount, hgrown⟩ := (addFrames_counts _ s).of_ok ht
    have hle := length_listable_le s.frames.map r.frames.toList.reverse
    rw [← hcount, List.length_reverse] at hle
    have hfree' := hgrown.free
    rw [map_bind]
    refine bind_congr_of_ok rfl ?_
    rw [Word.add_eq (by omega), Step.ofCheck_ok_bind]
    rw [ih (added + count) _ (by omega) (by dsimp only; omega)]
    exact congrFun (map_eq_map_bind (fun n => Nat.add_assoc added count n) _) _

def checkedAddMemoryMap (memoryMap : List Region) : Step (Store FramePool) Nat := do
  let added ← checkedAddRegions 0 (memoryMap.reverse.filter Region.isUsable)
  let total ← Step.ofCheck (Word.add (← get).frames.total added)
  modify fun s => { s with frames := { s.frames with total } }
  reportAdded added
  return added

theorem checkedAddMemoryMap_eq (memoryMap : List Region) (s : Store FramePool)
    (hfree : s.frames.free + (Region.wholeFrames memoryMap).length < 2 ^ 64)
    (htotal : s.frames.total + (Region.wholeFrames memoryMap).length < 2 ^ 64) :
    checkedAddMemoryMap memoryMap s = addMemoryMap memoryMap s := by
  have hlength : (Region.wholeFrames memoryMap).length =
      ((memoryMap.reverse.filter Region.isUsable).flatMap fun r => r.frames.toList).length :=
    (((List.reverse_perm memoryMap).filter _).flatMap_right _).length_eq.symm
  rw [hlength] at hfree htotal
  have hchecked : checkedAddRegions 0 (memoryMap.reverse.filter Region.isUsable) s =
      addRegions (memoryMap.reverse.filter Region.isUsable) s := by
    refine (checkedAddRegions_eq _ 0 s (by omega) hfree).trans ?_
    simp
  refine bind_congr_at hchecked fun added t ht => ?_
  obtain ⟨hadded, hgrown⟩ := (addRegions_counts _ s).of_ok ht
  have hle := length_listable_le s.frames.map
    ((memoryMap.reverse.filter Region.isUsable).flatMap fun r => r.frames.toList)
  have htotal' := hgrown.total
  change (Step.ofCheck (Word.add t.frames.total added) >>= _ : Step (Store FramePool) Nat) t = _
  rw [Word.add_eq (by omega), Step.ofCheck_ok_bind]
  rfl

/-- Adds memory maps one after the other. -/
def checkedAddMemoryMaps : List (List Region) → Step (Store FramePool) (List Nat)
  | [] => return []
  | memoryMap :: rest => do
    let n ← checkedAddMemoryMap memoryMap
    return n :: (← checkedAddMemoryMaps rest)

theorem checkedAddMemoryMaps_eq (maps : List (List Region)) (s : Store FramePool)
    (hfree : s.frames.free + (Region.wholeFrames maps.flatten).length < 2 ^ 64)
    (htotal : s.frames.total + (Region.wholeFrames maps.flatten).length < 2 ^ 64) :
    checkedAddMemoryMaps maps s = addMemoryMaps maps s := by
  induction maps generalizing s with
  | nil => rfl
  | cons memoryMap rest ih =>
    have hlength : (Region.wholeFrames (memoryMap :: rest).flatten).length =
        (Region.wholeFrames memoryMap).length + (Region.wholeFrames rest.flatten).length := by
      simp [Region.wholeFrames]
    rw [hlength] at hfree htotal
    refine bind_congr_at (checkedAddMemoryMap_eq memoryMap s (by omega) (by omega)) fun n t ht => ?_
    obtain ⟨hn, -, htotal', hfree'⟩ := (addMemoryMap_counts memoryMap s).of_ok ht
    have hle := length_listable_le s.frames.map (Region.wholeFrames memoryMap)
    exact bind_congr_at (ih t (by omega) (by omega)) fun _ _ _ => rfl

end FramePool

end PagedMemory
