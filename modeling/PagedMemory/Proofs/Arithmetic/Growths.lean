import PagedMemory.Heap.Layout
import PagedMemory.Proofs.Endings
/-!
# How often a heap grows

A heap counts how often it grew and the bytes that it got. It counts a growth only if there was a
frame to be had, so however its programs end, and whatever its list is like, there have been as
many frames as growths at least.
-/
namespace PagedMemory

namespace Heap

/-- A heap took one frame at least each time it grew. -/
def GrewByFrames (heap : Heap) : Prop := heap.expansions * frameSize ≤ heap.arenaBytes

theorem grewByFrames_empty : empty.GrewByFrames := by simp [GrewByFrames, empty]

/-- However a program ends, the heap has grown by frames if it had before. -/
structure GrowsByFrames {ε α : Type} (x : EStateM ε HeapStore α) : Prop where
  ends : ∀ s, Ends x s (fun _ t => s.heap.GrewByFrames → t.heap.GrewByFrames)
    (fun _ t => s.heap.GrewByFrames → t.heap.GrewByFrames)

namespace GrowsByFrames

variable {ε α β : Type}

theorem value (a : α) : GrowsByFrames (pure a : EStateM ε HeapStore α) := ⟨fun _ => id⟩

theorem fail (e : ε) : GrowsByFrames (Op.fail e : Op ε HeapStore α) := ⟨fun _ => id⟩

theorem fail_bind (e : ε) (f : α → Op ε HeapStore β) : GrowsByFrames (Op.fail e >>= f) :=
  ⟨fun _ => id⟩

theorem check (c : Except Fault α) : GrowsByFrames (Op.ofCheck c : Op ε HeapStore α) :=
  ⟨fun _ => by cases c <;> exact id⟩

theorem bind {x : EStateM ε HeapStore α} {f : α → EStateM ε HeapStore β} (hx : GrowsByFrames x)
    (hf : ∀ a, GrowsByFrames (f a)) : GrowsByFrames (x >>= f) :=
  ⟨fun s => Ends.bind_trans (R := fun s t : HeapStore => s.heap.GrewByFrames → t.heap.GrewByFrames)
    (fun h h' hs => h' (h hs)) (hx.ends s) fun a => (hf a).ends⟩

theorem get_bind {f : HeapStore → EStateM ε HeapStore β} (hf : ∀ s, GrowsByFrames (f s)) :
    GrowsByFrames (get >>= f) := ⟨fun s => (hf s).ends s⟩

theorem onStore (x : EStateM ε (Store FramePool) α) : GrowsByFrames (Heap.onStore x) :=
  ⟨fun _ => Ends.onPart_of_write fun _ => id⟩

theorem setMemory (m : Ram) (list : FreeList) :
    GrowsByFrames (Heap.setMemory m list : EStateM ε HeapStore Unit) := ⟨fun _ => id⟩

theorem ofStep {x : Step HeapStore α} (h : GrowsByFrames x) :
    GrowsByFrames (Op.ofStep x : Op ε HeapStore α) := ⟨fun s => Ends.ofStep (h.ends s)⟩

theorem toOption {x : Op ε HeapStore α} (h : GrowsByFrames x) : GrowsByFrames x.toOption := by
  refine ⟨fun s => Ends.toOption ((h.ends s).mono (fun _ _ ht => ht) ?_)⟩
  rintro (_ | _) t ht <;> exact ht

theorem pushRun (run : Run) : GrowsByFrames (Heap.pushRun run : EStateM ε HeapStore Unit) :=
  get_bind fun _ => setMemory _ _

theorem takeBlock? (payload : Nat) :
    GrowsByFrames (Heap.takeBlock? payload : EStateM ε HeapStore _) := by
  refine get_bind fun s => ?_
  split
  · exact value _
  · exact (setMemory _ _).bind fun _ => value _

theorem gather (n : Nat) (run : Option Run) : GrowsByFrames (Heap.gather n run) := by
  induction n generalizing run with
  | zero => exact value _
  | succ n ih =>
    have hrest : ∀ joined, GrowsByFrames (do
        let r ← Heap.gather n (some joined)
        return (r.1, r.2 + 1) : Step HeapStore (Option Run × Nat)) :=
      fun joined => (ih (some joined)).bind fun _ => value _
    rw [Heap.gather]
    refine (onStore _).bind ?_
    rintro (_ | frame)
    · exact value _
    · refine get_bind fun s => ?_
      dsimp only
      split
      · exact (onStore _).bind fun _ => value _
      · cases run with
        | none => exact hrest _
        | some run =>
          dsimp only
          split
          · exact hrest _
          · exact (pushRun run).bind fun _ => hrest _

/-- Growths are counted where there are frames. -/
theorem expand (pages : Nat) : GrowsByFrames (Heap.expand pages) := by
  rw [Heap.expand]
  refine get_bind fun s => ?_
  split
  · exact value _
  · refine (gather pages none).bind ?_
    rintro ⟨last, got⟩
    have hcounted : GrowsByFrames (do
        if 0 < got then
          modify fun s => { s with heap := { s.heap with
            expansions := s.heap.expansions + 1
            arenaBytes := s.heap.arenaBytes + got * frameSize } }
          let arena := (← get).heap.arenaBytes
          Heap.onStore <| Store.logLine .debug fun _ =>
            "heap grew by " ++ got.repr ++ " frames to " ++ (arena / 1024).repr ++ " KiB"
        return got : Step HeapStore Nat) := by
      split
      · rename_i hgot
        refine bind ?_ fun _ => get_bind fun _ => (onStore _).bind fun _ => value _
        refine ⟨fun s hs => ?_⟩
        have hframe := Nat.mul_le_mul_right frameSize hgot
        simp only [GrewByFrames] at hs ⊢
        rw [Nat.succ_mul]
        omega
      · exact value _
    cases last with
    | none => exact hcounted
    | some run => exact (pushRun run).bind fun _ => hcounted

theorem allocate (size : Nat) : GrowsByFrames (Heap.allocate size) := by
  rw [Heap.allocate]
  refine get_bind fun s => ?_
  cases payloadFor? size with
  | none =>
    dsimp only
    split
    · exact fail_bind _ _
    · exact fail _
  | some payload =>
    dsimp only
    split
    · exact fail_bind _ _
    · refine (takeBlock? payload).bind ?_
      rintro (_ | p)
      · refine get_bind fun s => ?_
        split
        · exact (onStore _).bind fun _ => fail_bind _ _
        · refine (ofStep (expand _)).bind fun got => ?_
          split
          · exact fail_bind _ _
          · refine (takeBlock? payload).bind ?_
            rintro (_ | p)
            · exact fail _
            · exact value _
      · exact value _

theorem init (bytes : Nat) : GrowsByFrames (Heap.init bytes) := by
  rw [Heap.init]
  refine get_bind fun s => ?_
  dsimp only
  split
  · exact fail_bind _ _
  · have hattach : GrowsByFrames (modify fun s => { s with heap := { s.heap with
        attached := true } } : Op HeapError HeapStore PUnit) := ⟨fun _ => id⟩
    refine hattach.bind fun _ => ?_
    split
    · exact value _
    · refine (ofStep (expand _)).bind fun got => ?_
      have hrest : GrowsByFrames (do
          let arena := (← get).heap.arenaBytes
          Heap.onStore <| Store.logLine .info fun _ =>
            "heap ready with " ++ (arena / 1024).repr ++ " KiB"
          return got : Op HeapError HeapStore Nat) :=
        get_bind fun _ => (onStore _).bind fun _ => value _
      split
      · exact (onStore _).bind fun _ => hrest
      · exact hrest

theorem releaseBlock (payload : VirtualAddress) :
    GrowsByFrames (Heap.releaseBlock payload : EStateM ε HeapStore Unit) :=
  get_bind fun _ => setMemory _ _

theorem free (payload : VirtualAddress) : GrowsByFrames (Heap.free payload) := by
  rw [Heap.free]
  split
  · exact releaseBlock payload
  · exact value _

theorem reallocate (payload : VirtualAddress) (size : Nat) :
    GrowsByFrames (Heap.reallocate payload size) := by
  rw [Heap.reallocate]
  refine (allocate size).bind fun fresh => ?_
  split
  · exact value _
  · refine get_bind fun s => (check _).bind fun old => ?_
    exact (onStore _).bind fun _ => (releaseBlock payload).bind fun _ => value _

theorem allocLayout (layout : Layout) : GrowsByFrames (Heap.allocLayout layout) := by
  rw [Heap.allocLayout]
  split
  · exact (allocate layout.size).toOption
  · exact value _

theorem allocZeroed (layout : Layout) : GrowsByFrames (Heap.allocZeroed layout) := by
  rw [Heap.allocZeroed]
  refine (allocLayout layout).bind ?_
  rintro (_ | payload)
  · exact value _
  · exact (onStore _).bind fun _ => value _

theorem reallocLayout (payload : VirtualAddress) (layout : Layout) (size : Nat) :
    GrowsByFrames (Heap.reallocLayout payload layout size) := by
  rw [Heap.reallocLayout]
  split
  · exact (reallocate payload size).toOption
  · exact value _

end GrowsByFrames

end Heap

end PagedMemory
