import PagedMemory.Proofs.Logging.Parts
/-!
# Sums and products that are too large

The memory core adds and multiplies beyond a machine word only in what it works out for the log. To
set up page tables and the heap may end in other faults, but not in these; so when startup ends in
one of them, it was a line of the log.
-/
namespace PagedMemory

/-- Whether a fault says that a sum or a product left the range of a machine word. -/
def Fault.isOverflow : Fault → Bool
  | .addOverflow | .mulOverflow => true
  | .subOverflow | .frameNumberRange | .nullFrame | .outsideRam => false

theorem Fault.ne_of_isOverflow {f g : Fault} (hf : f.isOverflow = true)
    (hg : g.isOverflow = false) : g ≠ f := by
  rintro rfl
  rw [hf] at hg
  exact absurd hg (by decide)

/-- A program never stops in a certain way. -/
def Spares {ε σ α : Type} (e : ε) (x : EStateM ε σ α) : Prop :=
  ∀ s, Ends x s (fun _ _ => True) (fun stop _ => stop ≠ e)

namespace Spares

variable {ε ε' σ τ α β : Type} {e : ε} {f : Fault}

theorem value (a : α) : Spares e (pure a : EStateM ε σ α) := fun _ => trivial

theorem fail (e : ε) : Spares (.fault f) (Op.fail e : Op ε σ α) :=
  fun _ => (nomatch · : Stop.error e ≠ .fault f)

theorem fail_bind (e : ε) (g : α → Op ε σ β) : Spares (.fault f) (Op.fail e >>= g) :=
  fun _ => (nomatch · : Stop.error e ≠ .fault f)

theorem changes (g : σ → σ) : Spares e (modify g : EStateM ε σ PUnit) := fun _ => trivial

theorem bind {x : EStateM ε σ α} {g : α → EStateM ε σ β} (hx : Spares e x)
    (hg : ∀ a, Spares e (g a)) : Spares e (x >>= g) :=
  fun s => Ends.bind (hx s) fun a t _ => hg a t

theorem get_bind {g : σ → EStateM ε σ β} (hg : ∀ s, Spares e (g s)) : Spares e (get >>= g) :=
  fun s => hg s s

/-- A check that fails for one reason only. -/
theorem check (hf : f.isOverflow = true) {c : Except Fault α} {g : Fault}
    (h : ∀ g', c = .error g' → g' = g) (hg : g.isOverflow = false) :
    Spares (.fault f) (Op.ofCheck c : Op ε σ α) := by
  cases c with
  | ok a => exact value a
  | error g' =>
    rw [h g' rfl]
    exact fun _ heq => Fault.ne_of_isOverflow hf hg (Stop.fault.inj heq)

theorem ofStep {x : Step σ α} (h : Spares f x) : Spares (.fault f) (Op.ofStep x : Op ε σ α) :=
  fun s => Ends.ofStep ((h s).mono (fun _ _ _ => trivial)
    fun _ _ hne heq => hne (Stop.fault.inj heq))

theorem mapError {g : ε → ε'} {x : Op ε σ α} (h : Spares (.fault f) x) :
    Spares (.fault f) (Op.mapError g x) := by
  intro s
  refine Ends.mapError ((h s).mono (fun _ _ _ => trivial) ?_)
  rintro (_ | _) _ hne heq
  · cases heq
  · exact hne (congrArg Stop.fault (Stop.fault.inj heq))

theorem onPart {read : σ → τ} {write : τ → σ → σ} {x : EStateM ε τ α} (h : Spares e x) :
    Spares e (PagedMemory.onPart read write x) := fun s => Ends.onPart (h (read s))

end Spares

variable {ε : Type} {f : Fault}

/-! ## The frame pool -/

namespace FramePool

theorem spares_push (g : Frame) : Spares f (push g) := by
  refine Spares.get_bind fun s => ?_
  dsimp only
  split
  · exact .value _
  · exact fun _ => trivial

theorem spares_take? (hf : f.isOverflow = true) : Spares f take? := by
  have hpop : Spares f pop := by
    refine Spares.get_bind fun s => ?_
    dsimp only
    split
    · exact .value _
    · refine Spares.bind (fun _ => trivial) fun _ => ?_
      split
      · exact fun _ => Fault.ne_of_isOverflow hf rfl
      · exact fun _ => trivial
  refine hpop.bind ?_
  rintro (_ | frame)
  · exact .value _
  · exact (Spares.changes _).bind fun _ => .value _

theorem spares_release (hf : f.isOverflow = true) (g : Frame) : Spares f (release g) := by
  refine (spares_push g).bind ?_
  rintro (_ | _)
  · exact fun _ => Fault.ne_of_isOverflow hf rfl
  · exact .value _

end FramePool

/-! ## Page tables -/

theorem Window.spares_table {σ : Type} (hf : f.isOverflow = true) (w : Window) (frame : Frame) :
    Spares (.fault f) (Op.ofCheck (w.table frame) : Op ε σ VirtualAddress) := by
  refine Spares.check hf (g := .outsideRam) ?_ rfl
  intro g hg
  unfold Window.table at hg
  split at hg
  · cases hg
  · cases hg
    rfl

theorem Entry.spares_withFrameNumber {σ : Type} (hf : f.isOverflow = true) (entry : Entry)
    (n : Nat) : Spares (.fault f) (Op.ofCheck (entry.withFrameNumber n) : Op ε σ Entry) :=
  Spares.check hf (fun _ hg => (withFrameNumber_error hg).1) rfl

theorem Cr3.spares_ofRoot {σ : Type} (hf : f.isOverflow = true) (root : Frame) :
    Spares (.fault f) (Op.ofCheck (Cr3.ofRoot root) : Op ε σ Cr3) := by
  refine Spares.check hf (g := .frameNumberRange) ?_ rfl
  intro g hg
  unfold Cr3.ofRoot at hg
  split at hg
  · cases hg
  · cases hg
    rfl

namespace AddressSpace

theorem spares_create (hf : f.isOverflow = true) (window : Window) :
    Spares (.fault f) (create window : Op MapError (Store FramePool) AddressSpace) := by
  refine (FramePool.spares_take? hf).ofStep.bind ?_
  rintro (_ | root)
  · exact .fail _
  · refine (Window.spares_table hf _ _).bind fun table => ?_
    exact (Spares.changes _).bind fun _ => (Spares.changes _).bind fun _ => .value _

theorem spares_nextTable (hf : f.isOverflow = true) (space : AddressSpace) (parent : Frame)
    (i : TableIndex) (level : TableLevel) :
    Spares (.fault f) (space.nextTable parent i level : Op MapError (Store FramePool) Frame) := by
  refine (Window.spares_table hf _ _).bind fun parentTable => ?_
  refine Spares.get_bind fun s => ?_
  dsimp only
  split
  · exact .value _
  · refine (FramePool.spares_take? hf).ofStep.bind ?_
    rintro (_ | frame)
    · exact .fail _
    · refine (Window.spares_table hf _ _).bind fun table => ?_
      refine (Spares.changes _).bind fun _ => ?_
      refine (Entry.spares_withFrameNumber hf _ _).bind fun link => ?_
      exact (Spares.changes _).bind fun _ => (Spares.changes _).bind fun _ => .value _

theorem spares_mapPage (hf : f.isOverflow = true) (space : AddressSpace) (va : VirtualAddress)
    (pa : PhysicalAddress) (size : PageSize) :
    Spares (.fault f) (space.mapPage va pa size : Op MapError (Store FramePool) Unit) := by
  refine (spares_nextTable hf _ _ _ _).bind fun pml3 => ?_
  refine (spares_nextTable hf _ _ _ _).bind fun pml2 => ?_
  cases size with
  | large =>
    refine (Window.spares_table hf _ _).bind fun table => ?_
    refine (Entry.spares_withFrameNumber hf _ _).bind fun leaf => ?_
    exact .changes _
  | small =>
    refine (spares_nextTable hf _ _ _ _).bind fun pml1 => ?_
    refine (Window.spares_table hf _ _).bind fun table => ?_
    refine (Entry.spares_withFrameNumber hf _ _).bind fun leaf => ?_
    exact .changes _

end AddressSpace

namespace Paging

theorem spares_mapFrames (hf : f.isOverflow = true) (space : AddressSpace)
    (virtualOf : PhysicalAddress → VirtualAddress) (fs : List Frame) :
    Spares (.fault f) (mapFrames space virtualOf fs) := by
  induction fs with
  | nil => exact .value _
  | cons frame rest ih =>
    exact (AddressSpace.spares_mapPage hf _ _ _ _).mapError.onPart.bind fun _ => ih

theorem spares_mapRegions (hf : f.isOverflow = true) (space : AddressSpace) (image : KernelImage)
    (rs : List Region) : Spares (.fault f) (mapRegions space image rs) := by
  induction rs with
  | nil => exact .value _
  | cons r rest ih =>
    refine Spares.bind ?_ fun _ => ih
    rw [mapRegion]
    split
    · exact (Spares.changes _).onPart
    · exact (spares_mapFrames hf _ _ _).bind fun _ => (Spares.changes _).onPart

theorem spares_initPaging (hf : f.isOverflow = true) (memoryMap : List Region)
    (image : KernelImage) : Spares (.fault f) (initPaging memoryMap image) := by
  refine Spares.get_bind fun s => ?_
  split
  · exact .fail_bind _ _
  · have hcreate : Spares (.fault f) createSpace :=
      Spares.get_bind fun s => (AddressSpace.spares_create hf _).mapError.onPart
    refine hcreate.bind fun space => (spares_mapRegions hf _ _ _).bind fun _ => ?_
    exact (Spares.changes _).bind fun _ => (Spares.changes _).onPart.bind fun _ => .value _

theorem spares_loadKernelMap (hf : f.isOverflow = true) : Spares (.fault f) loadKernelMap := by
  refine Spares.get_bind fun s => ?_
  cases s.kernelMap.root? with
  | none => exact .fail _
  | some root =>
    refine (Cr3.spares_ofRoot hf _).bind fun value => ?_
    exact (Spares.changes _).bind fun _ => (Spares.changes _).onPart.bind fun _ => .value _

end Paging

/-! ## The heap -/

namespace Heap

theorem spares_pushRun (run : Run) : Spares f (pushRun run) :=
  Spares.get_bind fun _ => Spares.changes _

theorem spares_gather (hf : f.isOverflow = true) (n : Nat) (run : Option Run) :
    Spares f (gather n run) := by
  induction n generalizing run with
  | zero => exact .value _
  | succ n ih =>
    refine (FramePool.spares_take? hf).onPart.bind ?_
    rintro (_ | frame)
    · exact .value _
    · refine Spares.get_bind fun s => ?_
      dsimp only
      split
      · exact (FramePool.spares_release hf _).onPart.bind fun _ => .value _
      · cases run with
        | none => exact (ih _).bind fun _ => .value _
        | some run =>
          dsimp only
          split
          · exact (ih _).bind fun _ => .value _
          · exact (spares_pushRun _).bind fun _ => (ih _).bind fun _ => .value _

theorem spares_expand (hf : f.isOverflow = true) (pages : Nat) : Spares f (expand pages) := by
  refine Spares.get_bind fun s => ?_
  split
  · exact .value _
  · refine (spares_gather hf _ _).bind ?_
    rintro ⟨last, got⟩
    have hcount : Spares f (do
        if 0 < got then
          modify fun s => { s with heap := { s.heap with
            expansions := s.heap.expansions + 1
            arenaBytes := s.heap.arenaBytes + got * frameSize } }
          let arena := (← get).heap.arenaBytes
          onStore <| Store.logLine .debug fun _ =>
            "heap grew by " ++ got.repr ++ " frames to " ++ (arena / 1024).repr ++ " KiB"
        return got : Step HeapStore Nat) := by
      split
      · exact (Spares.changes _).bind fun _ => fun _ => trivial
      · exact .value _
    cases last with
    | none => exact hcount
    | some run => exact (spares_pushRun run).bind fun _ => hcount

theorem spares_init (hf : f.isOverflow = true) (bytes : Nat) : Spares (.fault f) (init bytes) := by
  refine Spares.get_bind fun s => ?_
  split
  · exact .fail_bind _ _
  · refine (Spares.changes _).bind fun _ => ?_
    dsimp only
    split
    · exact .value _
    · refine (spares_expand hf _).ofStep.bind fun got => ?_
      split
      · exact fun _ => trivial
      · exact fun _ => trivial

end Heap

end PagedMemory
