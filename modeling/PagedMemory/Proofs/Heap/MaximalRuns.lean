import PagedMemory.Proofs.Heap.Spans
/-!
# Runs that are as long as can be

What the heap gets is to be one free block for each maximal run of contiguous frames. The blocks that
it makes are always such runs, each frame in one of them, but two of them may lie end to end. Whether
that happens is a matter of the order in which the frames came.
-/
namespace PagedMemory

namespace Page

variable {space : Space} {size : PageSize}

theorem ofNumber_inj {n k : Nat} (hn : n < size.pages) (hk : k < size.pages) :
    (ofNumber n : Page space size) = ofNumber k ↔ n = k := by
  rw [Page.ext_number_iff, ofNumber, ofNumber]
  simp only
  rw [Nat.mod_eq_of_lt hn, Nat.mod_eq_of_lt hk]

end Page

namespace DirectMap

variable (map : DirectMap)

theorem aliasOf_inj {f g : Frame} : map.aliasOf f = map.aliasOf g ↔ f = g := by
  constructor
  · intro h
    rw [← map.frameAt_alias f, h, map.frameAt_alias]
  · rintro rfl
    rfl

/-- So many frames further on is the frame whose number is so much larger. -/
theorem aliasOf_add (n k : Nat) :
    map.aliasOf (.ofNumber n) + k * frameSize = map.aliasOf (.ofNumber (n + k)) := by
  have halias : ∀ f : Frame, (map.aliasOf f).toNat =
      (f.number * 4096 + map.offset.toNat) % 2 ^ 64 := fun f =>
    (UInt64.toNat_add _ _).trans (congrArg (fun b => (b + map.offset.toNat) % 2 ^ 64) f.toNat_base)
  have hpages : PageSize.small.pages = 2 ^ 52 := rfl
  apply Address.toNat_inj.mp
  rw [Address.toNat_add, halias, halias, frameSize]
  simp only [Page.ofNumber, hpages]
  omega

end DirectMap

namespace Span

variable {map : DirectMap} {s t : Span}

/-- The frames of a span as a run of memory. -/
def run (map : DirectMap) (s : Span) : Run := ⟨map.aliasOf (.ofNumber s.first), s.size * frameSize⟩

/-- No number of a span is that of the last frame of the address space. -/
def Fits (s : Span) : Prop := s.first + s.size < PageSize.small.pages

theorem run_single (map : DirectMap) (f : Frame) : run map ⟨f.number, 1⟩ = .ofFrame (map.aliasOf f) := by
  simp [run, Run.ofFrame]

theorem mem_run (hs : s.Fits) {a : VirtualAddress} :
    a ∈ s.run map ↔ (map.frameAt a).number ∈ s.numbers := by
  have hpages : PageSize.small.pages = 2 ^ 52 := rfl
  have hbytes : PageSize.small.bytes = 4096 := rfl
  rw [Fits, hpages] at hs
  have hfirst : s.first % 2 ^ 52 = s.first := Nat.mod_eq_of_lt (by omega)
  have hbase := (Page.ofNumber s.first : Frame).toNat_base
  have hd := (Page.ofNumber s.first : Frame).base.distance_eq (map.toPhysical a)
  have hp := (map.toPhysical a).toNat_lt
  rw [Run.mem_iff, run, DirectMap.distance_alias, mem_numbers, DirectMap.frameAt, Page.containing]
  simp only [Page.ofNumber, hpages, hbytes, hfirst, frameSize] at hbase hd ⊢
  omega

/-- Runs lie end to end as their spans do. -/
theorem run_meets_iff (hs : s.Fits) (ht : t.Fits) :
    (s.run map).start + (s.run map).length = (t.run map).start ↔ s.Meets t := by
  rw [run, run, DirectMap.aliasOf_add, DirectMap.aliasOf_inj,
    Page.ofNumber_inj hs (Nat.lt_of_le_of_lt (Nat.le_add_right _ _) ht), Meets]

/-- A frame extends a run as its number extends the span. -/
theorem extend?_run (hs : s.Fits) {f : Frame} (hf : f.number + 1 < PageSize.small.pages) :
    (s.run map).extend? (map.aliasOf f) = (s.extend? f.number).map (run map) := by
  have hafter : (s.run map).start + (s.run map).length = map.aliasOf f ↔
      s.first + s.size = f.number := by
    rw [run, DirectMap.aliasOf_add, DirectMap.aliasOf_inj, ← Page.ofNumber_number f,
      Page.ofNumber_inj hs f.number_lt, Page.ofNumber_number]
  have hbefore : map.aliasOf f + frameSize = (s.run map).start ↔ f.number + 1 = s.first := by
    have hstep := map.aliasOf_add f.number 1
    rw [Page.ofNumber_number, Nat.one_mul] at hstep
    rw [hstep, run, DirectMap.aliasOf_inj,
      Page.ofNumber_inj hf (Nat.lt_of_le_of_lt (Nat.le_add_right _ _) hs)]
  simp only [Run.extend?, extend?, hafter, hbefore]
  split
  · simp only [run, Option.map_some, Nat.succ_mul]
  · split
    · simp only [run, Option.map_some, Nat.succ_mul, Page.ofNumber_number]
    · rfl

theorem fits_of_extend {n : Nat} {longer : Span} (h : s.extend? n = some longer) (hs : s.Fits)
    (hn : n + 1 < PageSize.small.pages) : longer.Fits := by
  rw [Fits] at *
  rcases extend?_eq_some h with ⟨rfl, rfl⟩ | ⟨hbefore, rfl⟩
  · exact hn
  · dsimp only
    omega

theorem fits_of_mem_joined {ns : List Nat} (hs : s.Fits)
    (hns : ∀ n ∈ ns, n + 1 < PageSize.small.pages) (ht : t ∈ joined s ns) : t.Fits := by
  induction ns generalizing s with
  | nil =>
    rw [joined, List.mem_singleton] at ht
    exact ht ▸ hs
  | cons n ns ih =>
    obtain ⟨hn, hrest⟩ := List.forall_mem_cons.mp hns
    rw [joined] at ht
    split at ht
    · rename_i longer hext
      exact ih (fits_of_extend hext hs hn) hrest ht
    · rcases List.mem_cons.mp ht with rfl | ht
      · exact hs
      · exact ih (s := ⟨n, 1⟩) hn hrest ht

theorem fits_of_mem_ofNumbers {ns : List Nat} (hns : ∀ n ∈ ns, n + 1 < PageSize.small.pages)
    (ht : t ∈ ofNumbers ns) : t.Fits := by
  cases ns with
  | nil => cases ht
  | cons n ns =>
    obtain ⟨hn, hrest⟩ := List.forall_mem_cons.mp hns
    exact fits_of_mem_joined (s := ⟨n, 1⟩) hn hrest ht

/-- Frames join to runs as their numbers join to spans. -/
theorem joined_run (hs : s.Fits) {fs : List Frame}
    (hfs : ∀ f ∈ fs, f.number + 1 < PageSize.small.pages) :
    Run.joined map (s.run map) fs = (joined s (fs.map Page.number)).map (run map) := by
  induction fs generalizing s with
  | nil => rfl
  | cons f fs ih =>
    obtain ⟨hf, hrest⟩ := List.forall_mem_cons.mp hfs
    rw [List.map_cons, Run.joined, joined, extend?_run hs hf]
    cases hext : s.extend? f.number with
    | some longer => exact ih (fits_of_extend hext hs hf) hrest
    | none =>
      have hsingle := ih (s := ⟨f.number, 1⟩) hf hrest
      rw [run_single] at hsingle
      exact congrArg (s.run map :: ·) hsingle

theorem ofFrames_eq {fs : List Frame} (hfs : ∀ f ∈ fs, f.number + 1 < PageSize.small.pages) :
    Run.ofFrames map fs = (ofNumbers (fs.map Page.number)).map (run map) := by
  cases fs with
  | nil => rfl
  | cons f fs =>
    obtain ⟨hf, hrest⟩ := List.forall_mem_cons.mp hfs
    rw [Run.ofFrames, ← run_single, List.map_cons, ofNumbers]
    exact joined_run (s := ⟨f.number, 1⟩) hf hrest

end Span

/-- Blocks that are runs of contiguous frames, each of some frames in exactly one of them. -/
structure MadeOf (map : DirectMap) (fs : List Frame) (blocks : List Run) : Prop where
  run : ∀ b ∈ blocks, ∃ s : Span, 0 < s.size ∧ b = s.run map ∧
    ∀ n ∈ s.numbers, n ∈ fs.map Page.number
  apart : blocks.Pairwise Run.Apart
  whole : ∀ f ∈ fs, ∃ b ∈ blocks, ∀ a, map.frameAt a = f → a ∈ b

/-- Blocks that are the maximal runs of contiguous frames among some frames. -/
structure MaximalRuns (map : DirectMap) (fs : List Frame) (blocks : List Run) : Prop
    extends MadeOf map fs blocks where
  /-- No block begins where another one ends. -/
  separate : ∀ b ∈ blocks, ∀ c ∈ blocks, b.start + b.length ≠ c.start
  /-- Contiguous frames lie in one block. -/
  maximal : ∀ s : Span, 0 < s.size → (∀ n ∈ s.numbers, n ∈ fs.map Page.number) →
    ∃ b ∈ blocks, ∀ a, (map.frameAt a).number ∈ s.numbers → a ∈ b

section

variable {map : DirectMap} {fs : List Frame} {blocks blocks' : List Run}

/-- The order of the blocks does not matter. -/
theorem MadeOf.perm (h : MadeOf map fs blocks) (hp : blocks.Perm blocks') : MadeOf map fs blocks' := by
  constructor
  case run => exact fun b hb => h.run b (hp.mem_iff.mpr hb)
  case apart => exact (hp.pairwise_iff Run.Apart.symm).mp h.apart
  case whole =>
    intro f hf
    obtain ⟨b, hb, hin⟩ := h.whole f hf
    exact ⟨b, hp.mem_iff.mp hb, hin⟩

theorem MaximalRuns.perm (h : MaximalRuns map fs blocks) (hp : blocks.Perm blocks') :
    MaximalRuns map fs blocks' := by
  constructor
  case toMadeOf => exact h.toMadeOf.perm hp
  case separate => exact fun b hb c hc => h.separate b (hp.mem_iff.mpr hb) c (hp.mem_iff.mpr hc)
  case maximal =>
    intro s hs hsub
    obtain ⟨b, hb, hin⟩ := h.maximal s hs hsub
    exact ⟨b, hp.mem_iff.mp hb, hin⟩

/-- Every order of the frames leads to runs of all of them. -/
theorem madeOf_ofFrames (hn : fs.Nodup) (hfs : ∀ f ∈ fs, f.number + 1 < PageSize.small.pages) :
    MadeOf map fs (Run.ofFrames map fs) := by
  have hns : ∀ n ∈ fs.map Page.number, n + 1 < PageSize.small.pages := by
    rw [List.forall_mem_map]
    exact hfs
  have hnodup : (fs.map Page.number).Nodup := hn.map fun _ _ => Page.ext_number
  have hmem := Span.mem_ofNumbers_iff (fs.map Page.number)
  rw [Span.ofFrames_eq hfs]
  constructor
  case run =>
    rw [List.forall_mem_map]
    intro s hs
    exact ⟨s, Span.size_pos_of_mem_ofNumbers hs, rfl, fun n hin => (hmem n).mp ⟨s, hs, hin⟩⟩
  case apart =>
    rw [List.pairwise_map]
    refine (Span.pairwise_disjoint_ofNumbers hnodup).imp_of_mem ?_
    intro s t hs ht hd a has hat
    rw [Span.mem_run (Span.fits_of_mem_ofNumbers hns hs)] at has
    rw [Span.mem_run (Span.fits_of_mem_ofNumbers hns ht)] at hat
    exact hd has hat
  case whole =>
    intro f hf
    obtain ⟨s, hs, hin⟩ := (hmem f.number).mpr (List.mem_map_of_mem hf)
    refine ⟨s.run map, List.mem_map_of_mem hs, ?_⟩
    rintro a rfl
    exact (Span.mem_run (Span.fits_of_mem_ofNumbers hns hs)).mpr hin

/-- They are the maximal runs just in case the frames come settled. -/
theorem maximalRuns_ofFrames_iff (hn : fs.Nodup)
    (hfs : ∀ f ∈ fs, f.number + 1 < PageSize.small.pages) :
    MaximalRuns map fs (Run.ofFrames map fs) ↔ Settled [] (fs.map Page.number) := by
  have hns : ∀ n ∈ fs.map Page.number, n + 1 < PageSize.small.pages := by
    rw [List.forall_mem_map]
    exact hfs
  have hnodup : (fs.map Page.number).Nodup := hn.map fun _ _ => Page.ext_number
  have hmade : MadeOf map fs (Run.ofFrames map fs) := madeOf_ofFrames hn hfs
  rw [← Span.separate_ofNumbers_iff hnodup]
  rw [Span.ofFrames_eq hfs] at hmade ⊢
  constructor
  · intro h s hs t ht hmeets
    refine h.separate _ (List.mem_map_of_mem hs) _ (List.mem_map_of_mem ht) ?_
    exact (Span.run_meets_iff (Span.fits_of_mem_ofNumbers hns hs)
      (Span.fits_of_mem_ofNumbers hns ht)).mpr hmeets
  · intro hsep
    refine ⟨hmade, ?_, ?_⟩
    · rw [List.forall_mem_map]
      intro s hs
      rw [List.forall_mem_map]
      intro t ht hmeets
      refine hsep s hs t ht ?_
      exact (Span.run_meets_iff (Span.fits_of_mem_ofNumbers hns hs)
        (Span.fits_of_mem_ofNumbers hns ht)).mp hmeets
    · intro t ht hsub
      obtain ⟨s, hs, hin⟩ := hsep.exists_of_consecutive hnodup ht hsub
      refine ⟨s.run map, List.mem_map_of_mem hs, fun a ha => ?_⟩
      exact (Span.mem_run (Span.fits_of_mem_ofNumbers hns hs)).mpr (hin _ ha)

end

end PagedMemory
