import PagedMemory.Proofs.Frame.Order
import PagedMemory.Proofs.Ownership.Coverage
/-!
# The edges of a region

Which frames come out of a region with any base and any length, be it without bytes, within a single
frame or beyond the top of the address space. Those inside of it are right everywhere. Those that it
touches are right for a region that has bytes and stays below the last frame of the address space. A
region without bytes yields the frame that its base cuts, and the last frame never comes out: the end
of a region is at most the last address, and rounding that up stops there.
-/
namespace PagedMemory

namespace FrameRange

theorem size_of_popFront? {r rest : FrameRange} {f : Frame} (h : r.popFront? = some (f, rest)) :
    rest.size < r.size := by
  rw [← length_toList, ← length_toList, toList_of_popFront? h, List.length_cons]
  exact Nat.lt_succ_self _

/-- What comes out if the frames are taken from the front, one after the other. -/
def drain (r : FrameRange) : List Frame :=
  match h : r.popFront? with
  | none => []
  | some (f, rest) =>
    have := size_of_popFront? h
    f :: rest.drain
termination_by r.size

@[simp] theorem drain_eq_toList (r : FrameRange) : r.drain = r.toList := by
  induction r using drain.induct with
  | case1 r h =>
    rw [drain]
    split
    · exact (popFront?_eq_none.mp h).symm
    · simp_all
  | case2 r f rest h _ ih =>
    rw [drain]
    split
    · simp_all
    · rename_i g rest' h'
      obtain ⟨rfl, rfl⟩ : f = g ∧ rest = rest' := by simpa [h] using h'
      rw [ih, toList_of_popFront? h]

end FrameRange

/-- The last frame of the address space. -/
def Frame.last : Frame := ⟨PageSize.small.pages - 1, by decide⟩

namespace Region

variable {r : Region} {f : Frame}

theorem toNat_endAddress (r : Region) : r.endAddress.toNat = r.limit := by
  rw [endAddress, Address.toNat_ofNat, Nat.mod_eq_of_lt r.limit_lt]

/-- The byte at an address belongs to a region. -/
def HasByte (r : Region) (a : PhysicalAddress) : Prop :=
  r.base.toNat ≤ a.toNat ∧ a.toNat < r.endAddress.toNat

/-- A frame has a byte of a region. -/
def Touches (r : Region) (f : Frame) : Prop :=
  ∃ a, r.HasByte a ∧ Page.containing a = f

/-- A region has no byte, and its base is not where a frame begins. -/
def CutsOnly (r : Region) : Prop :=
  r.endAddress = r.base ∧ ¬ PageSize.small.bytes ∣ r.base.toNat

/-! ## The frames inside of a region -/

theorem Contains.hasByte_base (h : r.Contains f) : r.HasByte f.base := by
  refine ⟨h.1, ?_⟩
  rw [toNat_endAddress]
  exact Nat.lt_of_lt_of_le (Nat.lt_add_of_pos_right (by decide)) h.2

/-- Frames inside of a region find room in it next to each other: the first of them begins in it, and
the last of them ends in it. -/
theorem frameSize_mul_length_frames_le (r : Region) :
    frameSize * r.frames.toList.length ≤ r.length.toNat := by
  have hs : PageSize.small.bytes = 4096 := rfl
  have hend : r.limit ≤ r.base.toNat + r.length.toNat := Nat.min_le_left _ _
  have hstop := r.frames.stop_le
  rw [FrameRange.length_toList, FrameRange.size, frameSize]
  rcases Nat.eq_or_lt_of_le r.frames.next_le_stop with hnone | hsome
  · rw [hnone, Nat.sub_self]
    exact Nat.zero_le _
  · have hfirst := (mem_frames.mp (FrameRange.mem_toList (f := ⟨r.frames.next, by omega⟩).mpr
      ⟨Nat.le_refl _, hsome⟩)).1
    have hlast := (mem_frames.mp (FrameRange.mem_toList (f := ⟨r.frames.stop - 1, by omega⟩).mpr
      ⟨Nat.le_sub_one_of_lt hsome, Nat.sub_one_lt_of_lt hsome⟩)).2
    simp only [Page.toNat_base, hs, frameSize] at hfirst hlast
    omega

/-- The frames of a region are rounded inward, whatever its base and its length. -/
structure RoundsInward (r : Region) : Prop where
  ascending : Frame.Ascending r.frames.drain
  exactly : ∀ f, f ∈ r.frames.drain ↔
    r.base.toNat ≤ f.base.toNat ∧ f.base.toNat + frameSize ≤ r.endAddress.toNat
  /-- Too short for a frame, which a region without bytes is too. -/
  short : r.length.toNat < frameSize → r.frames.drain = []
  /-- Begins in the last frame of the address space. -/
  top : Frame.last.base.toNat ≤ r.base.toNat → r.frames.drain = []
  room : frameSize * r.frames.drain.length ≤ r.length.toNat
  covered : r.frames.drain ⊆ r.coveringFrames.drain
  /-- Not even neighbours that share the frame at their edge yield the same frame. -/
  apart : ∀ r' : Region, (∀ a, r.HasByte a → ¬ r'.HasByte a) →
    r.frames.drain.Disjoint r'.frames.drain

theorem roundsInward (r : Region) : r.RoundsInward := by
  have hroom := r.frameSize_mul_length_frames_le
  constructor <;> simp only [FrameRange.drain_eq_toList]
  case ascending => exact r.frames.ascending_toList
  case exactly =>
    intro f
    rw [mem_frames, Contains, toNat_endAddress]
  case short =>
    intro hshort
    rw [← List.length_eq_zero_iff]
    by_contra hne
    have := Nat.le_mul_of_pos_right frameSize (Nat.pos_of_ne_zero hne)
    omega
  case top =>
    intro htop
    rw [List.eq_nil_iff_forall_not_mem]
    intro f hf
    have hin := (mem_frames.mp hf).1
    have hlast := number_lt_of_mem_frames hf
    have hle := htop.trans hin
    rw [Page.toNat_base, Page.toNat_base] at hle
    have hnumber : PageSize.small.pages - 1 ≤ f.number :=
      Nat.le_of_mul_le_mul_right hle PageSize.small.bytes_pos
    omega
  case room => exact hroom
  case covered => exact r.frames_subset_coveringFrames
  case apart =>
    intro r' hdisjoint f hf hf'
    exact hdisjoint f.base (mem_frames.mp hf).hasByte_base (mem_frames.mp hf').hasByte_base

/-- Neighbours that meet within a frame: the frame there comes out of neither. -/
example : (⟨⟨0x1000⟩, 0x2800, .usable⟩ : Region).frames.toList = [.ofNumber 1, .ofNumber 2] ∧
    (⟨⟨0x3800⟩, 0x1800, .usable⟩ : Region).frames.toList = [.ofNumber 4] := by decide +kernel

/-! ## The frames that a region touches -/

/-- A region touches the frames from that of its base to that of its last byte. -/
theorem touches_iff : r.Touches f ↔ r.base.toNat < r.limit ∧
    r.base.toNat / frameSize ≤ f.number ∧ f.base.toNat < r.limit := by
  have hs : PageSize.small.bytes = 4096 := rfl
  rw [Page.toNat_base, hs, frameSize]
  constructor
  · rintro ⟨a, ⟨hlow, hhigh⟩, rfl⟩
    rw [toNat_endAddress] at hhigh
    simp only [Page.containing, hs]
    omega
  · rintro ⟨hbytes, hlow, hhigh⟩
    have hlimit := r.limit_lt
    refine ⟨.ofNat (max r.base.toNat (f.number * 4096)), ⟨?_, ?_⟩, Page.ext_number ?_⟩
    · rw [Address.toNat_ofNat]
      omega
    · rw [toNat_endAddress, Address.toNat_ofNat]
      omega
    · simp only [Page.containing, Address.toNat_ofNat, hs]
      omega

theorem cutsOnly_iff : r.CutsOnly ↔ r.limit = r.base.toNat ∧ r.base.toNat % frameSize ≠ 0 := by
  rw [CutsOnly, ← Address.toNat_inj, toNat_endAddress, Nat.dvd_iff_mod_eq_zero]
  rfl

theorem CutsOnly.not_touches (h : r.CutsOnly) (f : Frame) : ¬ r.Touches f := by
  rw [touches_iff, (cutsOnly_iff.mp h).1]
  exact fun ht => Nat.lt_irrefl _ ht.1

/-- What comes out are the frames that the region touches and that which its base cuts, up to the
last frame of the address space. -/
theorem mem_coveringFrames : f ∈ r.coveringFrames.toList ↔
    (r.Touches f ∨ r.CutsOnly ∧ f = .containing r.base) ∧ f ≠ Frame.last := by
  have hs : PageSize.small.bytes = 4096 := rfl
  have hp : PageSize.small.pages = 2 ^ 52 := rfl
  have hlast : Frame.last.number = 2 ^ 52 - 1 := rfl
  have hb := r.base.toNat_lt
  have hl := r.limit_lt
  have hle : r.base.toNat ≤ r.limit := le_min (Nat.le_add_right _ _) (by omega)
  have hf := f.number_lt
  rw [touches_iff, cutsOnly_iff, FrameRange.mem_toList, Page.toNat_base]
  simp only [Ne, Page.ext_number_iff, hlast, coveringFrames, FrameRange.between, coveringLimit,
    Page.containing, hs, frameSize]
  omega

/-- The covering frames of a region are rounded outward, but for a region without bytes and for the
last frame of the address space. -/
structure RoundsOutward (r : Region) : Prop where
  ascending : Frame.Ascending r.coveringFrames.drain
  exactly : ∀ f, f ∈ r.coveringFrames.drain ↔
    (r.Touches f ∨ r.CutsOnly ∧ f = .containing r.base) ∧ f ≠ Frame.last
  /-- They are the frames that the region touches just if neither of the two happens. -/
  faithful : (∀ f, f ∈ r.coveringFrames.drain ↔ r.Touches f) ↔
    (r.CutsOnly → Page.containing r.base = Frame.last) ∧ ¬ r.Touches Frame.last

theorem roundsOutward (r : Region) : r.RoundsOutward := by
  constructor <;> simp only [FrameRange.drain_eq_toList]
  case ascending => exact r.coveringFrames.ascending_toList
  case exactly => exact fun f => mem_coveringFrames
  case faithful =>
    constructor
    · intro h
      refine ⟨fun hcuts => ?_, fun ht => ?_⟩
      · by_contra hne
        exact hcuts.not_touches _ ((h _).mp (mem_coveringFrames.mpr ⟨.inr ⟨hcuts, rfl⟩, hne⟩))
      · exact (mem_coveringFrames.mp ((h _).mpr ht)).2 rfl
    · rintro ⟨hcuts, hlast⟩ f
      rw [mem_coveringFrames]
      constructor
      · rintro ⟨ht | ⟨hc, rfl⟩, hne⟩
        · exact ht
        · exact absurd (hcuts hc) hne
      · intro ht
        exact ⟨.inl ht, fun he => hlast (he ▸ ht)⟩

/-- A region without bytes yields the frame that its base cuts, and a region that consists of the last
frame yields none. -/
theorem coveringFrames_untouched_missed :
    let cut : Region := ⟨⟨0x5001⟩, 0, .framebuffer⟩
    let top : Region := ⟨⟨0xfffffffffffff000⟩, 0xfff, .acpiNvs⟩
    (cut.coveringFrames.drain = [.ofNumber 5] ∧ ∀ f, ¬ cut.Touches f) ∧
      (top.coveringFrames.drain = [] ∧ top.Touches Frame.last) := by
  intro cut top
  simp only [FrameRange.drain_eq_toList]
  refine ⟨⟨by decide +kernel, ?_⟩, by decide +kernel, ?_⟩
  · exact CutsOnly.not_touches ⟨by decide +kernel, by decide +kernel⟩
  · exact touches_iff.mpr (by decide +kernel)

end Region

end PagedMemory
