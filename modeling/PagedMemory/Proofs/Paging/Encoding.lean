import Mathlib
import PagedMemory.Paging.Entry
/-!
# What entries say

An entry that was built for a table, a 4 KiB leaf or a 2 MiB leaf is read back as just that, and it
can be built whenever the frame number fits into forty bits.
-/
namespace PagedMemory.Entry

/-- Flags are outside of the bits that hold the frame number. -/
theorem flag_get_set_frame (f : EntryFlag) (w : UInt64) (n : Nat) :
    f.field.get (frameField.set w n) = f.field.get w := by
  apply BitField.get_set_of_disjoint
  cases f <;> decide

theorem holds_frameField_iff (n : Nat) : frameField.holds n = true ↔ n < 2 ^ 40 :=
  decide_eq_true_iff

theorem has_of_withFrameNumber {e e' : Entry} {n : Nat} (h : e.withFrameNumber n = .ok e')
    (f : EntryFlag) : e'.has f = e.has f := by
  unfold withFrameNumber at h
  split at h
  · cases h
    rw [has, has, flag_get_set_frame]
  · cases h

theorem frameNumber_of_withFrameNumber {e e' : Entry} {n : Nat}
    (h : e.withFrameNumber n = .ok e') : e'.frameNumber = n := by
  unfold withFrameNumber at h
  split at h
  · rename_i hn
    cases h
    rw [frameNumber, BitField.get_set]
    exact Nat.mod_eq_of_lt ((holds_frameField_iff n).mp hn)
  · cases h

theorem withFrameNumber_ok (e : Entry) {n : Nat} (h : n < 2 ^ 40) :
    ∃ e', e.withFrameNumber n = .ok e' := by
  exact ⟨_, if_pos ((holds_frameField_iff n).mpr h)⟩

theorem withFrameNumber_error {e : Entry} {n : Nat} {f : Fault}
    (h : e.withFrameNumber n = .error f) : f = .frameNumberRange ∧ 2 ^ 40 ≤ n := by
  unfold withFrameNumber at h
  split at h
  · cases h
  · rename_i hn
    cases h
    rw [holds_frameField_iff] at hn
    exact ⟨rfl, Nat.not_lt.mp hn⟩

/-- A link to a table is read as that table. -/
theorem isTable_of_table {f : Frame} {e : Entry} (h : table f = .ok e) : e.isTable = true := by
  rw [isTable, has_of_withFrameNumber h, has_of_withFrameNumber h]
  decide

theorem frame_of_table {f : Frame} {e : Entry} (h : table f = .ok e) : e.frame = f :=
  Page.ext_number (frameNumber_of_withFrameNumber h)

theorem present_of_leaf {f : Frame} {e : Entry} (h : leaf f = .ok e) : e.has .present = true := by
  rw [has_of_withFrameNumber h]
  decide

theorem frame_of_leaf {f : Frame} {e : Entry} (h : leaf f = .ok e) : e.frame = f :=
  frame_of_table h

theorem present_of_largeLeaf {p : Page .physical .large} {e : Entry} (h : largeLeaf p = .ok e) :
    e.has .present = true := by
  rw [has_of_withFrameNumber h]
  decide

theorem pageSize_of_largeLeaf {p : Page .physical .large} {e : Entry} (h : largeLeaf p = .ok e) :
    e.has .pageSize = true := by
  rw [has_of_withFrameNumber h]
  decide

theorem isTable_of_largeLeaf {p : Page .physical .large} {e : Entry} (h : largeLeaf p = .ok e) :
    e.isTable = false := by
  rw [isTable, pageSize_of_largeLeaf h]
  simp

/-- A 2 MiB leaf is read as its page. -/
theorem largePage_of_largeLeaf {p : Page .physical .large} {e : Entry} (h : largeLeaf p = .ok e) :
    e.largePage = p := by
  have hn : e.frame.number = p.base.toNat / 4096 := frameNumber_of_withFrameNumber h
  have hb := p.toNat_base
  have hs : PageSize.large.bytes = 2097152 := rfl
  have hs' : PageSize.small.bytes = 4096 := rfl
  apply Page.ext_number
  rw [largePage, Page.containing]
  simp only [Page.toNat_base, hn, hs, hs'] at hb ⊢
  omega

/-- The frame around an address below `2 ^ 52` fits into an entry. -/
theorem number_containing_lt {a : PhysicalAddress} (h : a.toNat < 2 ^ 52) :
    (Page.containing a : Frame).number < 2 ^ 40 := by
  have hs : PageSize.small.bytes = 4096 := rfl
  simp only [Page.containing, hs]
  omega

theorem leaf_ok {a : PhysicalAddress} (h : a.toNat < 2 ^ 52) :
    ∃ e, leaf (.containing a) = .ok e :=
  withFrameNumber_ok _ (number_containing_lt h)

theorem largeLeaf_ok {a : PhysicalAddress} (h : a.toNat < 2 ^ 52) :
    ∃ e, largeLeaf (.containing a) = .ok e := by
  have hs : PageSize.large.bytes = 2097152 := rfl
  refine withFrameNumber_ok _ ?_
  rw [Page.toNat_base, Page.containing]
  simp only [hs]
  omega

theorem isTable_iff (e : Entry) :
    e.isTable = true ↔ e.has .present = true ∧ e.has .pageSize = false := by
  simp [isTable]

/-- An entry that is present is a link or a large leaf. -/
theorem isTable_eq_false_iff (e : Entry) :
    e.isTable = false ↔ e.has .present = false ∨ e.has .pageSize = true := by
  cases hp : e.has .present <;> simp [isTable, hp]

@[simp] theorem present_unused : unused.has .present = false := by decide

/-! ## Entries bit by bit -/

/-- A frame number above flags that stay below it is the base of the frame or-ed with the flags. -/
theorem setFrame_eq_or {w : UInt64} {n : Nat} (hw : w.toNat < 2 ^ 12) (hn : n < 2 ^ 40) :
    frameField.set w n = UInt64.ofNat (4096 * n) ||| w := by
  have hsum : 4096 * n + w.toNat = 4096 * n ||| w.toNat := Nat.two_pow_add_eq_or_of_lt hw n
  have hbase : (UInt64.ofNat (4096 * n)).toNat = 4096 * n := by
    rw [UInt64.toNat_ofNat']
    exact Nat.mod_eq_of_lt (by omega)
  have hset : (frameField.set w n).toNat =
      w.toNat % 4096 + 4096 * (n % 2 ^ 40) + 2 ^ 52 * (w.toNat / 2 ^ 52) :=
    BitField.toNat_set _ _ _
  apply UInt64.toNat_inj.mp
  rw [UInt64.toNat_or, hbase, ← hsum, hset]
  omega

theorem number_lt_of_table {f : Frame} {e : Entry} (h : table f = .ok e) : f.number < 2 ^ 40 := by
  have hf := frameNumber_of_withFrameNumber h
  have he := e.frameNumber_lt
  omega

theorem bits_of_withFrameNumber {e e' : Entry} {n : Nat} (h : e.withFrameNumber n = .ok e')
    (he : e.bits.toNat < 2 ^ 12) : e'.bits = UInt64.ofNat (4096 * n) ||| e.bits := by
  have hn : n < 2 ^ 40 := frameNumber_of_withFrameNumber h ▸ e'.frameNumber_lt
  rw [withFrameNumber, if_pos ((holds_frameField_iff n).mpr hn)] at h
  cases h
  exact setFrame_eq_or he hn

/-- A link to a table is the base of the table with the lowest two bits set; so is a 4 KiB leaf. -/
theorem bits_of_table {f : Frame} {e : Entry} (h : table f = .ok e) :
    e.bits = f.base.value ||| 0x3 := by
  have hbase : f.base.value = UInt64.ofNat (4096 * f.number) :=
    congrArg UInt64.ofNat (Nat.mul_comm _ _)
  rw [hbase]
  exact bits_of_withFrameNumber h (by decide)

theorem bits_of_largeLeaf {p : Page .physical .large} {e : Entry} (h : largeLeaf p = .ok e) :
    p.base.toNat < 2 ^ 52 ∧ e.bits = p.base.value ||| 0x83 := by
  have hn := frameNumber_of_withFrameNumber h
  have he := e.frameNumber_lt
  have hb : p.base.toNat = p.number * 2097152 := p.toNat_base
  have hbase : p.base.value = UInt64.ofNat (4096 * (p.base.toNat / 4096)) := by
    apply UInt64.toNat_inj.mp
    have hlt := p.base.toNat_lt
    have hnat : p.base.value.toNat = p.base.toNat := rfl
    rw [UInt64.toNat_ofNat', hnat]
    omega
  refine ⟨by omega, ?_⟩
  rw [hbase]
  exact bits_of_withFrameNumber h (by decide)

end PagedMemory.Entry
