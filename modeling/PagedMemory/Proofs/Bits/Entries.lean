import PagedMemory.Proofs.Bits.Addresses
import PagedMemory.Proofs.Paging.Lifecycle
/-!
# The words that a processor reads

Entries of page tables and register CR3, down to their bits. What is built for a frame or a large
page is the base of it with some flags, if there is room for the base, and is read back as that.
Whatever else is in a word, a frame is read from bits 12 to 51 and a large page from bits 21 to 51,
and what is read leads back to just those bits.
-/
namespace PagedMemory

theorem Page.base_lt_iff {f : Frame} : f.base.toNat < 2 ^ 52 ↔ f.number < 2 ^ 40 := by
  have hs : PageSize.small.bytes = 4096 := rfl
  rw [Page.toNat_base, hs]
  omega

/-! ## What is built -/

namespace Entry

/-- If there is no room for a frame number there is no entry, whatever its flags. -/
theorem withFrameNumber_eq {e : Entry} {n : Nat} {w : UInt64}
    (hbits : ∀ e', e.withFrameNumber n = .ok e' → e'.bits = w) :
    e.withFrameNumber n = if n < 2 ^ 40 then .ok ⟨w⟩ else .error .frameNumberRange := by
  by_cases hn : n < 2 ^ 40
  · obtain ⟨e', he⟩ := withFrameNumber_ok e hn
    rw [if_pos hn, he, ← hbits e' he]
  · rw [if_neg hn, withFrameNumber, if_neg ((holds_frameField_iff n).not.mpr hn)]

theorem table_eq (f : Frame) : table f =
    if f.base.toNat < 2 ^ 52 then .ok ⟨f.base.value ||| 0x3⟩ else .error .frameNumberRange :=
  (withFrameNumber_eq fun _ => bits_of_table).trans (if_congr Page.base_lt_iff.symm rfl rfl)

theorem largeLeaf_eq (p : Page .physical .large) : largeLeaf p =
    if p.base.toNat < 2 ^ 52 then .ok ⟨p.base.value ||| 0x83⟩ else .error .frameNumberRange := by
  have hnumber : p.base.toNat / 4096 < 2 ^ 40 ↔ p.base.toNat < 2 ^ 52 := by omega
  exact (withFrameNumber_eq fun _ h => (bits_of_largeLeaf h).2).trans (if_congr hnumber rfl rfl)

end Entry

theorem Cr3.ofRoot_eq (f : Frame) : ofRoot f =
    if f.base.toNat < 2 ^ 52 then .ok ⟨f.base.value⟩ else .error .frameNumberRange := by
  have hholds : rootField.holds f.number = true ↔ f.base.toNat < 2 ^ 52 :=
    decide_eq_true_iff.trans Page.base_lt_iff.symm
  by_cases h : f.base.toNat < 2 ^ 52
  · have hok : ofRoot f = .ok ⟨rootField.set 0 f.number⟩ := if_pos (hholds.mpr h)
    rw [if_pos h, ← (bits_of_ofRoot hok).2]
    exact hok
  · rw [if_neg h, ofRoot, if_neg (hholds.not.mpr h)]

/-! ## What is read -/

namespace Entry

variable {e e' : Entry}

/-- Bits 21 to 51, which hold the number of a large page. -/
def largeField : BitField := ⟨21, 31, by decide⟩

theorem number_largePage (e : Entry) : e.largePage.number = largeField.get e.bits := by
  have hs : PageSize.large.bytes = 2097152 := rfl
  have hbase : e.frame.base.toNat = e.bits.toNat / 2 ^ 12 % 2 ^ 40 * 4096 := e.frame.toNat_base
  simp only [largePage, Page.containing, hs, hbase, BitField.get, largeField]
  omega

theorem frame_eq_iff : e.frame = e'.frame ↔ SameBits 12 52 e.bits e'.bits :=
  Page.ext_number_iff.trans frameField.get_eq_get_iff

theorem largePage_eq_iff : e.largePage = e'.largePage ↔ SameBits 21 52 e.bits e'.bits := by
  rw [Page.ext_number_iff, number_largePage, number_largePage]
  exact largeField.get_eq_get_iff

theorem has_eq_testBit (e : Entry) (f : EntryFlag) : e.has f = e.bits.toNat.testBit f.bit := by
  rw [Nat.testBit_eq_decide_div_mod_eq]
  rfl

/-- A link is told by the present flag and the page-size flag. -/
theorem isTable_eq_testBit (e : Entry) :
    e.isTable = (e.bits.toNat.testBit 0 && !e.bits.toNat.testBit 7) := by
  rw [isTable, has_eq_testBit, has_eq_testBit]
  rfl

theorem value_base_frame (e : Entry) : e.frame.base.value = e.bits &&& 0x000ffffffffff000 := by
  have hmask : frameField.mask = 0x000ffffffffff000 := by decide
  apply UInt64.toNat_inj.mp
  rw [← hmask, BitField.toNat_and_mask]
  exact e.frame.toNat_base.trans (Nat.mul_comm _ _)

theorem value_base_largePage (e : Entry) :
    e.largePage.base.value = e.bits &&& 0x000fffffffe00000 := by
  have hmask : largeField.mask = 0x000fffffffe00000 := by decide
  apply UInt64.toNat_inj.mp
  rw [← hmask, BitField.toNat_and_mask, ← number_largePage]
  exact e.largePage.toNat_base.trans (Nat.mul_comm _ _)

theorem base_frame_lt (e : Entry) : e.frame.base.toNat < 2 ^ 52 :=
  Page.base_lt_iff.mpr e.frameNumber_lt

theorem base_largePage_lt (e : Entry) : e.largePage.base.toNat < 2 ^ 52 := by
  have hs : PageSize.large.bytes = 2097152 := rfl
  have hlt : e.largePage.number < 2 ^ 31 := number_largePage e ▸ largeField.get_lt _
  rw [Page.toNat_base, hs]
  omega

/-- The frame of an entry can be linked to again, and the link has its bits. -/
theorem table_frame (e : Entry) : table e.frame = .ok ⟨e.bits &&& 0x000ffffffffff000 ||| 0x3⟩ := by
  rw [table_eq, if_pos e.base_frame_lt, value_base_frame]

theorem largeLeaf_largePage (e : Entry) :
    largeLeaf e.largePage = .ok ⟨e.bits &&& 0x000fffffffe00000 ||| 0x83⟩ := by
  rw [largeLeaf_eq, if_pos e.base_largePage_lt, value_base_largePage]

end Entry

namespace Cr3

variable {r r' : Cr3}

theorem root_eq_iff : r.root = r'.root ↔ SameBits 12 52 r.bits r'.bits :=
  Page.ext_number_iff.trans rootField.get_eq_get_iff

/-- The register has the frame of the top-level table where an entry has its frame. -/
theorem root_eq_frame (r : Cr3) : r.root = (⟨r.bits⟩ : Entry).frame := rfl

theorem ofRoot_root (r : Cr3) : ofRoot r.root = .ok ⟨r.bits &&& 0x000ffffffffff000⟩ := by
  rw [ofRoot_eq, root_eq_frame, if_pos (Entry.base_frame_lt _), Entry.value_base_frame]

end Cr3

/-! ## There and back -/

/-- What a frame becomes, and that it is read back. -/
structure Frame.Encoded (f : Frame) : Prop where
  table : Entry.table f =
    if f.base.toNat < 2 ^ 52 then .ok ⟨f.base.value ||| 0x3⟩ else .error .frameNumberRange
  leaf : Entry.leaf f =
    if f.base.toNat < 2 ^ 52 then .ok ⟨f.base.value ||| 0x3⟩ else .error .frameNumberRange
  root : Cr3.ofRoot f =
    if f.base.toNat < 2 ^ 52 then .ok ⟨f.base.value⟩ else .error .frameNumberRange
  of_table : ∀ e, Entry.table f = .ok e → e.isTable = true ∧ e.frame = f
  of_leaf : ∀ e, Entry.leaf f = .ok e → e.isTable = true ∧ e.frame = f
  of_root : ∀ r, Cr3.ofRoot f = .ok r → r.root = f

theorem Frame.encoded (f : Frame) : f.Encoded where
  table := Entry.table_eq f
  leaf := Entry.table_eq f
  root := Cr3.ofRoot_eq f
  of_table _ h := ⟨Entry.isTable_of_table h, Entry.frame_of_table h⟩
  of_leaf _ h := ⟨Entry.isTable_of_table h, Entry.frame_of_leaf h⟩
  of_root _ h := Cr3.root_of_ofRoot h

/-- What a large page becomes, and that it is read back. -/
structure LargePageEncoded (p : Page .physical .large) : Prop where
  largeLeaf : Entry.largeLeaf p =
    if p.base.toNat < 2 ^ 52 then .ok ⟨p.base.value ||| 0x83⟩ else .error .frameNumberRange
  of_largeLeaf : ∀ e, Entry.largeLeaf p = .ok e → e.isTable = false ∧ e.largePage = p

theorem largePageEncoded (p : Page .physical .large) : LargePageEncoded p where
  largeLeaf := Entry.largeLeaf_eq p
  of_largeLeaf _ h := ⟨Entry.isTable_of_largeLeaf h, Entry.largePage_of_largeLeaf h⟩

/-- What is read from a word as an entry and as a register, next to another word, and what becomes
of it if it is built again. -/
structure WordRead (w w' : UInt64) : Prop where
  frame : (⟨w⟩ : Entry).frame = (⟨w'⟩ : Entry).frame ↔ SameBits 12 52 w w'
  largePage : (⟨w⟩ : Entry).largePage = (⟨w'⟩ : Entry).largePage ↔ SameBits 21 52 w w'
  isTable : (⟨w⟩ : Entry).isTable = (w.toNat.testBit 0 && !w.toNat.testBit 7)
  root : (⟨w⟩ : Cr3).root = (⟨w'⟩ : Cr3).root ↔ SameBits 12 52 w w'
  table : Entry.table (⟨w⟩ : Entry).frame = .ok ⟨w &&& 0x000ffffffffff000 ||| 0x3⟩
  leaf : Entry.leaf (⟨w⟩ : Entry).frame = .ok ⟨w &&& 0x000ffffffffff000 ||| 0x3⟩
  largeLeaf : Entry.largeLeaf (⟨w⟩ : Entry).largePage = .ok ⟨w &&& 0x000fffffffe00000 ||| 0x83⟩
  ofRoot : Cr3.ofRoot (⟨w⟩ : Cr3).root = .ok ⟨w &&& 0x000ffffffffff000⟩

theorem wordRead (w w' : UInt64) : WordRead w w' where
  frame := Entry.frame_eq_iff
  largePage := Entry.largePage_eq_iff
  isTable := Entry.isTable_eq_testBit ⟨w⟩
  root := Cr3.root_eq_iff
  table := Entry.table_frame ⟨w⟩
  leaf := Entry.table_frame ⟨w⟩
  largeLeaf := Entry.largeLeaf_largePage ⟨w⟩
  ofRoot := Cr3.ofRoot_root ⟨w⟩

/-- What is built for frames and large pages is read back, and what is read is built again. -/
theorem hardwareWords_roundTrip :
    (∀ f : Frame, f.Encoded) ∧ (∀ p, LargePageEncoded p) ∧ ∀ w w', WordRead w w' :=
  ⟨Frame.encoded, largePageEncoded, wordRead⟩

/-- A word with all the bits set that nothing is read from. -/
example : (⟨0xfff00000043fff83⟩ : Entry).largePage.base = ⟨0x4200000⟩ ∧
    Entry.largeLeaf (⟨0xfff00000043fff83⟩ : Entry).largePage = .ok ⟨0x4200083⟩ := by decide

end PagedMemory
