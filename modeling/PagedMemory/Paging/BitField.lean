import PagedMemory.Power
/-!
# Bit fields

A field of a machine word: `width` bits from bit `shift` on. `get_set` and `get_set_of_disjoint` are
all that is needed to reason about words made of fields: a field reads back what was written to it,
and writing one field leaves every other alone.
-/
namespace PagedMemory

/-- A range of bits of a 64-bit word. -/
structure BitField where
  shift : Nat
  width : Nat
  fits : shift + width ≤ 64 := by decide

namespace BitField

/-- Bits 12 to 51, which hold the number of a frame, are bits of a word. -/
theorem frame_fits : 12 + 40 ≤ 64 := by decide

def get (f : BitField) (w : UInt64) : Nat := w.toNat / 2 ^ f.shift % 2 ^ f.width

/-- The word with another number in the field; bits beyond the width are dropped. -/
def set (f : BitField) (w : UInt64) (v : Nat) : UInt64 :=
  UInt64.ofNat (w.toNat % 2 ^ f.shift + 2 ^ f.shift * (v % 2 ^ f.width) +
    2 ^ (f.shift + f.width) * (w.toNat / 2 ^ (f.shift + f.width)))

/-- Whether a number can be written to the field without loss. -/
def holds (f : BitField) (v : Nat) : Bool := v < 2 ^ f.width

theorem get_lt (f : BitField) (w : UInt64) : f.get w < 2 ^ f.width :=
  Nat.mod_lt _ (Nat.two_pow_pos _)

theorem toNat_set (f : BitField) (w : UInt64) (v : Nat) :
    (f.set w v).toNat = w.toNat % 2 ^ f.shift + 2 ^ f.shift * (v % 2 ^ f.width) +
      2 ^ (f.shift + f.width) * (w.toNat / 2 ^ (f.shift + f.width)) := by
  have top : w.toNat / 2 ^ (f.shift + f.width) < 2 ^ (64 - (f.shift + f.width)) := by
    apply Nat.div_lt_of_lt_mul
    rw [← Nat.pow_add, Nat.add_sub_cancel' f.fits]
    exact w.toNat_lt
  have low := Nat.mod_lt w.toNat (Nat.two_pow_pos f.shift)
  have mid := Nat.mod_lt v (Nat.two_pow_pos f.width)
  have lower : w.toNat % 2 ^ f.shift + 2 ^ f.shift * (v % 2 ^ f.width) <
      2 ^ (f.shift + f.width) := by
    have := Nat.mul_le_mul_left (2 ^ f.shift) (Nat.succ_le_of_lt mid)
    rw [Nat.mul_succ, ← Nat.pow_add] at this
    omega
  have whole : 2 ^ (f.shift + f.width) * 2 ^ (64 - (f.shift + f.width)) = 2 ^ 64 := by
    rw [← Nat.pow_add, Nat.add_sub_cancel' f.fits]
  have upper := Nat.mul_le_mul_left (2 ^ (f.shift + f.width)) (Nat.succ_le_of_lt top)
  rw [Nat.mul_succ, whole] at upper
  rw [set, UInt64.toNat_ofNat', Nat.mod_eq_of_lt]
  omega

/-- A word in terms of what is below, in and above a field. -/
theorem eq_parts (f : BitField) (w : UInt64) :
    w.toNat = w.toNat % 2 ^ f.shift + 2 ^ f.shift * f.get w +
      2 ^ (f.shift + f.width) * (w.toNat / 2 ^ (f.shift + f.width)) := by
  rw [get, Nat.pow_add, ← Nat.div_div_eq_div_mul, Nat.mul_assoc, Nat.add_assoc, ← Nat.mul_add,
    Nat.mod_add_div, Nat.mod_add_div]

@[simp] theorem get_set (f : BitField) (w : UInt64) (v : Nat) :
    f.get (f.set w v) = v % 2 ^ f.width := by
  have low := Nat.mod_lt w.toNat (Nat.two_pow_pos f.shift)
  rw [get, toNat_set, Nat.pow_add, Nat.mul_assoc, Nat.add_assoc, ← Nat.mul_add,
    Nat.add_mul_div_left _ _ (Nat.two_pow_pos _), Nat.div_eq_of_lt low, Nat.zero_add,
    Nat.add_mul_mod_self_left, Nat.mod_mod]

/-- Words that agree outside of a field and in it are equal. -/
theorem set_get (f : BitField) (w : UInt64) : f.set w (f.get w) = w := by
  apply UInt64.toNat_inj.mp
  rw [toNat_set, Nat.mod_eq_of_lt (f.get_lt w)]
  exact (f.eq_parts w).symm

/-- Writing a field leaves the fields below and above it alone. -/
theorem get_set_of_disjoint (f g : BitField) (w : UInt64) (v : Nat)
    (h : f.shift + f.width ≤ g.shift ∨ g.shift + g.width ≤ f.shift) :
    g.get (f.set w v) = g.get w := by
  have low := Nat.mod_lt w.toNat (Nat.two_pow_pos f.shift)
  have mid := Nat.mod_lt v (Nat.two_pow_pos f.width)
  have lower : w.toNat % 2 ^ f.shift + 2 ^ f.shift * (v % 2 ^ f.width) <
      2 ^ (f.shift + f.width) := by
    have := Nat.mul_le_mul_left (2 ^ f.shift) (Nat.succ_le_of_lt mid)
    rw [Nat.mul_succ, ← Nat.pow_add] at this
    omega
  rw [get, get, toNat_set]
  rcases h with h | h
  · obtain ⟨d, hd⟩ := Nat.exists_eq_add_of_le h
    rw [hd, Nat.pow_add 2 (f.shift + f.width) d, ← Nat.div_div_eq_div_mul, ← Nat.div_div_eq_div_mul,
      Nat.add_mul_div_left _ _ (Nat.two_pow_pos _), Nat.div_eq_of_lt lower, Nat.zero_add]
  · obtain ⟨d, hd⟩ := Nat.exists_eq_add_of_le h
    have split (x : Nat) :
        x / 2 ^ g.shift % 2 ^ g.width = x % 2 ^ f.shift / 2 ^ g.shift % 2 ^ g.width := by
      rw [hd, Nat.pow_add, Nat.pow_add, Nat.mul_assoc, Nat.mod_mul_right_div_self,
        Nat.mod_mul_right_mod]
    rw [split, split w.toNat]
    congr 2
    rw [Nat.pow_add 2 f.shift f.width, Nat.mul_assoc, Nat.add_assoc, ← Nat.mul_add,
      Nat.add_mul_mod_self_left, Nat.mod_mod]

end BitField

end PagedMemory
