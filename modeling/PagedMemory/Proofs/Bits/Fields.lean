import Mathlib
import PagedMemory.Paging.BitField
/-!
# Bit fields bit by bit

A field reads the bits of its range and no other: the same number is in a field of two words just if
the words agree on that range. A word masked with the bits of a field keeps the number of the field
in its place.
-/
namespace PagedMemory

/-- Two words have the same bits from `low` up to, but not including, `high`. -/
def SameBits (low high : Nat) (v w : UInt64) : Prop :=
  ∀ i, low ≤ i → i < high → v.toNat.testBit i = w.toNat.testBit i

/-- Adjacent ranges of bits make up one range. -/
theorem sameBits_append {low mid high : Nat} {v w : UInt64} (hlow : low ≤ mid)
    (hhigh : mid ≤ high) :
    SameBits low high v w ↔ SameBits low mid v w ∧ SameBits mid high v w := by
  constructor
  · intro h
    exact ⟨fun i hl hm => h i hl (hm.trans_le hhigh), fun i hm hh => h i (hlow.trans hm) hh⟩
  · rintro ⟨hlower, hupper⟩ i hl hh
    rcases Nat.lt_or_ge i mid with hm | hm
    · exact hlower i hl hm
    · exact hupper i hm hh

namespace BitField

variable (f : BitField)

theorem testBit_get (w : UInt64) (i : Nat) :
    (f.get w).testBit i = (decide (i < f.width) && w.toNat.testBit (f.shift + i)) := by
  rw [get, Nat.testBit_mod_two_pow, Nat.testBit_div_two_pow, Nat.add_comm]

theorem get_eq_get_iff {v w : UInt64} :
    f.get v = f.get w ↔ SameBits f.shift (f.shift + f.width) v w := by
  constructor
  · intro h i hlow hhigh
    have hbit := congrArg (Nat.testBit · (i - f.shift)) h
    have hwidth : i - f.shift < f.width := by omega
    simpa only [testBit_get, hwidth, decide_true, Bool.true_and,
      Nat.add_sub_cancel' hlow] using hbit
  · intro h
    refine Nat.eq_of_testBit_eq fun i => ?_
    rw [testBit_get, testBit_get]
    by_cases hwidth : i < f.width
    · rw [h _ (Nat.le_add_right _ _) (Nat.add_lt_add_left hwidth _)]
    · rw [decide_eq_false hwidth, Bool.false_and, Bool.false_and]

/-- The word with the bits of a field set and no others. -/
def mask : UInt64 := UInt64.ofNat (2 ^ f.shift * (2 ^ f.width - 1))

theorem toNat_mask : f.mask.toNat = 2 ^ f.shift * (2 ^ f.width - 1) := by
  have hpos := Nat.two_pow_pos f.width
  have hlt : 2 ^ f.shift * (2 ^ f.width - 1) < 2 ^ (f.shift + f.width) := by
    rw [Nat.pow_add]
    exact Nat.mul_lt_mul_of_pos_left (by omega) (Nat.two_pow_pos _)
  rw [mask, UInt64.toNat_ofNat', Nat.mod_eq_of_lt]
  exact hlt.trans_le (Nat.pow_le_pow_right (by decide) f.fits)

theorem toNat_and_mask (w : UInt64) : (w &&& f.mask).toNat = 2 ^ f.shift * f.get w := by
  refine Nat.eq_of_testBit_eq fun i => ?_
  rw [UInt64.toNat_and, Nat.testBit_and, toNat_mask, Nat.testBit_two_pow_mul,
    Nat.testBit_two_pow_sub_one, Nat.testBit_two_pow_mul, testBit_get]
  by_cases hlow : f.shift ≤ i
  · rw [Nat.add_sub_cancel' hlow, Bool.and_left_comm, Bool.and_comm (w.toNat.testBit i)]
  · simp [hlow]

end BitField

end PagedMemory
