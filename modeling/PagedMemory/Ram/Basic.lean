import PagedMemory.Address
import PagedMemory.Ram.ByteTree
/-!
# Memory

The contents of the whole address space as a program sees it: one byte per virtual address. Two
memories that read the same everywhere are equal (`Ram.ext`), so a statement that an operation
leaves memory alone is an equation. A write changes one byte, a fill a range that may wrap around
the top of the address space; `read_write` and `read_fill` say so for every address.
-/
namespace PagedMemory

/-- Trees that hold the same byte at every address of the address space. -/
instance ByteTree.sameBytes : Setoid ByteTree where
  r t u := ∀ a < 2 ^ 64, t.read 64 a = u.read 64 a
  iseqv :=
    ⟨fun _ _ _ => rfl, fun h a ha => (h a ha).symm, fun h k a ha => (h a ha).trans (k a ha)⟩

/-- Memory contents, up to the way they are stored. -/
def Ram : Type := Quotient ByteTree.sameBytes

namespace Ram

/-- Memory in which every byte is the same. -/
def uniform (b : UInt8) : Ram := Quotient.mk _ (.uniform b)

/-- The byte at an address. -/
def read (m : Ram) (a : VirtualAddress) : UInt8 :=
  Quotient.lift (fun t : ByteTree => t.read 64 a.toNat)
    (fun t u (h : ∀ b < 2 ^ 64, t.read 64 b = u.read 64 b) => h a.toNat a.toNat_lt) m

/-- Replaces the byte at an address. -/
def write (m : Ram) (a : VirtualAddress) (v : UInt8) : Ram :=
  Quotient.lift (fun t : ByteTree => Quotient.mk ByteTree.sameBytes (t.write 64 a.toNat v))
    (fun t u (h : ∀ b < 2 ^ 64, t.read 64 b = u.read 64 b) => Quotient.sound fun b hb => by
      rw [ByteTree.read_write, ByteTree.read_write, h b hb]) m

/-- Replaces the bytes whose numbers run from `start` up to `stop`. -/
def fillRange (m : Ram) (start stop : Nat) (v : UInt8) : Ram :=
  Quotient.lift (fun t : ByteTree => Quotient.mk ByteTree.sameBytes (t.fill 64 start stop v))
    (fun t u (h : ∀ b < 2 ^ 64, t.read 64 b = u.read 64 b) => Quotient.sound fun b hb => by
      rw [ByteTree.read_fill, ByteTree.read_fill, h b hb]) m

/-- Replaces the `n` bytes from an address on, around the top of the address space if need be. -/
def fill (m : Ram) (a : VirtualAddress) (n : Nat) (v : UInt8) : Ram :=
  (m.fillRange a.toNat (a.toNat + n) v).fillRange 0 (a.toNat + n - 2 ^ 64) v

@[ext] theorem ext {m m' : Ram} (h : ∀ a, m.read a = m'.read a) : m = m' := by
  induction m using Quotient.inductionOn with | _ t =>
  induction m' using Quotient.inductionOn with | _ u =>
  refine Quotient.sound fun a ha => ?_
  have := h (.ofNat a)
  change t.read 64 (Address.ofNat a : VirtualAddress).toNat =
    u.read 64 (Address.ofNat a).toNat at this
  rwa [Address.toNat_ofNat, Nat.mod_eq_of_lt ha] at this

@[simp] theorem read_uniform (b : UInt8) (a : VirtualAddress) : (uniform b).read a = b := rfl

theorem read_write (m : Ram) (a b : VirtualAddress) (v : UInt8) :
    (m.write a v).read b = if a = b then v else m.read b := by
  induction m using Quotient.inductionOn with | _ t =>
  change (t.write 64 a.toNat v).read 64 b.toNat = if a = b then v else t.read 64 b.toNat
  rw [ByteTree.read_write, Nat.mod_eq_of_lt a.toNat_lt, Nat.mod_eq_of_lt b.toNat_lt]
  simp only [Address.toNat_inj]

theorem read_fillRange (m : Ram) (start stop : Nat) (v : UInt8) (b : VirtualAddress) :
    (m.fillRange start stop v).read b =
      if start ≤ b.toNat ∧ b.toNat < stop then v else m.read b := by
  induction m using Quotient.inductionOn with | _ t =>
  change (t.fill 64 start stop v).read 64 b.toNat = if _ then v else t.read 64 b.toNat
  rw [ByteTree.read_fill, Nat.mod_eq_of_lt b.toNat_lt]

/-- A fill sets the bytes less than `n` steps above its start. -/
theorem read_fill (m : Ram) (a b : VirtualAddress) (n : Nat) (v : UInt8) :
    (m.fill a n v).read b = if a.distance b < n then v else m.read b := by
  have ha := a.toNat_lt
  have hb := b.toNat_lt
  have inside : a.distance b < n ↔
      (a.toNat ≤ b.toNat ∧ b.toNat < a.toNat + n) ∨ b.toNat < a.toNat + n - 2 ^ 64 := by
    rw [Address.distance_eq]; omega
  rw [fill, read_fillRange, read_fillRange]
  simp only [inside, Nat.zero_le, true_and]
  by_cases h : b.toNat < a.toNat + n - 2 ^ 64
  · rw [if_pos h, if_pos (.inr h)]
  · rw [if_neg h]
    simp only [h, or_false]

end Ram

end PagedMemory
