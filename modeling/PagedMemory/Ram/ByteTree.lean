import PagedMemory.Power
/-!
# Byte trees

The bytes of an address range of `2 ^ n` addresses, as a binary tree of height at most `n`: a
subtree whose bytes are all equal is one leaf, so a filled page costs a handful of nodes however
large it is. An address is read from its most significant bit down; bits from `n` on are ignored.
Every function is structural, so closed instances evaluate in the kernel.

`read_write` and `read_fill` say what a write and a fill do to every byte; nothing else about the
shape of a tree is used anywhere.
-/
namespace PagedMemory

/-- The bytes of a range: all equal, or a lower and an upper half. -/
inductive ByteTree
  | uniform (b : UInt8)
  | split (low high : ByteTree)

namespace ByteTree

/-- The byte at an address of a tree of height `n`. -/
def read : ByteTree → Nat → Nat → UInt8
  | uniform b, _, _ => b
  | split low high, n, a => if a.testBit (n - 1) then high.read (n - 1) a else low.read (n - 1) a

/-- Replaces the byte at one address of a tree of height `n`. -/
def write : Nat → ByteTree → Nat → UInt8 → ByteTree
  | 0, _, _, v => uniform v
  | n + 1, uniform b, a, v =>
    if a.testBit n then split (uniform b) (write n (uniform b) a v)
    else split (write n (uniform b) a v) (uniform b)
  | n + 1, split low high, a, v =>
    if a.testBit n then split low (write n high a v) else split (write n low a v) high

/-- The lower half. -/
def low : ByteTree → ByteTree
  | uniform b => uniform b
  | split l _ => l

/-- The upper half. -/
def high : ByteTree → ByteTree
  | uniform b => uniform b
  | split _ h => h

/-- Replaces the bytes from `start` up to `stop`, both counted from the first address of a tree of
height `n`; a part of the range outside of the tree is ignored. -/
def fill : Nat → ByteTree → (start stop : Nat) → UInt8 → ByteTree
  | 0, t, start, stop, v => if start = 0 ∧ 0 < stop then uniform v else t
  | n + 1, t, start, stop, v =>
    if stop ≤ start ∨ 2 ^ (n + 1) ≤ start then t
    else if start = 0 ∧ 2 ^ (n + 1) ≤ stop then uniform v
    else split (fill n t.low start stop v) (fill n t.high (start - 2 ^ n) (stop - 2 ^ n) v)

theorem read_succ (t : ByteTree) (n a : Nat) :
    t.read (n + 1) a = if a.testBit n then t.high.read n a else t.low.read n a := by
  cases t <;> simp [read, low, high]

/-- The bits of an address below `n + 1` are those below `n` and bit `n`. -/
theorem mod_succ (n a : Nat) :
    a % 2 ^ (n + 1) = a % 2 ^ n + 2 ^ n * (a.testBit n).toNat := by
  rw [Nat.mod_pow_succ, Nat.testBit_eq_decide_div_mod_eq]
  rcases Nat.mod_two_eq_zero_or_one (a / 2 ^ n) with h | h <;> simp [h]

/-- Two addresses agree below bit `n + 1` when they agree at bit `n` and below. -/
theorem mod_succ_eq_iff (n a b : Nat) :
    a % 2 ^ (n + 1) = b % 2 ^ (n + 1) ↔
      a.testBit n = b.testBit n ∧ a % 2 ^ n = b % 2 ^ n := by
  have ha := Nat.mod_lt a (Nat.two_pow_pos n)
  have hb := Nat.mod_lt b (Nat.two_pow_pos n)
  rw [mod_succ, mod_succ]
  cases a.testBit n <;> cases b.testBit n <;> simp <;> omega

theorem read_write (n : Nat) (t : ByteTree) (a b : Nat) (v : UInt8) :
    (t.write n a v).read n b = if a % 2 ^ n = b % 2 ^ n then v else t.read n b := by
  induction n generalizing t with
  | zero => simp [write, read, Nat.mod_one]
  | succ n ih =>
    rw [read_succ, read_succ]
    simp only [mod_succ_eq_iff]
    cases t <;> by_cases ha : a.testBit n <;> by_cases hb : b.testBit n <;>
      simp [write, ha, hb, low, high, ih, read]

theorem read_fill (n : Nat) (t : ByteTree) (start stop b : Nat) (v : UInt8) :
    (t.fill n start stop v).read n b =
      if start ≤ b % 2 ^ n ∧ b % 2 ^ n < stop then v else t.read n b := by
  induction n generalizing t start stop with
  | zero =>
    simp only [fill, Nat.pow_zero, Nat.mod_one, Nat.le_zero]
    split <;> rfl
  | succ n ih =>
    have hb := Nat.mod_lt b (Nat.two_pow_pos (n + 1))
    rw [fill]
    split
    · rw [if_neg (by omega)]
    · split
      · rw [if_pos (by omega)]; rfl
      · have hn := Nat.mod_lt b (Nat.two_pow_pos n)
        rw [read_succ, read_succ t, mod_succ]
        cases b.testBit n
        · simpa [low] using ih t.low start stop
        · have shifted : (start - 2 ^ n ≤ b % 2 ^ n ∧ b % 2 ^ n < stop - 2 ^ n) ↔
              (start ≤ b % 2 ^ n + 2 ^ n ∧ b % 2 ^ n + 2 ^ n < stop) := by omega
          have := ih t.high (start - 2 ^ n) (stop - 2 ^ n)
          simp only [shifted] at this
          simpa [high] using this

end ByteTree

end PagedMemory
