import PagedMemory.Ram.Basic
/-!
# Words and byte strings in memory

A 64-bit word occupies eight bytes, the least significant first; a byte string one byte per
address. Addresses count on around the top of the address space.

The statements say that a word written is the word read, and that a write leaves every byte outside
of its range alone.
-/
namespace PagedMemory.Ram

/-- The number spelled by `n` bytes from an address on, least significant byte first. -/
def readNumber (m : Ram) : Nat → VirtualAddress → UInt64
  | 0, _ => 0
  | n + 1, a => (m.read a).toUInt64 + 256 * m.readNumber n (a + 1)

/-- Spells a number in `n` bytes from an address on. -/
def writeNumber : Nat → Ram → VirtualAddress → UInt64 → Ram
  | 0, m, _, _ => m
  | n + 1, m, a, w => writeNumber n (m.write a w.toUInt8) (a + 1) (w / 256)

def readWord (m : Ram) (a : VirtualAddress) : UInt64 := m.readNumber 8 a

def writeWord (m : Ram) (a : VirtualAddress) (w : UInt64) : Ram := writeNumber 8 m a w

/-- The bytes of the `n` addresses from `a` on. -/
def readBytes (m : Ram) (n : Nat) (a : VirtualAddress) : List UInt8 :=
  (List.range n).map fun i => m.read (a + i)

/-- Stores bytes one after the other from an address on. -/
def writeBytes (m : Ram) (a : VirtualAddress) : List UInt8 → Ram
  | [] => m
  | b :: bs => (m.write a b).writeBytes (a + 1) bs

/-- Copies `n` bytes; the source is read before anything is written. -/
def copy (m : Ram) (source target : VirtualAddress) (n : Nat) : Ram :=
  m.writeBytes target (m.readBytes n source)

/-- Whether the `n` bytes from an address on are all zero. -/
def isZero (m : Ram) (a : VirtualAddress) (n : Nat) : Bool := (m.readBytes n a).all (· == 0)

@[simp] theorem length_readBytes (m : Ram) (n : Nat) (a : VirtualAddress) :
    (m.readBytes n a).length = n := by
  simp [readBytes]

/-- A number of `n` bytes written changes only the `n` bytes from its address on. -/
theorem read_writeNumber_of_le (n : Nat) (m : Ram) (a b : VirtualAddress) (w : UInt64)
    (h : n ≤ a.distance b) : (writeNumber n m a w).read b = m.read b := by
  induction n generalizing m a w with
  | zero => rfl
  | succ n ih =>
    have hne : a ≠ b := by rintro rfl; simp at h
    have := a.distance_succ b hne
    rw [writeNumber, ih _ _ _ (by omega), read_write, if_neg hne]

/-- Memories that agree on the bytes of a number hold the same number. -/
theorem readNumber_congr {m m' : Ram} (n : Nat) (a : VirtualAddress) (hn : n ≤ 2 ^ 64)
    (h : ∀ b : VirtualAddress, a.distance b < n → m.read b = m'.read b) :
    m.readNumber n a = m'.readNumber n a := by
  induction n generalizing a with
  | zero => rfl
  | succ n ih =>
    rw [readNumber, readNumber, h a (by simp), ih (a + 1) (by omega)]
    intro b hb
    apply h
    by_cases hab : a = b
    · subst hab; simp
    · have := a.distance_succ b hab
      omega

theorem readNumber_lt (m : Ram) (n : Nat) (a : VirtualAddress) (hn : n ≤ 8) :
    (m.readNumber n a).toNat < 256 ^ n := by
  induction n generalizing a with
  | zero => simp [readNumber]
  | succ n ih =>
    have hi := ih (a + 1) (by omega)
    have hb := (m.read a).toNat_lt
    have hp : 256 ^ n * 256 ≤ 256 ^ 8 := by
      rw [← Nat.pow_succ]; exact Nat.pow_le_pow_right (by decide) hn
    simp only [readNumber, UInt64.toNat_add, UInt64.toNat_mul, UInt8.toNat_toUInt64,
      Nat.pow_succ, UInt64.reduceToNat]
    omega

/-- The value of a number in memory in terms of its bytes. -/
theorem toNat_readNumber_succ (m : Ram) (n : Nat) (a : VirtualAddress) (hn : n < 8) :
    (m.readNumber (n + 1) a).toNat = (m.read a).toNat + 256 * (m.readNumber n (a + 1)).toNat := by
  have hi := m.readNumber_lt n (a + 1) (by omega)
  have hb := (m.read a).toNat_lt
  have hp : 256 ^ n * 256 ≤ 256 ^ 8 := by
    rw [← Nat.pow_succ]; exact Nat.pow_le_pow_right (by decide) hn
  simp only [readNumber, UInt64.toNat_add, UInt64.toNat_mul, UInt8.toNat_toUInt64,
    UInt64.reduceToNat]
  omega

theorem toNat_readNumber_writeNumber (n : Nat) (m : Ram) (a : VirtualAddress) (w : UInt64)
    (hn : n ≤ 8) : ((writeNumber n m a w).readNumber n a).toNat = w.toNat % 256 ^ n := by
  induction n generalizing m a w with
  | zero => simp [readNumber, Nat.mod_one]
  | succ n ih =>
    have behind : (a + 1).distance a = 2 ^ 64 - 1 := by
      have ha := a.toNat_lt
      have h1 := a.toNat_add 1
      rw [Address.distance_eq]; omega
    rw [toNat_readNumber_succ _ _ _ (by omega), writeNumber,
      read_writeNumber_of_le _ _ _ _ _ (by omega), read_write, if_pos rfl,
      ih _ _ _ (by omega), UInt64.toNat_toUInt8, UInt64.toNat_div,
      show 256 ^ (n + 1) = 256 * 256 ^ n from Nat.pow_succ', Nat.mod_mul]
    rfl

/-- The word written is the word read. -/
@[simp] theorem readWord_writeWord (m : Ram) (a : VirtualAddress) (w : UInt64) :
    (m.writeWord a w).readWord a = w := by
  apply UInt64.toNat_inj.mp
  rw [readWord, writeWord, toNat_readNumber_writeNumber _ _ _ _ (by decide)]
  exact Nat.mod_eq_of_lt w.toNat_lt

/-- Storing a word leaves the bytes beyond its eight alone. -/
theorem read_writeWord_of_le (m : Ram) (a b : VirtualAddress) (w : UInt64)
    (h : 8 ≤ a.distance b) : (m.writeWord a w).read b = m.read b :=
  read_writeNumber_of_le 8 m a b w h

/-- Memories that agree on the eight bytes of a word hold the same word. -/
theorem readWord_congr {m n : Ram} (a : VirtualAddress)
    (h : ∀ b : VirtualAddress, a.distance b < 8 → m.read b = n.read b) :
    m.readWord a = n.readWord a :=
  readNumber_congr 8 a (by decide) h

/-- A word whose eight bytes are all zero is zero. -/
theorem readWord_eq_zero {m : Ram} (a : VirtualAddress)
    (h : ∀ b : VirtualAddress, a.distance b < 8 → m.read b = 0) : m.readWord a = 0 := by
  rw [readWord_congr (n := Ram.uniform 0) a fun b hb => (h b hb).trans (read_uniform 0 b).symm]
  simp [readWord, readNumber]

end PagedMemory.Ram
