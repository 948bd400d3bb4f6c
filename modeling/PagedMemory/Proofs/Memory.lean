import Mathlib
import PagedMemory.Constants
import PagedMemory.DirectMap
import PagedMemory.Ram.Word
/-!
# What a change of memory leaves alone

`OnlyChanges p m n` says that `n` differs from `m` at most at the addresses that meet `p`. Every
write of the memory core gets such a bound, and what lies outside of the bound is read as before.

Each address lies in the alias of exactly one frame, `frameAt`. An offset of the direct map that is
not a multiple of the frame size makes no difference to that: distances are counted around the top
of the address space.
-/
namespace PagedMemory

namespace Address

variable {space : Space}

theorem isNull_eq_false_iff (a : Address space) : a.isNull = false ↔ a ≠ null := by
  rw [ne_eq, ← isNull_iff, Bool.not_eq_true]

/-- An address `n` steps further on is `n` steps nearer to what lies beyond both. -/
theorem distance_of_add {a b : Address space} {n : Nat}
    (h : (a + n).distance b + n < 2 ^ 64) : a.distance b = (a + n).distance b + n := by
  have hs := a.toNat_add n
  have hd := a.distance_eq b
  have hd' := (a + n).distance_eq b
  have ha := a.toNat_lt
  have hb := b.toNat_lt
  omega

/-- So many steps further on is as far as the steps go. -/
theorem distance_add (a : Address space) {n : Nat} (hn : n < 2 ^ 64) : a.distance (a + n) = n := by
  have ha := a.toNat_lt
  rw [distance_eq, toNat_add]
  omega

/-- The steps from one address to another lead there. -/
theorem add_distance (a b : Address space) : a + a.distance b = b := by
  have ha := a.toNat_lt
  have hb := b.toNat_lt
  have hd := a.distance_eq b
  have hs := a.toNat_add (a.distance b)
  apply toNat_inj.mp
  omega

end Address

namespace Ram

/-- Memory differs from what it was at most at the addresses of a set. -/
def OnlyChanges (p : VirtualAddress → Prop) (m n : Ram) : Prop :=
  ∀ a, ¬ p a → n.read a = m.read a

namespace OnlyChanges

variable {p q : VirtualAddress → Prop} {m n k : Ram}

theorem refl (p : VirtualAddress → Prop) (m : Ram) : OnlyChanges p m m := fun _ _ => rfl

theorem trans (h : OnlyChanges p m n) (h' : OnlyChanges p n k) : OnlyChanges p m k :=
  fun a ha => (h' a ha).trans (h a ha)

theorem mono (h : OnlyChanges p m n) (hpq : ∀ a, p a → q a) : OnlyChanges q m n :=
  fun a ha => h a fun hp => ha (hpq a hp)

/-- A word is as it was if none of its bytes is among those that changed. -/
theorem readWord_eq (h : OnlyChanges p m n) {a : VirtualAddress}
    (ha : ∀ b : VirtualAddress, a.distance b < 8 → ¬ p b) : n.readWord a = m.readWord a :=
  readWord_congr a fun b hb => h b (ha b hb)

end OnlyChanges

theorem onlyChanges_write (m : Ram) (a : VirtualAddress) (v : UInt8) :
    OnlyChanges (· = a) m (m.write a v) := by
  intro b hb
  rw [read_write, if_neg (fun h => hb h.symm)]

theorem onlyChanges_writeWord (m : Ram) (a : VirtualAddress) (w : UInt64) :
    OnlyChanges (fun b => a.distance b < 8) m (m.writeWord a w) :=
  fun b hb => read_writeWord_of_le m a b w (Nat.not_lt.mp hb)

theorem onlyChanges_fill (m : Ram) (a : VirtualAddress) (n : Nat) (v : UInt8) :
    OnlyChanges (fun b => a.distance b < n) m (m.fill a n v) := by
  intro b hb
  rw [read_fill, if_neg hb]

theorem onlyChanges_writeBytes (m : Ram) (a : VirtualAddress) (bs : List UInt8)
    (hn : bs.length ≤ 2 ^ 64) :
    OnlyChanges (fun b => a.distance b < bs.length) m (m.writeBytes a bs) := by
  induction bs generalizing m a with
  | nil => exact OnlyChanges.refl _ _
  | cons v bs ih =>
    intro b hb
    simp only [List.length_cons] at hb hn
    have hab : a ≠ b := by
      rintro rfl
      simp at hb
    have hd := a.distance_succ b hab
    rw [writeBytes, ih (m.write a v) (a + 1) (by omega) b (by omega), read_write, if_neg hab]

theorem onlyChanges_copy (m : Ram) (source target : VirtualAddress) {n : Nat} (hn : n ≤ 2 ^ 64) :
    OnlyChanges (fun b => target.distance b < n) m (m.copy source target n) := by
  have h := onlyChanges_writeBytes m target (m.readBytes n source) (by simpa using hn)
  rwa [length_readBytes] at h

/-- Bytes that were stored one after the other are read back. -/
theorem read_writeBytes_add (m : Ram) (a : VirtualAddress) (bs : List UInt8)
    (hn : bs.length ≤ 2 ^ 64) {i : Nat} (hi : i < bs.length) :
    (m.writeBytes a bs).read (a + i) = bs[i] := by
  induction bs generalizing m a i with
  | nil => cases hi
  | cons v bs ih =>
    rw [List.length_cons] at hn hi
    cases i with
    | zero =>
      -- the bytes behind the first one do not reach around to it
      have hbehind : ¬ (a + 1).distance a < bs.length := by
        have hd := (a + 1).distance_eq a
        have hs := a.toNat_add 1
        have ha := a.toNat_lt
        omega
      have hrest := onlyChanges_writeBytes (m.write a v) (a + 1) bs (by omega) a hbehind
      have hzero : a + 0 = a := Address.toNat_inj.mp (by
        rw [Address.toNat_add, Nat.add_zero, Nat.mod_eq_of_lt a.toNat_lt])
      rw [hzero, writeBytes, hrest, read_write, if_pos rfl]
      rfl
    | succ i =>
      have hstep : a + (i + 1) = a + 1 + i := Address.toNat_inj.mp (by
        simp only [Address.toNat_add]
        omega)
      rw [hstep, writeBytes, ih _ _ (by omega) (by omega)]
      rfl

/-- The target of a copy has the bytes that the source had. -/
theorem read_copy_add (m : Ram) (source target : VirtualAddress) {n i : Nat} (hn : n ≤ 2 ^ 64)
    (hi : i < n) : (m.copy source target n).read (target + i) = m.read (source + i) := by
  have hlen := m.length_readBytes n source
  rw [copy, read_writeBytes_add m target _ (by omega) (by omega)]
  simp [readBytes]

end Ram

namespace DirectMap

variable (map : DirectMap)

/-- The frame in whose alias an address lies. -/
def frameAt (a : VirtualAddress) : Frame := .containing (map.toPhysical a)

@[simp] theorem frameAt_alias (f : Frame) : map.frameAt (map.aliasOf f) = f := by
  simp [frameAt, DirectMap.aliasOf]

/-- Steps are the same on both sides of the direct map. -/
theorem distance_alias (f : Frame) (a : VirtualAddress) :
    (map.aliasOf f).distance a = f.base.distance (map.toPhysical a) := by
  have hp : (map.toPhysical a).toNat = (2 ^ 64 - map.offset.toNat + a.toNat) % 2 ^ 64 :=
    UInt64.toNat_sub _ _
  have hv : (map.aliasOf f).toNat = (f.base.toNat + map.offset.toNat) % 2 ^ 64 :=
    UInt64.toNat_add _ _
  have ho := map.offset.toNat_lt
  have hb := f.base.toNat_lt
  have ha := a.toNat_lt
  rw [Address.distance_eq, Address.distance_eq]
  omega

/-- The bytes of the alias of a frame are those at most a frame away from its start. -/
theorem frameAt_eq_iff (f : Frame) (a : VirtualAddress) :
    map.frameAt a = f ↔ (map.aliasOf f).distance a < frameSize := by
  have hp := (map.toPhysical a).toNat_lt
  have hf := f.end_le
  have hb := f.toNat_base
  have hd := f.base.distance_eq (map.toPhysical a)
  have hs : PageSize.small.bytes = 4096 := rfl
  rw [distance_alias, frameAt, Page.ext_number_iff, Page.containing, frameSize]
  simp only [hs] at hf hb ⊢
  omega

theorem frameAt_alias_add (f : Frame) {k : Nat} (hk : k < frameSize) :
    map.frameAt (map.aliasOf f + k) = f := by
  have hs : frameSize = 4096 := rfl
  rwa [frameAt_eq_iff, Address.distance_add _ (by omega)]

end DirectMap

namespace Ram

/-- A word inside of a frame lies in that frame. -/
theorem frameAt_of_distance_word {map : DirectMap} {f : Frame} {k : Nat} {a : VirtualAddress}
    (hk : k + 8 ≤ frameSize) (h : (map.aliasOf f + k).distance a < 8) : map.frameAt a = f := by
  have hs : frameSize = 4096 := rfl
  have hd := Address.distance_of_add (a := map.aliasOf f) (b := a) (n := k) (by omega)
  rw [DirectMap.frameAt_eq_iff]
  omega

/-- A word at the start of a frame lies in that frame. -/
theorem frameAt_of_distance_alias {map : DirectMap} {f : Frame} {a : VirtualAddress}
    (h : (map.aliasOf f).distance a < 8) : map.frameAt a = f := by
  rw [DirectMap.frameAt_eq_iff]
  exact Nat.lt_trans h (by decide)

end Ram

end PagedMemory
