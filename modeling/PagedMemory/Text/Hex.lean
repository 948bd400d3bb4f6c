import PagedMemory.Power
/-!
# Hexadecimal text

Machine words are written in two forms: in lowercase without leading zeros, and in uppercase padded
to the full width of a word. Byte strings are two lowercase digits per byte. The readers take
a word behind `0x` and a byte string without a mark.
-/
namespace PagedMemory.Hex

/-- Lowercase digits, most significant first, without leading zeros. -/
def lower (n : Nat) : String := String.ofList (Nat.toDigits 16 n)

/-- Uppercase digits, most significant first, without leading zeros. -/
def upper (n : Nat) : String := String.ofList ((Nat.toDigits 16 n).map Char.toUpper)

/-- The sixteen uppercase digits of a word behind `0x`. -/
def padded (w : UInt64) : String :=
  let digits := (Nat.toDigits 16 w.toNat).map Char.toUpper
  "0x" ++ String.ofList (List.replicate (16 - digits.length) '0' ++ digits)

/-- A word in its shortest form: `0x0`, `0x1f`. -/
def word (w : UInt64) : String := "0x" ++ lower w.toNat

def digit (n : Nat) : Char := Nat.digitChar n

/-- Two digits per byte, in the order of the bytes. -/
def bytes (bs : List UInt8) : String :=
  String.ofList (bs.flatMap fun b => [digit (b.toNat / 16), digit (b.toNat % 16)])

/-- The value of a decimal digit or of a lowercase hexadecimal digit. -/
def lowerDigit? (c : Char) : Option Nat :=
  if '0' ≤ c ∧ c ≤ '9' then some (c.toNat - '0'.toNat)
  else if 'a' ≤ c ∧ c ≤ 'f' then some (c.toNat - 'a'.toNat + 10)
  else none

/-- The value of a hexadecimal digit in either case. -/
def digit? (c : Char) : Option Nat :=
  if 'A' ≤ c ∧ c ≤ 'F' then some (c.toNat - 'A'.toNat + 10) else lowerDigit? c

/-- The number that a sequence of digits spells after the digits read so far. -/
def number? : Nat → List Char → Option Nat
  | acc, [] => some acc
  | acc, c :: rest => do number? (16 * acc + (← digit? c)) rest

/-- Reads `0x` and at least one digit; a value beyond the word size is refused. -/
def word? (s : String) : Option UInt64 :=
  match s.toList with
  | '0' :: 'x' :: c :: rest => do
    let n ← number? 0 (c :: rest)
    if n < 2 ^ 64 then some (UInt64.ofNat n) else none
  | _ => none

/-- Reads pairs of lowercase digits. -/
def byteList? : List Char → Option (List UInt8)
  | [] => some []
  | [_] => none
  | high :: low :: rest => do
    let byte := 16 * (← lowerDigit? high) + (← lowerDigit? low)
    return UInt8.ofNat byte :: (← byteList? rest)

/-- Reads a byte string; an odd number of digits is refused. -/
def bytes? (s : String) : Option (List UInt8) := byteList? s.toList

end PagedMemory.Hex
