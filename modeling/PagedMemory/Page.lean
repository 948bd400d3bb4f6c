import PagedMemory.Address
/-!
# Pages

A page is known by its number: the pages of one size, laid end to end, fill the address space. Its
base is therefore aligned by construction. An address splits into its page and its offset, and
`Page.join` puts the two together again.
-/
namespace PagedMemory

/-- A page of a size in a space. -/
structure Page (space : Space) (size : PageSize) where
  number : Nat
  number_lt : number < size.pages
  deriving DecidableEq

/-- A 4 KiB page of physical memory, the unit that is handed out. -/
abbrev Frame := Page .physical .small

namespace Page

variable {space : Space} {size : PageSize}

@[ext] theorem ext_number {p q : Page space size} (h : p.number = q.number) : p = q := by
  cases p; cases q; cases h; rfl

/-- The page with a number; number bits beyond the address space are dropped. -/
def ofNumber (n : Nat) : Page space size := ⟨n % size.pages, Nat.mod_lt _ size.pages_pos⟩

@[simp] theorem ofNumber_number (p : Page space size) : ofNumber p.number = p :=
  ext_number (Nat.mod_eq_of_lt p.number_lt)

def containing (a : Address space) : Page space size :=
  ⟨a.toNat / size.bytes, by
    rw [Nat.div_lt_iff_lt_mul size.bytes_pos, size.pages_mul_bytes]
    exact a.toNat_lt⟩

def base (p : Page space size) : Address space := .ofNat (p.number * size.bytes)

def join (p : Page space size) (o : Offset size) : Address space :=
  .ofNat (p.number * size.bytes + o.value)

/-- The page after this one, unless this is the last. -/
def next? (p : Page space size) : Option (Page space size) :=
  if h : p.number + 1 < size.pages then some ⟨p.number + 1, h⟩ else none

theorem end_le (p : Page space size) : p.number * size.bytes + size.bytes ≤ 2 ^ 64 := by
  have h := Nat.mul_le_mul_right size.bytes p.number_lt
  rwa [Nat.succ_mul, size.pages_mul_bytes] at h

@[simp] theorem toNat_base (p : Page space size) : p.base.toNat = p.number * size.bytes := by
  have := p.end_le
  have := size.bytes_pos
  rw [base, Address.toNat_ofNat, Nat.mod_eq_of_lt]
  omega

@[simp] theorem toNat_join (p : Page space size) (o : Offset size) :
    (p.join o).toNat = p.number * size.bytes + o.value := by
  have := p.end_le
  have := o.value_lt
  rw [join, Address.toNat_ofNat, Nat.mod_eq_of_lt]
  omega

@[simp] theorem containing_base (p : Page space size) : containing p.base = p := by
  ext
  simp [containing, Nat.mul_div_cancel _ size.bytes_pos]

/-- An address is its page joined with its offset. -/
@[simp] theorem join_containing (a : Address space) :
    (containing a : Page space size).join (a.offset size) = a := by
  apply Address.toNat_inj.mp
  simp [containing, Address.offset, Nat.div_add_mod']

instance : LT (Page space size) := ⟨fun p q => p.number < q.number⟩

instance (p q : Page space size) : Decidable (p < q) :=
  inferInstanceAs (Decidable (p.number < q.number))

/-- The pages of a list in ascending order, each once. -/
def sortedDistinct (ps : List (Page space size)) : List (Page space size) :=
  (ps.mergeSort fun p q => p.number ≤ q.number).eraseReps

instance : ToString (Page space size) := ⟨fun p => Hex.padded p.base.value ++ "/" ++ size.label⟩

instance : Describe (Page space size) :=
  ⟨fun p => Text.applied (space.pageName ++ "<" ++ size.label ++ ">") (Hex.padded p.base.value)⟩

end Page

end PagedMemory
