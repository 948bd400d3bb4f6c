/-!
# Structural text

Every domain type has a structural form, the one that a developer reads in a dump: records with
their fields, constructors with their arguments, lists in brackets. The display form, where a type
has one, is its `ToString` instance.
-/
namespace PagedMemory

/-- Types with a structural form. -/
class Describe (α : Type) where
  /-- The structural form of a value. -/
  describe : α → String

export Describe (describe)

instance : Describe Nat := ⟨Nat.repr⟩

instance : Describe UInt64 := ⟨fun w => w.toNat.repr⟩

instance : Describe Bool := ⟨fun b => if b then "true" else "false"⟩

namespace Text

def commaSeparated (items : List String) : String := ", ".intercalate items

/-- A record on one line: its name, then each field with its value in braces. -/
def record (name : String) (fields : List (String × String)) : String :=
  name ++ " \x7b " ++ commaSeparated (fields.map fun (field, value) => field ++ ": " ++ value) ++
    " \x7d"

/-- A constructor applied to one argument. -/
def applied (name argument : String) : String := name ++ "(" ++ argument ++ ")"

end Text

instance {α : Type} [Describe α] : Describe (List α) :=
  ⟨fun xs => "[" ++ Text.commaSeparated (xs.map describe) ++ "]"⟩

end PagedMemory
