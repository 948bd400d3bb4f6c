/-!
# Write-once cells

A cell that is filled at most once. Filling takes three atomic steps: claim the cell, write the
slot, and publish it. Whoever claims the cell first fills it; every other caller gets its value
back. A reader sees nothing before the value is published.
-/
namespace PagedMemory

/-- How far a cell has been filled. -/
inductive OnceState
  | empty
  | filling
  | ready
  deriving DecidableEq

/-- A cell for one value. -/
structure OnceCell (α : Type) where
  state : OnceState
  slot : Option α

namespace OnceCell

variable {α : Type}

/-- An empty cell. -/
def new : OnceCell α := ⟨.empty, none⟩

/-- Claims the cell for filling; tells whether it was free to be claimed. -/
def claim (cell : OnceCell α) : Bool × OnceCell α :=
  if cell.state = .empty then (true, { cell with state := .filling }) else (false, cell)

def write (cell : OnceCell α) (value : α) : OnceCell α := { cell with slot := some value }

/-- Lets readers see the slot. -/
def publish (cell : OnceCell α) : OnceCell α := { cell with state := .ready }

/-- The value, once it is published. -/
def get? (cell : OnceCell α) : Option α :=
  if cell.state = .ready then cell.slot else none

/-- The value that goes away with the cell. -/
def dropped (cell : OnceCell α) : Option α := cell.get?

end OnceCell

end PagedMemory
