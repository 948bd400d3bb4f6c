import PagedMemory.Constants
import PagedMemory.Address
/-!
# Contiguous runs

Frames taken from a pool one by one are joined as long as each lies directly after or directly
before what was joined so far.
-/
namespace PagedMemory

/-- A contiguous range of memory. -/
structure Run where
  start : VirtualAddress
  length : Nat
  deriving DecidableEq

namespace Run

def ofFrame (page : VirtualAddress) : Run := ⟨page, frameSize⟩

/-- The run joined with a frame, if the frame lies directly after or before it. -/
def extend? (run : Run) (page : VirtualAddress) : Option Run :=
  if run.start + run.length = page then some ⟨run.start, run.length + frameSize⟩
  else if page + frameSize = run.start then some ⟨page, run.length + frameSize⟩
  else none

end Run

end PagedMemory
