import PagedMemory.Sync.Race
/-!
# A session on a write-once cell

One user fills, reads and replaces a cell of texts, and counts the texts that have gone away: those
that the cell did not take, and those that went with a cell.
-/
namespace PagedMemory

/-- What the user of a cell asks for. -/
inductive OnceRequest
  | get
  | set (value : String)
  /-- Several callers set the same value at once. -/
  | race (callers : Nat) (value : String)
  /-- Drops the cell and makes a new one. -/
  | reset

inductive OnceReply
  | refused
  | value (v : Option String)
  | rejected (v : String)
  | winners (n : Nat)
  | done

/-- A cell and the number of values dropped so far. -/
structure OnceSession where
  cell : OnceCell String
  drops : Nat

namespace OnceSession

def start : OnceSession := ⟨.new, 0⟩

def step (s : OnceSession) : OnceRequest → OnceReply × OnceSession
  | .get => (.value s.cell.get?, s)
  | .set v =>
    match s.cell.set v with
    | (.ok (), cell) => (.value cell.get?, { s with cell })
    | (.error v, cell) => (.rejected v, ⟨cell, s.drops + 1⟩)
  | .race callers v =>
    if callers ≤ 8 then
      let finished := (Race.start s.cell (List.replicate callers v)).run (Race.abreast callers)
      (.winners finished.winners, ⟨finished.cell, s.drops + finished.losers⟩)
    else (.refused, s)
  | .reset => (.done, ⟨.new, s.drops + s.cell.dropped.toList.length⟩)

end OnceSession

end PagedMemory
