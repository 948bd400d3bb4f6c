import PagedMemory.Sync.OnceCell
/-!
# Callers that race for a cell

Any number of callers set one cell, each in single atomic steps: claim, write, publish. A caller
that does not get the cell drops its value. Others read the cell meanwhile: they look at its state,
and if it is published they read the slot. A schedule says who takes the next step.
-/
namespace PagedMemory

/-- A call that sets a cell, and how far it has come. -/
inductive SetCall (α : Type)
  | started (value : α)
  | claimed (value : α)
  | written (value : α)
  /-- The value is in the cell. -/
  | stored
  /-- The value was handed back. -/
  | rejected (value : α)

namespace SetCall

variable {α : Type}

/-- One atomic step of a call. -/
def step (cell : OnceCell α) : SetCall α → OnceCell α × SetCall α
  | started v =>
    match cell.claim with
    | (true, cell) => (cell, claimed v)
    | (false, cell) => (cell, rejected v)
  | claimed v => (cell.write v, written v)
  | written _ => (cell.publish, stored)
  | stored => (cell, stored)
  | rejected v => (cell, rejected v)

def hasStored : SetCall α → Bool
  | stored => true
  | _ => false

def isRejected : SetCall α → Bool
  | rejected _ => true
  | _ => false

end SetCall

/-- A cell and the calls that set it. -/
structure Race (α : Type) where
  cell : OnceCell α
  calls : List (SetCall α)

namespace Race

variable {α : Type}

/-- Calls that have not begun yet. -/
def start (cell : OnceCell α) (values : List α) : Race α := ⟨cell, values.map .started⟩

def step (r : Race α) (i : Nat) : Race α :=
  match r.calls[i]? with
  | none => r
  | some call =>
    let (cell, call) := call.step r.cell
    ⟨cell, r.calls.set i call⟩

def run (r : Race α) (schedule : List Nat) : Race α := schedule.foldl step r

/-- Every one of `n` calls takes its steps, all of them abreast. -/
def abreast (n : Nat) : List Nat := (List.replicate 3 (List.range n)).flatten

def winners (r : Race α) : Nat := r.calls.countP SetCall.hasStored

def losers (r : Race α) : Nat := r.calls.countP SetCall.isRejected

end Race

namespace OnceCell

variable {α : Type}

/-- Sets the cell with nobody else about; gives the value back if the cell was claimed before. -/
def set (cell : OnceCell α) (value : α) : Except α Unit × OnceCell α :=
  match cell.claim with
  | (true, cell) => (.ok (), (cell.write value).publish)
  | (false, cell) => (.error value, cell)

/-- Setting a cell is the three steps of a call taken in a row. -/
theorem set_eq_run (cell : OnceCell α) (value : α) :
    ((Race.start cell [value]).run [0, 0, 0]).cell = (cell.set value).2 := by
  obtain ⟨state, slot⟩ := cell
  cases state <;> rfl

end OnceCell

/-- A call that reads a cell, and how far it has come. -/
inductive GetCall (α : Type)
  | started
  /-- The cell was published; its slot is read next. -/
  | seen
  | absent
  /-- What was in the slot: nothing, if nobody had written it. -/
  | found (content : Option α)

/-- One atomic step of a call that reads. -/
def GetCall.step {α : Type} (cell : OnceCell α) : GetCall α → GetCall α
  | started => if cell.state = .ready then seen else absent
  | seen => found cell.slot
  | absent => absent
  | found content => found content

/-- What is asked of a cell. -/
inductive CellRequest (α : Type)
  | set (value : α)
  | get

/-- The value that comes with a request. -/
def CellRequest.value? {α : Type} : CellRequest α → Option α
  | set v => some v
  | get => none

/-- A call of either kind. -/
inductive CellCall (α : Type)
  | set (call : SetCall α)
  | get (call : GetCall α)

/-- A step that goes to the slot of a cell, and what it writes or reads there. -/
inductive SlotAccess (α : Type)
  | write (value : α)
  | read (content : Option α)

namespace CellCall

variable {α : Type}

def start : CellRequest α → CellCall α
  | .set v => set (.started v)
  | .get => get .started

def step (cell : OnceCell α) : CellCall α → OnceCell α × CellCall α
  | set call =>
    let (cell, call) := call.step cell
    (cell, set call)
  | get call => (cell, get (call.step cell))

/-- How the next step of a call goes to the slot, if it does. -/
def access? (cell : OnceCell α) : CellCall α → Option (SlotAccess α)
  | set (.claimed v) => some (.write v)
  | get .seen => some (.read cell.slot)
  | _ => none

/-- How many steps a call may still need. -/
def stepsLeft : CellCall α → Nat
  | set (.started _) => 3
  | set (.claimed _) => 2
  | set (.written _) => 1
  | set .stored | set (.rejected _) => 0
  | get .started => 2
  | get .seen => 1
  | get .absent | get (.found _) => 0

def isOver (c : CellCall α) : Prop := c.stepsLeft = 0

/-- A call that has begun and is not over. -/
def inProgress : CellCall α → Prop
  | set (.claimed _) | set (.written _) | get .seen => True
  | _ => False

/-- A call that claimed the cell. -/
def hasClaimed : CellCall α → Prop
  | set (.claimed _) | set (.written _) | set .stored => True
  | _ => False

/-- A call that returned the value of the cell to its caller. -/
def hasValue : CellCall α → Prop
  | set .stored | get (.found _) => True
  | _ => False

/-- The value that is with the caller: it was not passed on yet, or it was handed back. -/
def kept : CellCall α → Option α
  | set (.started v) | set (.rejected v) => some v
  | _ => none

end CellCall

/-- A cell and the calls that set and read it. -/
structure CellUse (α : Type) where
  cell : OnceCell α
  calls : List (CellCall α)

namespace CellUse

variable {α : Type}

/-- A new cell, and calls that have not begun yet. -/
def start (requests : List (CellRequest α)) : CellUse α := ⟨.new, requests.map .start⟩

def step (u : CellUse α) (i : Nat) : CellUse α :=
  match u.calls[i]? with
  | none => u
  | some call =>
    let (cell, call) := call.step u.cell
    ⟨cell, u.calls.set i call⟩

def run (u : CellUse α) (schedule : List Nat) : CellUse α := schedule.foldl step u

/-- How the next step of a call goes to the slot, if it does. -/
def access? (u : CellUse α) (i : Nat) : Option (SlotAccess α) :=
  u.calls[i]?.bind (CellCall.access? u.cell)

/-- How the steps of a schedule go to the slot, in order. -/
def accesses (u : CellUse α) : List Nat → List (SlotAccess α)
  | [] => []
  | i :: rest => (u.access? i).toList ++ (u.step i).accesses rest

end CellUse

/-- Callers that only set a cell race as they do beside callers that read it. -/
theorem Race.run_eq_cellUse {α : Type} (r : Race α) (schedule : List Nat) :
    CellUse.run ⟨r.cell, r.calls.map .set⟩ schedule =
      ⟨(r.run schedule).cell, (r.run schedule).calls.map .set⟩ := by
  induction schedule generalizing r with
  | nil => rfl
  | cons i rest ih =>
    have hstep : CellUse.step ⟨r.cell, r.calls.map .set⟩ i =
        ⟨(r.step i).cell, (r.step i).calls.map .set⟩ := by
      rw [CellUse.step, Race.step, List.getElem?_map]
      cases r.calls[i]? with
      | none => rfl
      | some call => simp only [Option.map_some, CellCall.step, List.map_set]
    rw [CellUse.run, List.foldl_cons, hstep]
    exact ih (r.step i)

/-- Reading a cell is the steps of a call taken in a row. -/
theorem OnceCell.get?_eq_run {α : Type} {cell : OnceCell α}
    (h : cell.state = .ready → cell.slot.isSome) :
    (CellUse.run ⟨cell, [.get .started]⟩ [0, 0]).calls =
      [.get (if cell.get?.isSome then .found cell.get? else .absent)] := by
  obtain ⟨state, slot⟩ := cell
  cases state <;> simp_all [CellUse.run, CellUse.step, CellCall.step, GetCall.step, OnceCell.get?]

end PagedMemory
