import PagedMemory.Text.Describe
/-!
# How an operation ends

An operation on memory returns a value, refuses with an error of its own, or stops with a fault: a
broken arithmetic check or assertion that ends the operation on the spot. In all three cases the
changes made so far stay, so operations are programs that thread their state through every ending.
-/
namespace PagedMemory

/-- A check that the memory core relies on and that did not hold. -/
inductive Fault
  /-- A sum left the range of a machine word. -/
  | addOverflow
  /-- A difference went below zero. -/
  | subOverflow
  /-- A product left the range of a machine word. -/
  | mulOverflow
  /-- A frame number too large for the forty bits that hold it. -/
  | frameNumberRange
  /-- A frame whose alias is the null address was returned to a pool. -/
  | nullFrame
  /-- A page table lies outside of the memory that can be reached. -/
  | outsideRam
  deriving DecidableEq

namespace Fault

def message : Fault → String
  | addOverflow => "attempt to add with overflow"
  | subOverflow => "attempt to subtract with overflow"
  | mulOverflow => "attempt to multiply with overflow"
  | frameNumberRange => "value out of bounds [0, 1099511627775]"
  | nullFrame => "allocated frames never alias null"
  | outsideRam => "no RAM"

end Fault

/-- The two ways in which an operation ends without a value. -/
inductive Stop (ε : Type)
  | error (e : ε)
  | fault (f : Fault)
  deriving DecidableEq

/-- A program over a state `σ` that keeps its changes however it ends. -/
abbrev Op (ε σ α : Type) := EStateM (Stop ε) σ α

/-- A program over a state `σ` that has no errors of its own but may fault. -/
abbrev Step (σ α : Type) := EStateM Fault σ α

namespace Op

variable {ε ε' σ τ α : Type}

/-- A program without errors of its own, used where errors are possible. -/
def ofStep (x : Step σ α) : Op ε σ α := x.adaptExcept Stop.fault

/-- Ends with a fault if the check gave one. -/
def ofCheck : Except Fault α → Op ε σ α
  | .ok a => pure a
  | .error f => throw (.fault f)

def fail (e : ε) : Op ε σ α := throw (.error e)

/-- Wraps the errors of an inner operation; faults pass unchanged. -/
def mapError (f : ε → ε') (x : Op ε σ α) : Op ε' σ α :=
  x.adaptExcept fun
    | .error e => .error (f e)
    | .fault g => .fault g

/-- Forgets why an operation refused; faults pass unchanged. -/
def toOption (x : Op ε σ α) : Step σ (Option α) :=
  fun s =>
    match x s with
    | .ok a t => .ok (some a) t
    | .error (.error _) t => .ok none t
    | .error (.fault f) t => .error f t

end Op

/-- Runs a program on a part of the state: `read` takes the part out, `write` puts it back. -/
def onPart {ε σ τ α : Type} (read : σ → τ) (write : τ → σ → σ) (x : EStateM ε τ α) :
    EStateM ε σ α :=
  fun s =>
    match x (read s) with
    | .ok a t => .ok a (write t s)
    | .error e t => .error e (write t s)

/-- What is told about an error: its name, its wording, its structural form, and the wording of the
errors that caused it, nearest cause first. -/
class ErrorText (ε : Type) extends Describe ε where
  name : ε → String
  message : ε → String
  causes : ε → List String

end PagedMemory
