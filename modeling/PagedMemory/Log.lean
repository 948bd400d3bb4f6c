/-!
# The log

Operations tell what they do at five levels of severity. A log keeps the lines at its threshold or
more severe; with no threshold it keeps none. The text of a line is made only if it is kept.
-/
namespace PagedMemory

/-- How severe a line is, most severe first. -/
inductive LogLevel
  | error
  | warn
  | info
  | debug
  | trace
  deriving DecidableEq

namespace LogLevel

/-- The place of a level in the order of severity. -/
def rank : LogLevel → Nat
  | error => 0
  | warn => 1
  | info => 2
  | debug => 3
  | trace => 4

/-- The name in front of a line. -/
def label : LogLevel → String
  | error => "ERROR"
  | warn => "WARN"
  | info => "INFO"
  | debug => "DEBUG"
  | trace => "TRACE"

end LogLevel

/-- The lines kept so far, newest first. -/
structure Log where
  threshold : Option LogLevel
  lines : List (LogLevel × String)

namespace Log

def empty (threshold : Option LogLevel) : Log := ⟨threshold, []⟩

def keeps (log : Log) (level : LogLevel) : Bool :=
  match log.threshold with
  | none => false
  | some limit => level.rank ≤ limit.rank

def add (log : Log) (level : LogLevel) (text : Unit → String) : Log :=
  if log.keeps level then { log with lines := (level, text ()) :: log.lines } else log

/-- The lines in the order in which they were added. -/
def written (log : Log) : List String :=
  log.lines.reverse.map fun (level, text) => level.label ++ " " ++ text

/-- The same log with its lines taken out. -/
def cleared (log : Log) : Log := { log with lines := [] }

end Log

end PagedMemory
