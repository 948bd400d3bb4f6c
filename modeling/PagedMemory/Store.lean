import PagedMemory.Log
import PagedMemory.Outcome
import PagedMemory.Page
import PagedMemory.Ram.Basic
/-!
# Physical storage

What the operations on physical memory share: the contents of memory, the frames that may still be
handed out, and the log. How the free frames are kept is a parameter: a plain list of frames or a
pool that threads them through memory itself. A type that can hand out frames is a `FrameSource`.
-/
namespace PagedMemory

/-- Memory, the frames to be handed out, and the log. -/
structure Store (F : Type) where
  ram : Ram
  frames : F
  log : Log

namespace Store

variable {ε F : Type}

def updateRam (f : Ram → Ram) : EStateM ε (Store F) Unit :=
  modify fun s => { s with ram := f s.ram }

def logLine (level : LogLevel) (text : Unit → String) : EStateM ε (Store F) Unit :=
  modify fun s => { s with log := s.log.add level text }

end Store

/-- A supply of frames for tables. -/
class FrameSource (F : Type) where
  /-- Hands out a frame that nobody else holds, or nothing if none is left. -/
  take : Step (Store F) (Option Frame)

/-- A list of frames hands out its members in order and touches no memory. -/
instance : FrameSource (List Frame) where
  take := do
    let s ← get
    match s.frames with
    | [] => return none
    | f :: rest =>
      set { s with frames := rest }
      return some f

end PagedMemory
