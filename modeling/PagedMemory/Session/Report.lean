import PagedMemory.Outcome
/-!
# Reports of errors

What a session tells about an error, whatever operation it came from.
-/
namespace PagedMemory

/-- An error as it is told: its name, its wording, its structural form, and the wording of its
causes, nearest first. -/
structure ErrorReport where
  name : String
  message : String
  structural : String
  causes : List String

def ErrorReport.of {ε : Type} [ErrorText ε] (e : ε) : ErrorReport :=
  ⟨ErrorText.name e, ErrorText.message e, describe e, ErrorText.causes e⟩

end PagedMemory
