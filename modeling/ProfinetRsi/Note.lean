/-!
# `ProfinetRsi.Note`: remarks about a decoded PDU

A note points at an offset and says what is unusual there. A reserved value is
worth a `note`; a field that does not fit into the captured bytes is a `warn`.
-/

set_option autoImplicit false

namespace ProfinetRsi

/-- How serious a remark is. -/
inductive Severity where
  | note
  | warn
deriving DecidableEq, Repr

/-- The severity as it is printed. -/
def Severity.name : Severity → String
  | .note => "Note"
  | .warn => "Warn"

/-- A remark about the bytes at an offset. -/
structure Note where
  severity : Severity
  offset : Nat
  message : String
deriving DecidableEq, Repr

/-- The remark on one line. -/
def Note.line (note : Note) : String :=
  s!"{note.severity.name} at {note.offset}: {note.message}"

end ProfinetRsi
