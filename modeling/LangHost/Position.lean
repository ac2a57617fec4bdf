/-!
# Positions

Places in a text: a line and a column, both counted from zero. Columns count UTF-16 code units.
-/

namespace LangHost

/-- A place in a text. -/
structure Position where
  line : Nat
  character : Nat
  deriving DecidableEq, Repr

/-- A stretch of text, from its start up to but not including its stop. -/
structure Range where
  start : Position
  stop : Position
  deriving DecidableEq, Repr

/-- The empty range at the start of a text. -/
def Range.origin : Range := ⟨⟨0, 0⟩, ⟨0, 0⟩⟩

/-- A range inside one line. -/
def Range.onLine (line first last : Nat) : Range := ⟨⟨line, first⟩, ⟨line, last⟩⟩

end LangHost
