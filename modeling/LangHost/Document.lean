import LangHost.Text.Line
/-!
# Documents

A text that a client has open, with the kind that picks its language service and the version of
its current revision.
-/

namespace LangHost

/-- An open text. -/
structure Document where
  uri : String
  kind : String
  version : Int
  text : String
  deriving DecidableEq, Repr

namespace Document

/-- The document after a revision, which replaces its whole text. -/
def update (d : Document) (version : Int) (text : String) : Document :=
  { d with version, text }

/-- The lines of the text, without their breaks. -/
def lines (d : Document) : List (List Char) := Text.lines d.text.toList

/-- The number of lines; a line break at the very end opens no further line. -/
def lineCount (d : Document) : Nat := d.lines.length

end Document

end LangHost
