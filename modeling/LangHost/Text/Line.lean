/-!
# Lines

A text is a sequence of lines, each with the line break that ends it. A break is a line feed with
the carriage return directly before it, if there is one; only the last line can end without a
break, and then it is not empty. A carriage return that stands anywhere else belongs to its line.
-/

namespace LangHost.Text

/-- What ends a line. -/
inductive Break where
  /-- The text ends here. -/
  | none
  /-- A line feed. -/
  | lf
  /-- A carriage return and a line feed. -/
  | crlf
  deriving DecidableEq, Repr

/-- The characters of a line break. -/
def Break.chars : Break → List Char
  | .none => []
  | .lf => ['\n']
  | .crlf => ['\r', '\n']

/-- A line and what ends it. -/
structure Line where
  body : List Char
  ending : Break
  deriving DecidableEq, Repr

/-- The characters of a line with its break. -/
def Line.chars (l : Line) : List Char := l.body ++ l.ending.chars

/-- The line with a character put before it. -/
def Line.cons (c : Char) (l : Line) : Line := { l with body := c :: l.body }

/-- A text cut into lines. -/
def split : List Char → List Line
  | [] => []
  | '\n' :: rest => ⟨[], .lf⟩ :: split rest
  | '\r' :: '\n' :: rest => ⟨[], .crlf⟩ :: split rest
  | c :: rest =>
    match split rest with
    | [] => [⟨[c], .none⟩]
    | l :: ls => l.cons c :: ls

/-- The lines of a text, without their breaks. -/
def lines (cs : List Char) : List (List Char) := (split cs).map Line.body

end LangHost.Text
