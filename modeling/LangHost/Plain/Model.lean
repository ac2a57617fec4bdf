import LangHost.Document
import LangHost.Position
import LangHost.Text.Blank
import LangHost.Plain.Fault
import LangHost.Plain.Word
/-!
# The model of a plain text

A plain text is its lines. A text with a NUL character is no plain text.
-/

namespace LangHost.Plain

open LangHost.Text

/-- A parsed plain text: its lines, without their breaks. -/
structure Model where
  lines : List (List Char)
  deriving DecidableEq, Repr

namespace Model

/-- Parses a text, or names the first line with a NUL character. -/
def parse (d : Document) : Except Fault Model :=
  match d.lines.findIdx? (·.contains '\x00') with
  | some line => .error (.binaryContent line)
  | none => .ok ⟨d.lines⟩

/-- The line of the given number. -/
def line? (m : Model) (n : Nat) : Option (List Char) := m.lines[n]?

/-- The lines with their numbers. -/
def numbered (m : Model) : List (List Char × Nat) := m.lines.zipIdx

theorem pairwise_numbered (m : Model) : m.numbered.Pairwise fun x y => x.2 < y.2 := by
  rw [← List.pairwise_map, numbered, List.zipIdx_map_snd]
  exact List.pairwise_lt_range'

end Model

/-- The range of the white space at the end of a line, if there is any. -/
def trailingBlank? (line : List Char) (number : Nat) : Option Range :=
  let kept := trimEnd line
  if kept.length = line.length then none
  else some (Range.onLine number (width kept) (width line))

/-- A word with its place in the document. -/
structure Occurrence where
  text : List Char
  range : Range
  deriving DecidableEq, Repr

/-- The place of a word of the given line. -/
def Word.onLine (w : Word) (number : Nat) : Occurrence :=
  ⟨w.text, Range.onLine number w.start w.stop⟩

namespace Model

/-- The range of the white space at the end of the line of the given number. -/
def trailing? (m : Model) (n : Nat) : Option Range :=
  (m.line? n).bind (trailingBlank? · n)

/-- Every word of the document, in order. -/
def words (m : Model) : List Occurrence :=
  m.numbered.flatMap fun (line, n) => (wordsOf line).map (·.onLine n)

/-- The word that the position is on or directly after. -/
def wordAt? (m : Model) (p : Position) : Option Occurrence := do
  let line ← m.line? p.line
  let w ← (wordsOf line).find? (·.touches p.character)
  some (w.onLine p.line)

end Model

end LangHost.Plain
