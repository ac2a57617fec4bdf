import LangHost.Text.Column
import LangHost.Text.WordChar
/-!
# Words of a line

A word is a run of word characters that cannot be made longer. Its place in the line is a span of
columns. A line is read once, from its first character to its last, and the reading keeps the offset and
the column of where it is.
-/

namespace LangHost.Plain

open LangHost.Text

/-- A word of a line with its first column and the column after it. -/
structure Word where
  text : List Char
  start : Nat
  stop : Nat
  deriving DecidableEq, Repr

/-- A place in a line: the number of characters before it, and its column. -/
structure Mark where
  offset : Nat := 0
  column : Nat := 0
  deriving DecidableEq, Repr

/-- The place behind a character. -/
def Mark.behind (here : Mark) (c : Char) : Mark := ⟨here.offset + 1, here.column + units c⟩

/-- The part of a line between two offsets. -/
def slice (line : List Char) (start stop : Nat) : List Char := (line.take stop).drop start

/-- The word of a line between two places. -/
def Word.between (line : List Char) (start stop : Mark) : Word :=
  ⟨slice line start.offset stop.offset, start.column, stop.column⟩

/-- The words of a line that end at a place or behind it, where the rest of the line follows. A word
that goes on there has its start, and it ends at the next other character or with the line. -/
def wordsFrom (line : List Char) (start : Option Mark) (here : Mark) : List Char → List Word
  | [] => (start.map (Word.between line · here)).toList
  | c :: rest =>
    if isWordChar c then wordsFrom line (start.or (some here)) (here.behind c) rest
    else (start.map (Word.between line · here)).toList ++ wordsFrom line none (here.behind c) rest

/-- The words of a line. -/
def wordsOf (line : List Char) : List Word := wordsFrom line none {} line

/-- Whether a column is on a word or directly after it. -/
def Word.touches (w : Word) (column : Nat) : Bool :=
  decide (w.start ≤ column) && decide (column ≤ w.stop)

/-- Looks for the columns `first` and `cursor` in the rest of a line, in one reading that ends at the cursor.
Gives the offset of the first, if a character starts there, and the place where the reading ended: that of
the cursor, or the end of the line if no character starts at the cursor. -/
def offsets (first cursor : Nat) (start : Option Nat) (here : Mark) : List Char → Option Nat × Nat
  | [] => (start, here.offset)
  | c :: rest =>
    let start := if here.column = first then some here.offset else start
    if here.column = cursor then (start, here.offset)
    else offsets first cursor start (here.behind c) rest

/-- The part of a line from the start of a word up to the cursor. -/
def prefixBefore (line : List Char) (first cursor : Nat) : List Char :=
  match offsets first cursor none {} line with
  | (none, _) => []
  | (some start, stop) => slice line start stop

end LangHost.Plain
