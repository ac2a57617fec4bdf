import LangHost.Feature
import LangHost.Plain.Model
/-!
# Completion, highlights and headings

What is offered at a position: words of the document that continue the word before the cursor, the
occurrences of the word under it, and the headings of the document.
-/

namespace LangHost.Plain

open LangHost.Text

/-- The least number of characters of a word that is proposed. -/
def leastProposal : Nat := 3

/-- The texts with one more, in strictly ascending order of code points. -/
def insertText (t : List Char) : List (List Char) → List (List Char)
  | [] => [t]
  | u :: us => if t < u then t :: u :: us else if t = u then u :: us else u :: insertText t us

/-- The number of the kind of a completion, and of a highlight, that is mere text. -/
def textKind : Int := 1

/-- The number of the kind of a symbol that is a text. -/
def stringSymbol : Int := 15

namespace Model

/-- The part before the cursor of the word that the cursor is on. -/
def typedAt (m : Model) (p : Position) : List Char :=
  match m.wordAt? p with
  | none => []
  | some w => prefixBefore ((m.line? p.line).getD []) w.range.start.character p.character

/-- The words other than the one at the position that continue what is typed there. -/
def proposals (m : Model) (p : Position) : List (List Char) :=
  let current := (m.wordAt? p).map (·.range)
  let typed := m.typedAt p
  ((m.words.filter fun w => some w.range != current).map (·.text)).filter fun t =>
    decide (leastProposal ≤ t.length) && typed.isPrefixOf t && t != typed

/-- The completions at a position, each once, in order of code points. -/
def complete (m : Model) (p : Position) : CompletionList where
  isIncomplete := false
  items := ((m.proposals p).foldr insertText []).map fun t =>
    { label := String.ofList t, kind := some textKind }

/-- Every occurrence of the word at a position. -/
def highlights (m : Model) (p : Position) : List Highlight :=
  match m.wordAt? p with
  | none => []
  | some target =>
    (m.words.filter fun w => w.text == target.text).map fun w =>
      { range := w.range, kind := some textKind }

end Model

/-- The title of a heading: a line that starts with number signs, without them and without the
white space around. A heading without a title is none. -/
def heading? : List Char → Option (List Char)
  | '#' :: rest =>
    let title := trim (rest.dropWhile (· == '#'))
    if title.isEmpty then none else some title
  | _ => none

/-- The headings of a document. -/
def Model.symbols (m : Model) : List Symbol :=
  m.numbered.filterMap fun (line, n) =>
    (heading? line).map fun title =>
      let range := Range.onLine n 0 (width line)
      { name := String.ofList title, kind := stringSymbol, range, selectionRange := range }

end LangHost.Plain
