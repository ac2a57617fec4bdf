import LangHost.Feature
import LangHost.Plain.Model
import LangHost.Plain.Settings
/-!
# Checks, quick fixes and formatting

White space at the end of a line is reported, offered for removal and removed by formatting; lines
that are too long are only reported.
-/

namespace LangHost.Plain

open LangHost.Text

/-- Who reports the findings of this module. -/
def source : String := "genls-plaintext"

/-- The code of findings about white space at the end of a line. -/
def trailingCode : DiagnosticCode := .text "trailing-whitespace"

/-- The code of findings about lines that are too long. -/
def tooLongCode : DiagnosticCode := .text "line-too-long"

/-- A finding of this module. -/
def finding (range : Range) (code : DiagnosticCode) (message : String) : Diagnostic where
  range := range
  message := message
  severity := some Severity.warning.code
  code := some code
  source := some source

/-- The finding about the white space at the end of a line. -/
def trailingFinding (range : Range) : Diagnostic :=
  finding range trailingCode "Trailing whitespace"

/-- The finding about a line of more than `max` characters, which marks those beyond them. -/
def tooLong? (max : Nat) (line : List Char) (number : Nat) : Option Diagnostic :=
  if max < line.length then
    some (finding (Range.onLine number (width (line.take max)) (width line)) tooLongCode
      ("Line is " ++ toString line.length ++ " characters long (maximum is " ++
        toString max ++ ")"))
  else none

/-- The findings about one line. -/
def checkLine (s : Settings) (line : List Char) (number : Nat) : List Diagnostic :=
  (if s.trailingWhitespace then (trailingBlank? line number).toList.map trailingFinding else []) ++
    (s.maxLineLength.bind (tooLong? · line number)).toList

namespace Model

/-- The findings about a document, line by line. -/
def check (m : Model) (s : Settings) : List Diagnostic :=
  m.numbered.flatMap fun (line, n) => checkLine s line n

/-- The edits that remove the white space at the end of the lines of a range, or of all lines. -/
def format (m : Model) (range : Option Range) : List TextEdit :=
  m.numbered.filterMap fun (line, n) =>
    if range.all fun r => decide (r.start.line ≤ n ∧ n ≤ r.stop.line) then
      (trailingBlank? line n).map fun r => ⟨r, ""⟩
    else none

end Model

/-- Whether a diagnostic is this module's finding about white space at the end of a line. -/
def isTrailing (d : Diagnostic) : Bool :=
  d.code == some trailingCode && d.source == some source

/-- The quick fix for white space at the end of a line. -/
def quickFix (uri : String) (d : Diagnostic) : CodeAction where
  title := "Remove trailing whitespace"
  kind := some "quickfix"
  diagnostics := some [d]
  edit := some ⟨[(uri, [⟨d.range, ""⟩])]⟩
  isPreferred := some true

/-- The quick fixes for the given diagnostics. -/
def quickFixes (uri : String) (ds : List Diagnostic) : List CodeAction :=
  (ds.filter isTrailing).map (quickFix uri)

end LangHost.Plain
