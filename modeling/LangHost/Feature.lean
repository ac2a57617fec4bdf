import LangHost.Position
import LangHost.Json.Basic
/-!
# Language features

What language services hand to the client: diagnostics, completions, hovers, locations,
highlights, symbols, code actions and edits.
-/

namespace LangHost

/-- How serious a diagnostic is, or a logged message. -/
inductive Severity where
  | error
  | warning
  | info
  deriving DecidableEq, Repr

/-- The number a severity goes by. -/
def Severity.code : Severity → Int
  | .error => 1
  | .warning => 2
  | .info => 3

/-- The code of a diagnostic. -/
inductive DiagnosticCode where
  | number (n : Int)
  | text (s : String)
  deriving DecidableEq, Repr

/-- A place in some document. -/
structure Location where
  uri : String
  range : Range
  deriving DecidableEq, Repr

/-- A remark on another place that belongs to a diagnostic. -/
structure RelatedInformation where
  location : Location
  message : String
  deriving DecidableEq, Repr

/-- A finding in a document. -/
structure Diagnostic where
  range : Range
  message : String
  severity : Option Int := none
  code : Option DiagnosticCode := none
  codeDescription : Option String := none
  source : Option String := none
  relatedInformation : Option (List RelatedInformation) := none
  tags : Option (List Int) := none
  data : Option Json := none

/-- A replacement of a stretch of text. -/
structure TextEdit where
  range : Range
  newText : String
  deriving DecidableEq, Repr

/-- Edits by document. -/
structure WorkspaceEdit where
  changes : List (String × List TextEdit)
  deriving DecidableEq, Repr

/-- A proposal for what to type; its kind is a number. -/
structure CompletionItem where
  label : String
  kind : Option Int := none
  deriving DecidableEq, Repr

/-- Proposals for what to type. -/
structure CompletionList where
  isIncomplete : Bool
  items : List CompletionItem
  deriving DecidableEq, Repr

/-- A plain text shown beside the cursor. -/
structure Hover where
  value : String
  deriving DecidableEq, Repr

/-- An occurrence of what is under the cursor; its kind is a number. -/
structure Highlight where
  range : Range
  kind : Option Int := none
  deriving DecidableEq, Repr

/-- A named part of a document; its kind is a number. -/
structure Symbol where
  name : String
  kind : Int
  range : Range
  selectionRange : Range
  deriving DecidableEq, Repr

/-- A change offered to the user. -/
structure CodeAction where
  title : String
  kind : Option String := none
  diagnostics : Option (List Diagnostic) := none
  edit : Option WorkspaceEdit := none
  isPreferred : Option Bool := none

end LangHost
