import LangHost.Document
import LangHost.Fault
import LangHost.Feature
/-!
# Language services

A language service knows what to do with documents of some kinds. It parses a document into a
model `μ`, and every feature works on that model. What the client can tune of it are its settings
`σ`, and every feature can depend on them. Parsing depends on the document alone, so a model can be
kept for as long as the document stays as it is.
-/

namespace LangHost

/-- One validation of a document: how long it takes, in milliseconds, and the findings it ends
with, or none if it crashes. -/
structure Pass where
  duration : Nat := 0
  findings : Option (List Diagnostic)

/-- How the client likes its text formatted. -/
structure FormattingOptions where
  tabSize : Nat
  deriving DecidableEq, Repr

/-- A language service. Every feature is given the current settings, the document and its model. One that
the service does not have gives nothing. -/
structure Service (σ μ : Type) where
  id : String
  displayName : String
  /-- The kinds of documents that it handles. -/
  kinds : List String
  settings : σ
  /-- The settings after the client sent new ones, from what it sent and the current settings. -/
  configure : Json → σ → σ := fun _ s => s
  parse : Document → Except Fault μ
  /-- A validation, which is given its number too among all those of the host. -/
  validate : σ → Document → μ → Nat → Pass
  complete : σ → Document → Position → μ → Option CompletionList := fun _ _ _ _ => none
  hover : σ → Document → Position → μ → Option Hover := fun _ _ _ _ => none
  definition : σ → Document → Position → μ → List Location := fun _ _ _ _ => []
  references : σ → Document → Position → μ → List Location := fun _ _ _ _ => []
  highlights : σ → Document → Position → μ → List Highlight := fun _ _ _ _ => []
  symbols : σ → Document → μ → List Symbol := fun _ _ _ => []
  codeActions : σ → Document → Range → List Diagnostic → μ → List CodeAction := fun _ _ _ _ _ => []
  rename : σ → Document → Position → String → μ → Option WorkspaceEdit := fun _ _ _ _ _ => none
  format : σ → Document → Option Range → FormattingOptions → μ → List TextEdit := fun _ _ _ _ _ => []

/-- The service after the client sent new settings. -/
def Service.configured (s : Service σ μ) (settings : Json) : Service σ μ :=
  { s with settings := s.configure settings s.settings }

end LangHost
