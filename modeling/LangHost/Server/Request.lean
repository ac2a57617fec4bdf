import LangHost.Server.Basic
import LangHost.Wire.RpcError
/-!
# Requests

What a client asks about a document, and what it is answered. The service of the document answers
from the document and its model.
-/

namespace LangHost

/-- What can be asked about a document. -/
inductive Query where
  | completion (position : Position)
  | hover (position : Position)
  | definition (position : Position)
  | references (position : Position)
  | highlights (position : Position)
  | symbols
  | codeActions (range : Range) (diagnostics : List Diagnostic)
  | rename (position : Position) (newName : String)
  | format (range : Option Range) (options : FormattingOptions)

/-- A question about a document. -/
structure Request where
  uri : String
  query : Query

/-- An answer that is not empty. -/
inductive Answer where
  | completion (list : CompletionList)
  | hover (hover : Hover)
  | location (location : Location)
  | locations (locations : List Location)
  | highlights (highlights : List Highlight)
  | symbols (symbols : List Symbol)
  | codeActions (actions : List CodeAction)
  | workspaceEdit (edit : WorkspaceEdit)
  | edits (edits : List TextEdit)

/-- The answer to where something is defined: nothing, one place, or several. -/
def Answer.ofDefinitions : List Location → Option Answer
  | [] => none
  | [l] => some (.location l)
  | ls => some (.locations ls)

/-- What a service answers, with its settings, about a document with the given model. -/
def Query.ask (q : Query) (service : Service σ μ) (d : Document) (model : μ) : Option Answer :=
  match q with
  | .completion p => (service.complete service.settings d p model).map .completion
  | .hover p => (service.hover service.settings d p model).map .hover
  | .definition p => Answer.ofDefinitions (service.definition service.settings d p model)
  | .references p => some (.locations (service.references service.settings d p model))
  | .highlights p => some (.highlights (service.highlights service.settings d p model))
  | .symbols => some (.symbols (service.symbols service.settings d model))
  | .codeActions range ds => some (.codeActions (service.codeActions service.settings d range ds model))
  | .rename p newName => (service.rename service.settings d p newName model).map .workspaceEdit
  | .format range options => some (.edits (service.format service.settings d range options model))

/-- Answers a request. There is nothing to say about a document that is not open. -/
def Server.answer (s : Server σ μ) (r : Request) : Server σ μ × Except RpcError (Option Answer) :=
  match s.document? r.uri with
  | none => (s, .ok none)
  | some d =>
    match s.getModel d with
    | (s', .error f) => (s', .error f.toRpcError)
    | (s', .ok (service, model)) => (s', .ok (r.query.ask service d model.value))

end LangHost
