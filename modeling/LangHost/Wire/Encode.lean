import LangHost.Feature
/-!
# Features on the wire

The structured values in which positions, diagnostics, edits and the other features are sent.
Optional parts are left out when they are missing.
-/

namespace LangHost

namespace Wire

/-- An object of the given parts, without those that are missing. -/
def record (parts : List (String × Option Json)) : Json :=
  Json.ofFields (parts.filterMap fun (name, v) => v.map (name, ·))

/-- An array of encoded items. -/
def array (encode : α → Json) (items : List α) : Json := .arr (items.map encode)

end Wire

open Wire

def Position.toJson (p : Position) : Json :=
  record [("line", some (.nat p.line)), ("character", some (.nat p.character))]

def Range.toJson (r : Range) : Json :=
  record [("start", some r.start.toJson), ("end", some r.stop.toJson)]

def Location.toJson (l : Location) : Json :=
  record [("uri", some (.str l.uri)), ("range", some l.range.toJson)]

def DiagnosticCode.toJson : DiagnosticCode → Json
  | .number n => .int n
  | .text s => .str s

def RelatedInformation.toJson (r : RelatedInformation) : Json :=
  record [("location", some r.location.toJson), ("message", some (.str r.message))]

def Diagnostic.toJson (d : Diagnostic) : Json :=
  record [
    ("range", some d.range.toJson),
    ("severity", d.severity.map .int),
    ("code", d.code.map (·.toJson)),
    ("codeDescription", d.codeDescription.map fun href => record [("href", some (.str href))]),
    ("source", d.source.map .str),
    ("message", some (.str d.message)),
    ("relatedInformation", d.relatedInformation.map (array (·.toJson))),
    ("tags", d.tags.map (array .int)),
    ("data", d.data)]

def TextEdit.toJson (e : TextEdit) : Json :=
  record [("range", some e.range.toJson), ("newText", some (.str e.newText))]

def WorkspaceEdit.toJson (e : WorkspaceEdit) : Json :=
  record [("changes", some (Json.ofFields (e.changes.map fun (uri, edits) =>
    (uri, array (·.toJson) edits))))]

def CompletionItem.toJson (i : CompletionItem) : Json :=
  record [("label", some (.str i.label)), ("kind", i.kind.map .int)]

def CompletionList.toJson (l : CompletionList) : Json :=
  record [("isIncomplete", some (.bool l.isIncomplete)), ("items", some (array (·.toJson) l.items))]

def Hover.toJson (h : Hover) : Json :=
  record [("contents", some (record [("kind", some (.str "plaintext")), ("value", some (.str h.value))]))]

def Highlight.toJson (h : Highlight) : Json :=
  record [("range", some h.range.toJson), ("kind", h.kind.map .int)]

def Symbol.toJson (s : Symbol) : Json :=
  record [
    ("name", some (.str s.name)),
    ("kind", some (.int s.kind)),
    ("range", some s.range.toJson),
    ("selectionRange", some s.selectionRange.toJson)]

def CodeAction.toJson (a : CodeAction) : Json :=
  record [
    ("title", some (.str a.title)),
    ("kind", a.kind.map .str),
    ("diagnostics", a.diagnostics.map (array (·.toJson))),
    ("edit", a.edit.map (·.toJson)),
    ("isPreferred", a.isPreferred.map .bool)]

end LangHost
