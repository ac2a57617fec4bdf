import LangHost.Wire.Schema.Basic
/-!
# Schemas of items

Items that a server hands out and a client may bring back, to have them filled in or to ask more
about them.
-/

namespace LangHost.Wire.Schemas

open Schema (u32 i32)
open RecordField (must may)

def documentLink : Schema :=
  .record "DocumentLink"
    [must "range" range, may "target" .uri, may "tooltip" .text, may "data" .any]

def codeLens : Schema :=
  .record "CodeLens" [must "range" range, may "command" command, may "data" .any]

def codeAction : Schema :=
  .record "CodeAction"
    [must "title" .text,
    may "kind" .text,
    may "diagnostics" (.list diagnostic),
    may "edit" workspaceEdit,
    may "command" command,
    may "isPreferred" .bool,
    may "disabled" (.record "CodeActionDisabled" [must "reason" .text]),
    may "data" .any]

def inlayHint : Schema :=
  .record "InlayHint"
    [must "position" position,
    must "label" (.variant "InlayHintLabel"
      [.text,
        .list (.record "InlayHintLabelPart"
          [must "value" .text,
          may "tooltip" (documentation "InlayHintLabelPartTooltip"),
          may "location" location,
          may "command" command])]),
    may "kind" i32,
    may "textEdits" (.list textEdit),
    may "tooltip" (documentation "InlayHintTooltip"),
    may "paddingLeft" .bool,
    may "paddingRight" .bool,
    may "data" .any]

def completionItem : Schema :=
  .record "CompletionItem"
    [must "label" .text,
    may "labelDetails"
      (.record "CompletionItemLabelDetails" [may "detail" .text, may "description" .text]),
    may "kind" i32,
    may "detail" .text,
    may "documentation" (documentation "Documentation"),
    may "deprecated" .bool,
    may "preselect" .bool,
    may "sortText" .text,
    may "filterText" .text,
    may "insertText" .text,
    may "insertTextFormat" i32,
    may "insertTextMode" i32,
    may "textEdit" (.variant "CompletionTextEdit"
      [textEdit,
        .record "InsertReplaceEdit"
          [must "newText" .text, must "insert" range, must "replace" range]]),
    may "additionalTextEdits" (.list textEdit),
    may "command" command,
    may "commitCharacters" (.list .text),
    may "data" .any,
    may "tags" (.list i32)]

/-- An item of a hierarchy, with the given schema of its tags. -/
def hierarchyItem (type : String) (tags : Schema) : Schema :=
  .record type
    [must "name" .text,
    must "kind" i32,
    may "tags" tags,
    may "detail" .text,
    must "uri" .uri,
    must "range" range,
    must "selectionRange" range,
    may "data" .any]

def callHierarchyItem : Schema := hierarchyItem "CallHierarchyItem" (.list i32)

def typeHierarchyItem : Schema := hierarchyItem "TypeHierarchyItem" i32

def workspaceSymbol : Schema :=
  .record "WorkspaceSymbol"
    [must "name" .text,
    must "kind" i32,
    may "tags" (.list i32),
    may "containerName" .text,
    must "location"
      (.variant "OneOf" [location, .record "WorkspaceLocation" [must "uri" .uri]]),
    may "data" .any]

def signatureHelp : Schema :=
  .record "SignatureHelp"
    [must "signatures" (.list (.record "SignatureInformation"
      [must "label" .text,
      may "documentation" (documentation "Documentation"),
      may "parameters" (.list (.record "ParameterInformation"
        [must "label" (.variant "ParameterLabel" [.text, .tuple 2 u32]),
        may "documentation" (documentation "Documentation")])),
      may "activeParameter" u32])),
    may "activeSignature" u32,
    may "activeParameter" u32]

end LangHost.Wire.Schemas
