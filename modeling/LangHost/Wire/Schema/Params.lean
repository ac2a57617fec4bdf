import LangHost.Wire.Schema.Capabilities
import LangHost.Wire.Schema.Item
/-!
# Schemas of parameters

The parameters of each method. Those of most calls have a position in a document and the fields
for progress spread out among them.
-/

namespace LangHost.Wire.Schemas

open Schema (u32 i32)
open RecordField (must may spare)

/-! ## The start of a session -/

def initializeParams : Schema :=
  .spread "InitializeParams"
    [may "processId" u32,
    may "rootPath" .text,
    may "rootUri" .uri,
    may "initializationOptions" .any,
    must "capabilities" clientCapabilities,
    may "trace" (.word ["off", "messages", "verbose"]),
    may "workspaceFolders"
      (.list (.record "WorkspaceFolder" [must "uri" .uri, must "name" .text])),
    may "clientInfo" (.record "ClientInfo" [must "name" .text, may "version" .text]),
    may "locale" .text]
    [workDone]

def initializedParams : Schema := .record "InitializedParams" []

/-! ## Notifications -/

def didOpenParams : Schema :=
  .record "DidOpenTextDocumentParams" [must "textDocument" document]

def didChangeParams : Schema :=
  .record "DidChangeTextDocumentParams"
    [must "textDocument" versionedDocumentId,
    must "contentChanges" (.list (.record "TextDocumentContentChangeEvent"
      [may "range" range, may "rangeLength" u32, must "text" .text]))]

def didCloseParams : Schema :=
  .record "DidCloseTextDocumentParams" [must "textDocument" documentId]

def didChangeConfigurationParams : Schema :=
  .record "DidChangeConfigurationParams" [must "settings" .any]

/-! ## Calls about a position -/

/-- A position in a document, fields of its own, and perhaps a field for progress. -/
def positionCall (type : String) (own : List RecordField) : Schema :=
  .spread type own [documentPositionFields, workDone]

/-- A call about a position the results of which can be sent as they come. -/
def positionQuery (type : String) (own : List RecordField) : Schema :=
  .spread type own [documentPositionFields, workDone, partialResult]

def hoverParams : Schema := positionCall "HoverParams" []

def definitionParams : Schema := positionQuery "GotoDefinitionParams" []

def highlightParams : Schema := positionQuery "DocumentHighlightParams" []

def monikerParams : Schema := positionQuery "MonikerParams" []

def linkedEditingRangeParams : Schema := positionCall "LinkedEditingRangeParams" []

def callHierarchyPrepareParams : Schema := positionCall "CallHierarchyPrepareParams" []

def typeHierarchyPrepareParams : Schema := positionCall "TypeHierarchyPrepareParams" []

def completionParams : Schema :=
  positionQuery "CompletionParams"
    [may "context" (.record "CompletionContext"
      [must "triggerKind" i32, may "triggerCharacter" .text])]

def referenceParams : Schema :=
  positionQuery "ReferenceParams"
    [must "context" (.record "ReferenceContext" [must "includeDeclaration" .bool])]

def renameParams : Schema := positionCall "RenameParams" [must "newName" .text]

def signatureHelpParams : Schema :=
  positionCall "SignatureHelpParams"
    [may "context" (.record "SignatureHelpContext"
      [must "triggerKind" i32, may "triggerCharacter" .text, must "isRetrigger" .bool,
        may "activeSignatureHelp" signatureHelp])]

def onTypeFormattingParams : Schema :=
  .spread "DocumentOnTypeFormattingParams"
    [must "ch" .text, must "options" formattingOptions] [documentPositionFields]

/-! ## Calls about a document -/

/-- A document, further fields of its own, and perhaps a field for progress. -/
def documentCall (type : String) (own : List RecordField) : Schema :=
  .spread type (must "textDocument" documentId :: own) [workDone]

/-- A call about a document the results of which can be sent as they come. -/
def documentQuery (type : String) (own : List RecordField) : Schema :=
  .spread type (must "textDocument" documentId :: own) [workDone, partialResult]

def documentSymbolParams : Schema := documentQuery "DocumentSymbolParams" []

def documentLinkParams : Schema := documentQuery "DocumentLinkParams" []

def codeLensParams : Schema := documentQuery "CodeLensParams" []

def foldingRangeParams : Schema := documentQuery "FoldingRangeParams" []

def documentColorParams : Schema := documentQuery "DocumentColorParams" []

def selectionRangeParams : Schema :=
  documentQuery "SelectionRangeParams" [must "positions" (.list position)]

def codeActionParams : Schema :=
  documentQuery "CodeActionParams"
    [must "range" range,
    must "context" (.record "CodeActionContext"
      [must "diagnostics" (.list diagnostic), may "only" (.list .text), may "triggerKind" i32])]

def colorPresentationParams : Schema :=
  documentQuery "ColorPresentationParams"
    [must "color" (.record "Color"
      (["red", "green", "blue", "alpha"].map fun name => must name (.number "f32"))),
    must "range" range]

def formattingParams : Schema :=
  documentCall "DocumentFormattingParams" [must "options" formattingOptions]

def rangeFormattingParams : Schema :=
  documentCall "DocumentRangeFormattingParams"
    [must "range" range, must "options" formattingOptions]

def semanticTokensParams : Schema := documentQuery "SemanticTokensParams" []

def semanticTokensDeltaParams : Schema :=
  documentQuery "SemanticTokensDeltaParams" [must "previousResultId" .text]

def semanticTokensRangeParams : Schema :=
  documentQuery "SemanticTokensRangeParams" [must "range" range]

def inlineValueParams : Schema :=
  documentCall "InlineValueParams"
    [must "range" range,
    must "context" (.record "InlineValueContext"
      [must "frameId" i32, must "stoppedLocation" range])]

def inlayHintParams : Schema := documentCall "InlayHintParams" [must "range" range]

def documentDiagnosticParams : Schema :=
  documentQuery "DocumentDiagnosticParams"
    [may "identifier" .text, may "previousResultId" .text]

def willSaveParams : Schema :=
  .record "WillSaveTextDocumentParams" [must "textDocument" documentId, must "reason" i32]

/-! ## Calls about items -/

/-- A call about an item of a hierarchy. -/
def hierarchyQuery (type : String) (item : Schema) : Schema :=
  .spread type [must "item" item] [workDone, partialResult]

def incomingCallsParams : Schema :=
  hierarchyQuery "CallHierarchyIncomingCallsParams" callHierarchyItem

def outgoingCallsParams : Schema :=
  hierarchyQuery "CallHierarchyOutgoingCallsParams" callHierarchyItem

def supertypesParams : Schema := hierarchyQuery "TypeHierarchySupertypesParams" typeHierarchyItem

def subtypesParams : Schema := hierarchyQuery "TypeHierarchySubtypesParams" typeHierarchyItem

/-! ## Calls about the workspace -/

def workspaceSymbolParams : Schema :=
  .spread "WorkspaceSymbolParams" [must "query" .text] [partialResult, workDone]

def workspaceDiagnosticParams : Schema :=
  .spread "WorkspaceDiagnosticParams"
    [may "identifier" .text,
    must "previousResultIds"
      (.list (.record "PreviousResultId" [must "uri" .uri, must "value" .text]))]
    [workDone, partialResult]

/-- Files that are about to be created, renamed or deleted. -/
def filesParams (type file : String) (names : List String) : Schema :=
  .record type [must "files" (.list (.record file (names.map fun name => must name .text)))]

def createFilesParams : Schema := filesParams "CreateFilesParams" "FileCreate" ["uri"]

def renameFilesParams : Schema := filesParams "RenameFilesParams" "FileRename" ["oldUri", "newUri"]

def deleteFilesParams : Schema := filesParams "DeleteFilesParams" "FileDelete" ["uri"]

def executeCommandParams : Schema :=
  .spread "ExecuteCommandParams" [must "command" .text, spare "arguments" (.list .any)] [workDone]

end LangHost.Wire.Schemas
