import LangHost.Wire.Schema.Basic
/-!
# Schemas of client capabilities

What a client tells about itself when a session starts. Nearly all of it may be left out, and
nearly none of it matters to the server; but what is there has to be well formed.
-/

namespace LangHost.Wire.Schemas

open Schema (u32 i32)
open RecordField (must may spare)

/-! ## Capabilities of one kind -/

/-- Truth values that may each be left out. -/
def flags (type : String) (names : List String) : Schema :=
  .record type (names.map fun name => may name .bool)

/-- Whether a feature can be registered later. -/
def registration : Schema :=
  flags "DynamicRegistrationClientCapabilities" ["dynamicRegistration"]

/-- Whether a feature can be told to start over. -/
def refresh (type : String) : Schema := flags type ["refreshSupport"]

/-- The names of what can be filled in later. -/
def resolution (type : String) : Schema := .record type [must "properties" (.list .text)]

/-- The tags that a client knows. Instead of naming them it may just say whether it does. -/
def tagSupport : RecordField :=
  spare "tagSupport"
    (.nullable (.flagOr (.record "TagSupport" [must "valueSet" (.list i32)])))

/-- The values of a kind that a client knows. -/
def knownKinds (type : String) (value : Schema) : Schema :=
  .record type [may "valueSet" (.list value)]

/-- The kinds of symbols that a client knows. -/
def symbolKinds : Schema := knownKinds "SymbolKindCapability" i32

/-! ## Capabilities for the workspace -/

def workspaceEditSupport : Schema :=
  .record "WorkspaceEditClientCapabilities"
    [may "documentChanges" .bool,
    may "resourceOperations" (.list (.word ["create", "rename", "delete"])),
    may "failureHandling" (.word ["abort", "transactional", "textOnlyTransactional", "undo"]),
    may "normalizesLineEndings" .bool,
    may "changeAnnotationSupport"
      (flags "ChangeAnnotationWorkspaceEditClientCapabilities" ["groupsOnLabel"])]

def workspaceSymbolSupport : Schema :=
  .record "WorkspaceSymbolClientCapabilities"
    [may "dynamicRegistration" .bool,
    may "symbolKind" symbolKinds,
    tagSupport,
    may "resolveSupport" (resolution "WorkspaceSymbolResolveSupportCapability")]

def workspaceCapabilities : Schema :=
  .record "WorkspaceClientCapabilities"
    [may "applyEdit" .bool,
    may "workspaceEdit" workspaceEditSupport,
    may "didChangeConfiguration" registration,
    may "didChangeWatchedFiles"
      (flags "DidChangeWatchedFilesClientCapabilities"
        ["dynamicRegistration", "relativePatternSupport"]),
    may "symbol" workspaceSymbolSupport,
    may "executeCommand" registration,
    may "workspaceFolders" .bool,
    may "configuration" .bool,
    may "semanticTokens" (refresh "SemanticTokensWorkspaceClientCapabilities"),
    may "codeLens" (refresh "CodeLensWorkspaceClientCapabilities"),
    may "fileOperations"
      (flags "WorkspaceFileOperationsClientCapabilities"
        ["dynamicRegistration", "didCreate", "willCreate", "didRename", "willRename", "didDelete",
          "willDelete"]),
    may "inlineValue" (refresh "InlineValueWorkspaceClientCapabilities"),
    may "inlayHint" (refresh "InlayHintWorkspaceClientCapabilities"),
    may "diagnostics" (refresh "DiagnosticWorkspaceClientCapabilities")]

/-! ## Capabilities for documents -/

def completionItemSupport : Schema :=
  .record "CompletionItemCapability"
    [may "snippetSupport" .bool,
    may "commitCharactersSupport" .bool,
    may "documentationFormat" (.list markupKind),
    may "deprecatedSupport" .bool,
    may "preselectSupport" .bool,
    tagSupport,
    may "insertReplaceSupport" .bool,
    may "resolveSupport" (resolution "CompletionItemCapabilityResolveSupport"),
    may "insertTextModeSupport"
      (.record "InsertTextModeSupport" [must "valueSet" (.list i32)]),
    may "labelDetailsSupport" .bool]

def completionSupport : Schema :=
  .record "CompletionClientCapabilities"
    [may "dynamicRegistration" .bool,
    may "completionItem" completionItemSupport,
    may "completionItemKind" (knownKinds "CompletionItemKindCapability" i32),
    may "contextSupport" .bool,
    may "insertTextMode" i32,
    may "completionList"
      (.record "CompletionListCapability" [may "itemDefaults" (.list .text)])]

def signatureHelpSupport : Schema :=
  .record "SignatureHelpClientCapabilities"
    [may "dynamicRegistration" .bool,
    may "signatureInformation" (.record "SignatureInformationSettings"
      [may "documentationFormat" (.list markupKind),
      may "parameterInformation"
        (flags "ParameterInformationSettings" ["labelOffsetSupport"]),
      may "activeParameterSupport" .bool]),
    may "contextSupport" .bool]

def documentSymbolSupport : Schema :=
  .record "DocumentSymbolClientCapabilities"
    [may "dynamicRegistration" .bool,
    may "symbolKind" symbolKinds,
    may "hierarchicalDocumentSymbolSupport" .bool,
    tagSupport,
    may "labelSupport" .bool]

/-- Support for going to a place, and for links to it. -/
def gotoSupport : Schema := flags "GotoCapability" ["dynamicRegistration", "linkSupport"]

def codeActionSupport : Schema :=
  .record "CodeActionClientCapabilities"
    [may "dynamicRegistration" .bool,
    may "codeActionLiteralSupport" (.record "CodeActionLiteralSupport"
      [must "codeActionKind"
        (.record "CodeActionKindLiteralSupport" [must "valueSet" (.list .text)])]),
    may "isPreferredSupport" .bool,
    may "disabledSupport" .bool,
    may "dataSupport" .bool,
    may "resolveSupport" (resolution "CodeActionCapabilityResolveSupport"),
    may "honorsChangeAnnotations" .bool]

def renameSupport : Schema :=
  .record "RenameClientCapabilities"
    [may "dynamicRegistration" .bool,
    may "prepareSupport" .bool,
    may "prepareSupportDefaultBehavior" i32,
    may "honorsChangeAnnotations" .bool]

def publishDiagnosticsSupport : Schema :=
  .record "PublishDiagnosticsClientCapabilities"
    [may "relatedInformation" .bool,
    tagSupport,
    may "versionSupport" .bool,
    may "codeDescriptionSupport" .bool,
    may "dataSupport" .bool]

/-- Support for diagnostics that a client asks for. -/
def diagnosticSupport : Schema :=
  .record "DiagnosticClientCapabilities"
    [may "dynamicRegistration" .bool,
    may "relatedDocumentSupport" .bool,
    may "relatedInformation" .bool,
    may "tagSupport" (.record "ClientDiagnosticsTagOptions" [must "valueSet" (.list i32)]),
    may "codeDescriptionSupport" .bool,
    may "dataSupport" .bool]

def foldingRangeSupport : Schema :=
  .record "FoldingRangeClientCapabilities"
    [may "dynamicRegistration" .bool,
    may "rangeLimit" u32,
    may "lineFoldingOnly" .bool,
    may "foldingRangeKind"
      (knownKinds "FoldingRangeKindCapability" (.word ["comment", "imports", "region"])),
    may "foldingRange" (flags "FoldingRangeCapability" ["collapsedText"])]

def semanticTokensSupport : Schema :=
  .record "SemanticTokensClientCapabilities"
    [may "dynamicRegistration" .bool,
    must "requests" (.record "SemanticTokensClientCapabilitiesRequests"
      [may "range" .bool,
      may "full" (.variant "SemanticTokensFullOptions"
        [.bool, .spread "Delta" [may "delta" .bool] []])]),
    must "tokenTypes" (.list .text),
    must "tokenModifiers" (.list .text),
    must "formats" (.list .text),
    may "overlappingTokenSupport" .bool,
    may "multilineTokenSupport" .bool,
    may "serverCancelSupport" .bool,
    may "augmentsSyntaxTokens" .bool]

def documentCapabilities : Schema :=
  .record "TextDocumentClientCapabilities"
    [may "synchronization"
      (flags "TextDocumentSyncClientCapabilities"
        ["dynamicRegistration", "willSave", "willSaveWaitUntil", "didSave"]),
    may "completion" completionSupport,
    may "hover" (.record "HoverClientCapabilities"
      [may "dynamicRegistration" .bool, may "contentFormat" (.list markupKind)]),
    may "signatureHelp" signatureHelpSupport,
    may "references" registration,
    may "documentHighlight" registration,
    may "documentSymbol" documentSymbolSupport,
    may "formatting" registration,
    may "rangeFormatting" registration,
    may "onTypeFormatting" registration,
    may "declaration" gotoSupport,
    may "definition" gotoSupport,
    may "typeDefinition" gotoSupport,
    may "implementation" gotoSupport,
    may "codeAction" codeActionSupport,
    may "codeLens" registration,
    may "documentLink"
      (flags "DocumentLinkClientCapabilities" ["dynamicRegistration", "tooltipSupport"]),
    may "colorProvider" registration,
    may "rename" renameSupport,
    may "publishDiagnostics" publishDiagnosticsSupport,
    may "foldingRange" foldingRangeSupport,
    may "selectionRange" (flags "SelectionRangeClientCapabilities" ["dynamicRegistration"]),
    may "linkedEditingRange" registration,
    may "callHierarchy" registration,
    may "semanticTokens" semanticTokensSupport,
    may "moniker" registration,
    may "typeHierarchy" registration,
    may "inlineValue" registration,
    may "inlayHint" (.record "InlayHintClientCapabilities"
      [may "dynamicRegistration" .bool,
      may "resolveSupport" (resolution "InlayHintResolveClientCapabilities")]),
    may "diagnostic" diagnosticSupport,
    may "inlineCompletion" (flags "InlineCompletionClientCapabilities" ["dynamicRegistration"])]

/-! ## Other capabilities -/

def notebookCapabilities : Schema :=
  .record "NotebookDocumentClientCapabilities"
    [must "synchronization"
      (flags "NotebookDocumentSyncClientCapabilities"
        ["dynamicRegistration", "executionSummaryReport"])]

def windowCapabilities : Schema :=
  .record "WindowClientCapabilities"
    [may "workDoneProgress" .bool,
    may "showMessage" (.record "ShowMessageRequestClientCapabilities"
      [may "messageActionItem"
        (flags "MessageActionItemCapabilities" ["additionalPropertiesSupport"])]),
    may "showDocument" (.record "ShowDocumentClientCapabilities" [must "support" .bool])]

def generalCapabilities : Schema :=
  .record "GeneralClientCapabilities"
    [may "regularExpressions" (.record "RegularExpressionsClientCapabilities"
      [must "engine" .text, may "version" .text]),
    may "markdown" (.record "MarkdownClientCapabilities"
      [must "parser" .text, may "version" .text, may "allowedTags" (.list .text)]),
    may "staleRequestSupport" (.record "StaleRequestSupportClientCapabilities"
      [must "cancel" .bool, must "retryOnContentModified" (.list .text)]),
    may "positionEncodings" (.list .text)]

def clientCapabilities : Schema :=
  .record "ClientCapabilities"
    [may "workspace" workspaceCapabilities,
    may "textDocument" documentCapabilities,
    may "notebookDocument" notebookCapabilities,
    may "window" windowCapabilities,
    may "general" generalCapabilities,
    may "offsetEncoding" (.list .text),
    may "experimental" .any]

end LangHost.Wire.Schemas
