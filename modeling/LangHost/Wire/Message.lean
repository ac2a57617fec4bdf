import LangHost.Server.Lifecycle
import LangHost.Server.Request
import LangHost.Wire.Decode
import LangHost.Wire.Encode
import LangHost.Wire.Schema.Params
/-!
# Messages on the wire

The methods that a server knows, the parameters they take, and the structured values of answers
and notices.
-/

namespace LangHost

/-- A message from the client. One that waits for an answer is a call. -/
structure Message where
  method : String
  isCall : Bool
  params : Option Json

/-- What starts a session: the client's settings, and whether it can insert snippets. -/
structure SetUp where
  options : Option Json
  snippets : Bool

/-- The parameters of a message, or the error that tells what is wrong with them. -/
def Message.decode (m : Message) (decode : Decoder α) : Except RpcError α :=
  match m.params with
  | none => .error (.invalidParams "Missing params field")
  | some v => (decode v).mapError fun e => .invalidParams e.message

/-- What a method is for while the session is going on. -/
inductive Purpose where
  /-- A call about a document. -/
  | request (decode : Decoder Request)
  | notification (decode : Decoder Notification)
  /-- A standard call that the server does not answer, with the parameters it would take. -/
  | unsupportedRequest (params : Schema)
  /-- A standard notification that the server does not heed. -/
  | unsupportedNotification

/-- A method of the protocol. -/
inductive Method where
  | setUp
  | shutdown
  | exit
  /-- Takes back a call that has not been answered yet. -/
  | cancel
  | regular (purpose : Purpose)

namespace Wire

/-- The URI of the document that a message is about. -/
def documentUri (fs : List (String × Json)) : Except DecodeError String :=
  required fs "textDocument" fun v => do
    required (← fields "TextDocumentIdentifier" v) "uri" Decode.text

/-- A request about a document, by what is asked. -/
def request (params : Schema) (query : List (String × Json) → Except DecodeError Query) :
    Purpose :=
  .request <| decodeWith params fun v => do
    let fs ← fields "Request" v
    pure ⟨← documentUri fs, ← query fs⟩

/-- A request about a position in a document. -/
def positionRequest (params : Schema) (query : Position → Query) : Purpose :=
  request params fun fs => return query (← required fs "position" Position.read)

/-- A request for code actions in a range with some diagnostics. -/
def codeActionRequest : Purpose :=
  request Schemas.codeActionParams fun fs => do
    let range ← required fs "range" Range.read
    let diagnostics ← required fs "context" fun v => do
      required (← fields "CodeActionContext" v) "diagnostics" (Decode.list Diagnostic.read)
    pure (.codeActions range diagnostics)

/-- A request for a new name. -/
def renameRequest : Purpose :=
  request Schemas.renameParams fun fs => do
    let position ← required fs "position" Position.read
    pure (.rename position (← required fs "newName" Decode.text))

/-- A request for a formatted document. -/
def formatRequest : Purpose :=
  request Schemas.formattingParams fun fs =>
    return .format none (← required fs "options" FormattingOptions.read)

/-- A request for a formatted range. -/
def formatRangeRequest : Purpose :=
  request Schemas.rangeFormattingParams fun fs => do
    let range ← required fs "range" Range.read
    pure (.format (some range) (← required fs "options" FormattingOptions.read))

/-- A notification, by what its parameters tell. -/
def notification (params : Schema)
    (news : List (String × Json) → Except DecodeError Notification) : Purpose :=
  .notification <| decodeWith params fun v => do news (← fields "Notification" v)

/-- The news that a document was opened. -/
def didOpen : Purpose :=
  notification Schemas.didOpenParams fun fs =>
    required fs "textDocument" fun v => do
      let fs ← fields "TextDocumentItem" v
      let uri ← required fs "uri" Decode.text
      let kind ← required fs "languageId" Decode.text
      let version ← required fs "version" int32
      let text ← required fs "text" Decode.text
      pure (.opened ⟨uri, kind, version, text⟩)

/-- The news that a document has changed. The range that a change names is not looked at. -/
def didChange : Purpose :=
  notification Schemas.didChangeParams fun fs => do
    let (uri, version) ← required fs "textDocument" fun v => do
      let fs ← fields "VersionedTextDocumentIdentifier" v
      pure (← required fs "uri" Decode.text, ← required fs "version" int32)
    let texts ← required fs "contentChanges" <| Decode.list fun v => do
      required (← fields "TextDocumentContentChangeEvent" v) "text" Decode.text
    pure (.changed uri version texts)

/-- The news that a document was closed. -/
def didClose : Purpose :=
  notification Schemas.didCloseParams fun fs => return .closed (← documentUri fs)

/-- The news that settings have changed. -/
def didChangeConfiguration : Purpose :=
  notification Schemas.didChangeConfigurationParams fun fs =>
    return .configured (← required fs "settings" Decode.raw)

/-- The news that the client is set up. -/
def initialized : Purpose := notification Schemas.initializedParams fun _ => pure .initialized

/-- A part of an object of parts that may all be missing. -/
def part (type name : String) (decode : Decoder (Option α)) : Decoder (Option α) := fun v => do
  pure (← optional (← fields type v) name decode).join

/-- Whether the client can insert snippets, out of all that it can do. -/
def snippetSupport : Decoder (Option Bool) :=
  part "ClientCapabilities" "textDocument" <|
    part "TextDocumentClientCapabilities" "completion" <|
      part "CompletionClientCapabilities" "completionItem" <|
        part "CompletionItemCapability" "snippetSupport" fun v => some <$> Decode.bool v

/-- The methods of the protocol that take calls and that the server does not answer, with their
parameters. -/
def unsupportedRequests : List (String × Schema) :=
  [("textDocument/declaration", Schemas.definitionParams),
    ("textDocument/typeDefinition", Schemas.definitionParams),
    ("textDocument/implementation", Schemas.definitionParams),
    ("textDocument/prepareCallHierarchy", Schemas.callHierarchyPrepareParams),
    ("callHierarchy/incomingCalls", Schemas.incomingCallsParams),
    ("callHierarchy/outgoingCalls", Schemas.outgoingCallsParams),
    ("textDocument/prepareTypeHierarchy", Schemas.typeHierarchyPrepareParams),
    ("typeHierarchy/supertypes", Schemas.supertypesParams),
    ("typeHierarchy/subtypes", Schemas.subtypesParams),
    ("textDocument/documentLink", Schemas.documentLinkParams),
    ("documentLink/resolve", Schemas.documentLink),
    ("textDocument/codeLens", Schemas.codeLensParams),
    ("codeLens/resolve", Schemas.codeLens),
    ("textDocument/foldingRange", Schemas.foldingRangeParams),
    ("textDocument/selectionRange", Schemas.selectionRangeParams),
    ("textDocument/semanticTokens/full", Schemas.semanticTokensParams),
    ("textDocument/semanticTokens/full/delta", Schemas.semanticTokensDeltaParams),
    ("textDocument/semanticTokens/range", Schemas.semanticTokensRangeParams),
    ("textDocument/inlineValue", Schemas.inlineValueParams),
    ("textDocument/inlayHint", Schemas.inlayHintParams),
    ("inlayHint/resolve", Schemas.inlayHint),
    ("textDocument/moniker", Schemas.monikerParams),
    ("completionItem/resolve", Schemas.completionItem),
    ("textDocument/diagnostic", Schemas.documentDiagnosticParams),
    ("workspace/diagnostic", Schemas.workspaceDiagnosticParams),
    ("textDocument/signatureHelp", Schemas.signatureHelpParams),
    ("codeAction/resolve", Schemas.codeAction),
    ("textDocument/documentColor", Schemas.documentColorParams),
    ("textDocument/colorPresentation", Schemas.colorPresentationParams),
    ("textDocument/onTypeFormatting", Schemas.onTypeFormattingParams),
    ("textDocument/prepareRename", Schemas.documentPosition),
    ("textDocument/linkedEditingRange", Schemas.linkedEditingRangeParams),
    ("textDocument/willSaveWaitUntil", Schemas.willSaveParams),
    ("workspace/symbol", Schemas.workspaceSymbolParams),
    ("workspaceSymbol/resolve", Schemas.workspaceSymbol),
    ("workspace/willCreateFiles", Schemas.createFilesParams),
    ("workspace/willRenameFiles", Schemas.renameFilesParams),
    ("workspace/willDeleteFiles", Schemas.deleteFilesParams),
    ("workspace/executeCommand", Schemas.executeCommandParams)]

/-- Method names of the protocol that take notifications and that the server does not heed. -/
def unsupportedNotifications : List String :=
  ["textDocument/willSave", "textDocument/didSave", "workspace/didChangeWorkspaceFolders",
    "workspace/didChangeWatchedFiles", "workspace/didCreateFiles", "workspace/didRenameFiles",
    "workspace/didDeleteFiles", "notebookDocument/didOpen", "notebookDocument/didChange",
    "notebookDocument/didSave", "notebookDocument/didClose"]

/-- What a method other than those that start and end a session is for. -/
def purpose? (name : String) : Option Purpose :=
  match name with
  | "initialized" => some initialized
  | "textDocument/didOpen" => some didOpen
  | "textDocument/didChange" => some didChange
  | "textDocument/didClose" => some didClose
  | "workspace/didChangeConfiguration" => some didChangeConfiguration
  | "textDocument/completion" => some (positionRequest Schemas.completionParams .completion)
  | "textDocument/hover" => some (positionRequest Schemas.hoverParams .hover)
  | "textDocument/definition" => some (positionRequest Schemas.definitionParams .definition)
  | "textDocument/references" => some (positionRequest Schemas.referenceParams .references)
  | "textDocument/documentHighlight" => some (positionRequest Schemas.highlightParams .highlights)
  | "textDocument/documentSymbol" =>
    some (request Schemas.documentSymbolParams fun _ => pure .symbols)
  | "textDocument/codeAction" => some codeActionRequest
  | "textDocument/rename" => some renameRequest
  | "textDocument/formatting" => some formatRequest
  | "textDocument/rangeFormatting" => some formatRangeRequest
  | _ =>
    match unsupportedRequests.lookup name with
    | some params => some (.unsupportedRequest params)
    | none => if name ∈ unsupportedNotifications then some .unsupportedNotification else none

/-- The method of a name. -/
def method? (name : String) : Option Method :=
  match name with
  | "initialize" => some .setUp
  | "shutdown" => some .shutdown
  | "exit" => some .exit
  | "$/cancelRequest" => some .cancel
  | _ => (purpose? name).map .regular

/-- What the server can do, for a client with or without snippets. -/
def capabilities (snippets : Bool) : Json :=
  Json.ofFields [
    ("capabilities", record [
      ("textDocumentSync", some (.int 1)),
      ("completionProvider",
        if snippets then some (Json.ofFields [("resolveProvider", .bool false)]) else none),
      ("hoverProvider", some (.bool true)),
      ("definitionProvider", some (.bool true)),
      ("referencesProvider", some (.bool true)),
      ("documentHighlightProvider", some (.bool true)),
      ("documentSymbolProvider", some (.bool true)),
      ("codeActionProvider", some (Json.ofFields [("codeActionKinds", .arr [.str "quickfix"])])),
      ("renameProvider", some (.bool true)),
      ("documentFormattingProvider", some (.bool true)),
      ("documentRangeFormattingProvider", some (.bool true))]),
    ("serverInfo", Json.ofFields [("name", .str "genls"), ("version", .str "0.1.0")])]

end Wire

open Wire

def SetUp.decode : Decoder SetUp :=
  decodeWith Schemas.initializeParams fun v => do
    let fs ← fields "InitializeParams" v
    let snippets ← required fs "capabilities" snippetSupport
    pure ⟨← optional fs "initializationOptions" Decode.raw, snippets.getD false⟩

def Answer.toJson : Answer → Json
  | .completion l => l.toJson
  | .hover h => h.toJson
  | .location l => l.toJson
  | .locations ls => array (·.toJson) ls
  | .highlights hs => array (·.toJson) hs
  | .symbols ss => array (·.toJson) ss
  | .codeActions as => array (·.toJson) as
  | .workspaceEdit e => e.toJson
  | .edits es => array (·.toJson) es

/-- The method that a notice is sent with. -/
def Notice.method : Notice → String
  | .diagnostics _ _ _ => "textDocument/publishDiagnostics"
  | .log _ _ => "window/logMessage"

/-- The parameters that a notice is sent with. -/
def Notice.params : Notice → Json
  | .diagnostics uri findings version =>
    record [
      ("uri", some (.str uri)),
      ("diagnostics", some (array (·.toJson) findings)),
      ("version", version.map .int)]
  | .log severity text => Json.ofFields [("type", .int severity.code), ("message", .str text)]

end LangHost
