import LangHost.Json.Schema
/-!
# Schemas of places, documents and edits

What the other schemas of the protocol are made of.
-/

namespace LangHost.Wire.Schemas

open Schema (u32 i32)
open RecordField (must may spare)

/-! ## Places -/

def position : Schema := .record "Position" [must "line" u32, must "character" u32]

def range : Schema := .record "Range" [must "start" position, must "end" position]

def location : Schema := .record "Location" [must "uri" .uri, must "range" range]

/-! ## Documents -/

def documentId : Schema := .record "TextDocumentIdentifier" [must "uri" .uri]

def versionedDocumentId : Schema :=
  .record "VersionedTextDocumentIdentifier" [must "uri" .uri, must "version" i32]

def document : Schema :=
  .record "TextDocumentItem"
    [must "uri" .uri, must "languageId" .text, must "version" i32, must "text" .text]

/-- The fields that tell a position in a document. -/
def documentPositionFields : List RecordField :=
  [must "textDocument" documentId, must "position" position]

def documentPosition : Schema := .record "TextDocumentPositionParams" documentPositionFields

/-! ## Values of several kinds -/

/-- A number or a text, such as names of diagnostics and of pieces of work. -/
def numberOrText : Schema := .variant "NumberOrString" [i32, .text]

/-- The words for the two kinds of text that are shown. -/
def markupKind : Schema := .word ["plaintext", "markdown"]

def markup : Schema := .record "MarkupContent" [must "kind" markupKind, must "value" .text]

/-- A plain text or one with a kind. -/
def documentation (type : String) : Schema := .variant type [.text, markup]

def command : Schema :=
  .record "Command" [must "title" .text, must "command" .text, may "arguments" (.list .any)]

/-! ## Progress -/

/-- The field by which a client asks to hear of the progress of a call. -/
def workDone : List RecordField := [may "workDoneToken" numberOrText]

/-- The field by which a client asks for results as they come. -/
def partialResult : List RecordField := [may "partialResultToken" numberOrText]

/-! ## Edits -/

/-- The fields of a text edit. -/
def textEditFields : List RecordField := [must "range" range, must "newText" .text]

def textEdit : Schema := .record "TextEdit" textEditFields

/-- An edit that names the annotation it belongs to. -/
def annotatedTextEdit : Schema :=
  .spread "AnnotatedTextEdit" [must "annotationId" .text] [textEditFields]

def documentEdit : Schema :=
  .record "TextDocumentEdit"
    [must "textDocument"
      (.record "OptionalVersionedTextDocumentIdentifier" [must "uri" .uri, may "version" i32]),
    must "edits" (.list (.variant "OneOf" [textEdit, annotatedTextEdit]))]

/-- What is to be done when a file is there already. -/
def fileOptions (type : String) : Schema :=
  .record type [may "overwrite" .bool, may "ignoreIfExists" .bool]

/-- A change to a file as a whole. -/
def fileOperation : Schema :=
  .tagged "kind"
    [must "create" (.record "CreateFile"
      [must "uri" .uri, may "options" (fileOptions "CreateFileOptions"),
        may "annotationId" .text]),
    must "rename" (.record "RenameFile"
      [must "oldUri" .uri, must "newUri" .uri, may "options" (fileOptions "RenameFileOptions"),
        may "annotationId" .text]),
    must "delete" (.record "DeleteFile"
      [must "uri" .uri,
        may "options" (.record "DeleteFileOptions"
          [may "recursive" .bool, may "ignoreIfNotExists" .bool]),
        may "annotationId" .text])]

def changeAnnotation : Schema :=
  .record "ChangeAnnotation"
    [must "label" .text, may "needsConfirmation" .bool, may "description" .text]

def workspaceEdit : Schema :=
  .record "WorkspaceEdit"
    [spare "changes" (.nullable (.dictionary .uri (.list textEdit))),
    may "documentChanges" (.variant "DocumentChanges"
      [.list documentEdit,
        .list (.variant "DocumentChangeOperation" [fileOperation, documentEdit])]),
    may "changeAnnotations" (.dictionary .text changeAnnotation)]

/-! ## Diagnostics -/

def diagnostic : Schema :=
  .record "Diagnostic"
    [must "range" range,
    may "severity" i32,
    may "code" numberOrText,
    may "codeDescription" (.record "CodeDescription" [must "href" .uri]),
    may "source" .text,
    must "message" .text,
    may "relatedInformation" (.list (.record "DiagnosticRelatedInformation"
      [must "location" location, must "message" .text])),
    may "tags" (.list i32),
    may "data" .any]

/-! ## Formatting -/

/-- Options of formatting. A client may add options of its own. -/
def formattingOptions : Schema :=
  .extensible "FormattingOptions"
    [must "tabSize" u32, must "insertSpaces" .bool, may "trimTrailingWhitespace" .bool,
      may "insertFinalNewline" .bool, may "trimFinalNewlines" .bool]
    (.variant "FormattingProperty" [.bool, i32, .text])

end LangHost.Wire.Schemas
