import LangHost.Config
import LangHost.Debounce.Basic
import LangHost.Registry
/-!
# The server

The state of a language server: the open documents, their cached models, the validations that are
waited for and those that are running, and what was sent to the client. Time is a clock in
milliseconds that only goes forward.
-/

namespace LangHost

/-- Where a session with a client stands. -/
inductive Phase where
  | uninitialized
  | initialized
  | shutDown
  | exited
  deriving DecidableEq, Repr

/-- What the server tells the client on its own. -/
inductive Notice where
  /-- The findings in a document, which replace all earlier ones, and the version they are of. -/
  | diagnostics (uri : String) (findings : List Diagnostic) (version : Option Int)
  | log (severity : Severity) (text : String)

/-- Whether a notice gets through to the client: nothing after the exit, and diagnostics only once
the session has been initialized. -/
def Phase.admits (phase : Phase) : Notice → Bool
  | .diagnostics _ _ _ => phase == .initialized || phase == .shutDown
  | .log _ _ => phase != .exited

/-- A notice and when it was sent. -/
structure Sent where
  time : Nat
  notice : Notice

/-- What the server did with its services and its validations. -/
inductive Activity where
  /-- A service parsed a document. -/
  | parsed (service : String)
  /-- A service came to the end of a validation. -/
  | validated (service : String)
  /-- A service was handed settings. -/
  | configured (service : String) (settings : Json)
  /-- A validation, by its number, came to its end; its findings were published or outdated. -/
  | settled (run : Nat) (published : Bool)
  /-- A validation crashed. -/
  | crashed (run : Nat)

/-- A validation that has started: the revision it works on, the service that does it unless the
document could not be parsed, and the findings it will end with, or none if it will crash. -/
structure Run where
  number : Nat
  document : Document
  service : Option String
  findings : Option (List Diagnostic)

/-- A language server, for services with settings `σ` and models `μ`. -/
structure Server (σ μ : Type) where
  services : Registry σ μ
  clock : Nat := 0
  phase : Phase := .uninitialized
  config : Config := {}
  documents : List Document := []
  models : Cache String μ := Cache.new {} 0
  /-- Pending validations by document, and running ones. -/
  validations : Debouncer String Unit Run := {}
  nextRun : Nat := 0
  /-- What was sent to the client, latest first. -/
  sent : List Sent := []
  /-- What was done, latest first. -/
  history : List Activity := []

namespace Server

variable {σ μ : Type}

/-! ## Notices -/

/-- Sends a notice, if it gets through. -/
def send (s : Server σ μ) (n : Notice) : Server σ μ :=
  if s.phase.admits n then { s with sent := ⟨s.clock, n⟩ :: s.sent } else s

/-- Publishes the findings in a document. -/
def publish (s : Server σ μ) (uri : String) (findings : List Diagnostic) (version : Option Int) :
    Server σ μ :=
  s.send (.diagnostics uri findings version)

/-- Logs a message at the client. -/
def log (s : Server σ μ) (severity : Severity) (text : String) : Server σ μ :=
  s.send (.log severity text)

/-- Notes what was done. -/
def note (s : Server σ μ) (a : Activity) : Server σ μ := { s with history := a :: s.history }

/-! ## Documents -/

/-- The open document of a URI. -/
def document? (s : Server σ μ) (uri : String) : Option Document :=
  s.documents.find? (·.uri = uri)

/-- Stores a document in place of the one of its URI. -/
def putDocument (s : Server σ μ) (d : Document) : Server σ μ :=
  { s with documents := d :: s.documents.filter (·.uri ≠ d.uri) }

/-- Forgets the document of a URI. -/
def dropDocument (s : Server σ μ) (uri : String) : Server σ μ :=
  { s with documents := s.documents.filter (·.uri ≠ uri) }

/-- The open document of a URI, or the fault that there is none. -/
def requireDocument (s : Server σ μ) (uri : String) : Except Fault Document :=
  match s.document? uri with
  | some d => .ok d
  | none => .error (.documentNotFound uri)

/-! ## Models -/

/-- The service of a document and its model. The model comes from the cache if the cache has one
of this version and kind; otherwise the service parses the document. -/
def getModel (s : Server σ μ) (d : Document) :
    Server σ μ × Except Fault (Service σ μ × Cache.Stamped μ) :=
  match s.services.require d.kind with
  | .error f => (s, .error f)
  | .ok service =>
    let (models, parsed, result) := s.models.get s.clock d.uri d.version d.kind
      fun models => (models, (), service.parse d)
    let s' := { s with models }
    (if parsed.isSome then s'.note (.parsed service.id) else s', result.map (service, ·))

/-- Drops the cached model of a document. -/
def dropModel (s : Server σ μ) (uri : String) : Server σ μ :=
  { s with models := s.models.remove uri }

end Server

end LangHost
