import LangHost.Server.Validation
/-!
# Documents and settings over time

What the client tells the server: a session starts, documents are opened, changed and closed,
settings change, the session ends. Closing a document takes down everything that is kept for it.
-/

namespace LangHost

/-- What a client tells the server without waiting for an answer. -/
inductive Notification where
  /-- The session is set up. -/
  | initialized
  | opened (document : Document)
  /-- A document has changed, in steps of which each gives the whole text. -/
  | changed (uri : String) (version : Int) (texts : List String)
  | closed (uri : String)
  | configured (settings : Json)

namespace Server

variable {σ μ : Type}

/-- Puts the client's settings in force. Every service gets them as they are; the server keeps its
configuration, and tells the client so, when its own part is malformed. -/
def applySettings (s : Server σ μ) (settings : Json) : Server σ μ :=
  let s := match Config.decode settings with
    | .ok config =>
      { s with config, models := s.models.configure config.cache.limits s.clock }
    | .error e => s.log .warning ("Invalid genls configuration: " ++ e.message)
  { s with
    services := s.services.configure settings
    history := s.services.services.map (fun v => .configured v.id settings) ++ s.history }

/-- Stores an opened document and asks for its validation. -/
def openDocument (s : Server σ μ) (d : Document) : Server σ μ :=
  let s := s.putDocument d
  match s.services.require d.kind with
  | .ok _ => s.schedule s.config.validation d.uri
  | .error f => s.log .warning f.message

/-- Stores a new revision of a document and asks for its validation. Documents that are not open
do not change. -/
def changeDocument (s : Server σ μ) (uri : String) (version : Int) (text : String) : Server σ μ :=
  match s.document? uri with
  | none => s
  | some d => (s.putDocument (d.update version text)).schedule s.config.validation uri

/-- Forgets a document and all that is kept for it, and clears its findings at the client. -/
def closeDocument (s : Server σ μ) (uri : String) : Server σ μ :=
  (((s.dropDocument uri).cancelValidation uri).dropModel uri).publish uri [] none

/-- The server after a notification. -/
def notify (s : Server σ μ) : Notification → Server σ μ
  | .initialized => s.log .info "genls ready"
  | .opened d => s.openDocument d
  | .changed uri version texts =>
    match texts.getLast? with
    | none => s
    | some text => s.changeDocument uri version text
  | .closed uri => s.closeDocument uri
  | .configured settings =>
    let s := s.applySettings settings
    s.revalidate s.config.validation

/-- Starts a session, with the settings that the client brings if it brings any. -/
def setUp (s : Server σ μ) (options : Option Json) : Server σ μ :=
  match options with
  | none => s
  | some settings => s.applySettings settings

/-- Ends all background work: the cache is disposed of and no pending validation starts. -/
def shutdown (s : Server σ μ) : Server σ μ :=
  { s with models := s.models.dispose, validations := s.validations.cancelAll }

end Server

end LangHost
