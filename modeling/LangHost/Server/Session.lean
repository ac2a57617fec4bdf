import LangHost.Json.Writer
import LangHost.Wire.Message
/-!
# Sessions

The order in which a client may speak. A session has to be initialized, once, before anything
else; after it was shut down it answers nothing but errors; after its exit it is over.
-/

namespace LangHost

/-- What a message is answered. -/
inductive Response where
  | none
  | result (value : Json)
  | error (e : RpcError)
  /-- The session is over. -/
  | exited

namespace Server

variable {σ μ : Type}

/-- The answer to a message that the session does not take in its present phase. -/
def outOfPhase (s : Server σ μ) (m : Message) : Response :=
  if m.isCall then
    .error (if s.phase = .uninitialized then .notInitialized else .invalidRequest)
  else .none

/-- Takes the message that starts the session. -/
def receiveSetUp (s : Server σ μ) (m : Message) : Server σ μ × Response :=
  if s.phase ≠ .uninitialized then (s, if m.isCall then .error .invalidRequest else .none)
  else if !m.isCall then (s, .none)
  else
    match m.decode SetUp.decode with
    | .error e => (s, .error e)
    | .ok params =>
      ({ s.setUp params.options with phase := .initialized },
        .result (Wire.capabilities params.snippets))

/-- Takes the message that shuts the session down. The session takes no more from then on, even
when the message was no proper call. -/
def receiveShutdown (s : Server σ μ) (m : Message) : Server σ μ × Response :=
  if s.phase ≠ .initialized then (s, s.outOfPhase m)
  else
    let s := { s with phase := .shutDown }
    if !m.isCall then (s, .none)
    else
      match m.params.getD .null with
      | .null => (s.shutdown, .result .null)
      | v => (s, .error (.invalidParams ("Unexpected params: " ++ v.render)))

/-- Takes a message of an initialized session. -/
def receiveRegular (s : Server σ μ) (m : Message) : Purpose → Server σ μ × Response
  | .request decode =>
    if !m.isCall then (s, .none)
    else
      match m.decode decode with
      | .error e => (s, .error e)
      | .ok r =>
        match s.answer r with
        | (s', .error e) => (s', .error e)
        | (s', .ok answer) => (s', .result (Json.orNull (·.toJson) answer))
  | .notification decode =>
    if m.isCall then (s, .error .invalidRequest)
    else
      match m.decode decode with
      | .error _ => (s, .none)
      | .ok n => (s.notify n, .none)
  | .unsupportedRequest params =>
    (s, if !m.isCall then .none else
      match m.decode params.decode with
      | .error e => .error e
      | .ok _ => .error .methodNotFound)
  | .unsupportedNotification => (s, if m.isCall then .error .invalidRequest else .none)

/-- The answer to a method that does not exist. Methods whose names start with `$/` may be
ignored. -/
def unknownMethod (m : Message) : Response :=
  if m.isCall && !("$/".toList.isPrefixOf m.method.toList) then
    .error { RpcError.methodNotFound with data := some (.str m.method) }
  else .none

/-- The server after a message, and the answer. -/
def receive (s : Server σ μ) (m : Message) : Server σ μ × Response :=
  if s.phase = .exited then (s, .exited)
  else
    match Wire.method? m.method with
    | none => (s, unknownMethod m)
    | some .setUp => s.receiveSetUp m
    | some .shutdown => s.receiveShutdown m
    | some .exit => ({ s with phase := .exited }, .none)
    | some .cancel => (s, if m.isCall then .error .invalidRequest else .none)
    | some (.regular purpose) =>
      if s.phase = .initialized then s.receiveRegular m purpose else (s, s.outOfPhase m)

end Server

end LangHost
