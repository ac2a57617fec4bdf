import LangHost.Json.Decode
/-!
# Faults

What can go wrong between a request and its answer.
-/

namespace LangHost

/-- Why the host cannot do what it was asked to. -/
inductive Fault where
  /-- No language service is registered for a kind of document. -/
  | noLanguageService (kind : String)
  /-- A document of some kind could not be parsed. -/
  | parse (kind : String) (cause : String)
  /-- A language service failed. -/
  | service (text : String)
  /-- A document is not open. -/
  | documentNotFound (uri : String)
  /-- A structured value could not be decoded. -/
  | json (cause : DecodeError)
  deriving DecidableEq

namespace Fault

/-- The text of a fault. -/
def message : Fault → String
  | noLanguageService kind => "no language service configured for document kind `" ++ kind ++ "`"
  | parse kind cause => "failed to parse " ++ kind ++ " document: " ++ cause
  | service text => "language service error: " ++ text
  | documentNotFound uri => "document not open: " ++ uri
  | json cause => "JSON error: " ++ cause.message

/-- The text of what lies behind a fault, if it has a cause of its own. -/
def cause? : Fault → Option String
  | parse _ cause => some cause
  | json cause => some cause.message
  | _ => none

end Fault

end LangHost
