import LangHost.Fault
/-!
# Plain-text faults
-/

namespace LangHost.Plain

/-- The kind of document that the plain-text service handles. -/
def kind : String := "plaintext"

/-- Why a plain text or its settings are refused. -/
inductive Fault where
  /-- A line, counted from zero, holds a NUL character. -/
  | binaryContent (line : Nat)
  /-- The settings are malformed. -/
  | invalidSettings (cause : DecodeError)
  deriving DecidableEq

namespace Fault

/-- The text of a plain-text fault. -/
def message : Fault → String
  | binaryContent line => "binary content on line " ++ toString line
  | invalidSettings cause => "invalid plaintext settings: " ++ cause.message

/-- A plain-text fault as a fault of the host. -/
def toFault : Fault → LangHost.Fault
  | binaryContent line => .parse kind (binaryContent line).message
  | invalidSettings cause => .json cause

end Fault

end LangHost.Plain
