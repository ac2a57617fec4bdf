import LangHost.Plain.Fault
/-!
# Plain-text settings
-/

namespace LangHost.Plain

/-- Which checks run on plain texts. -/
structure Settings where
  /-- Whether white space at the end of a line is reported. -/
  trailingWhitespace : Bool := true
  /-- The number of characters above which a line is reported, if any is. -/
  maxLineLength : Option Nat := none
  deriving DecidableEq, Repr

namespace Settings

/-- A bound on the length of lines. -/
def decodeMax : Decoder (Option Nat) := Decode.nullable (Decode.natural64 "usize")

/-- Reads the plain-text section of the client's settings. -/
def decode : Decoder Settings
  | .obj fields => do
    let maxLineLength ← Decode.orDefault decodeMax none (fields.lookup "maxLineLength")
    let trailingWhitespace ← Decode.orDefault Decode.bool true (fields.lookup "trailingWhitespace")
    pure { trailingWhitespace, maxLineLength }
  | .arr items => do
    let trailingWhitespace ← Decode.orDefault Decode.bool true items[0]?
    let maxLineLength ← Decode.orDefault decodeMax none items[1]?
    Decode.atMost 2 items
    pure { trailingWhitespace, maxLineLength }
  | v => .error (.wrongType v.shape "struct PlainTextSettings")

/-- The settings in the section that is the service's own, if the client sent one. -/
def ofClient? (settings : Json) : Except Fault (Option Settings) :=
  match settings.field? kind with
  | none => .ok none
  | some part =>
    match decode part with
    | .ok s => .ok (some s)
    | .error e => .error (.invalidSettings e)

/-- The settings after the client sent new ones: a missing or malformed section changes nothing. -/
def configure (settings : Json) (current : Settings) : Settings :=
  match ofClient? settings with
  | .ok (some s) => s
  | _ => current

end Settings

end LangHost.Plain
