import LangHost.Json.Basic
import LangHost.Decimal.Notation
/-!
# Writing values

A value is written without white space, its fields in the order in which they stand.
-/

namespace LangHost.Json

/-- A character inside a quoted text. -/
def escapeChar (c : Char) : List Char :=
  match c with
  | '"' => ['\\', '"']
  | '\\' => ['\\', '\\']
  | '\n' => ['\\', 'n']
  | '\r' => ['\\', 'r']
  | '\t' => ['\\', 't']
  | '\x08' => ['\\', 'b']
  | '\x0c' => ['\\', 'f']
  | c =>
    if c.toNat < 0x20 then
      let hex := Nat.toDigits 16 c.toNat
      '\\' :: 'u' :: (List.replicate (4 - hex.length) '0' ++ hex)
    else [c]

/-- A quoted text, added to what is written already. -/
def writeText (done : String) (s : String) : String :=
  (s.foldl (fun done c => (escapeChar c).foldl String.push done) (done.push '"')).push '"'

mutual

/-- A value, added to what is written already. -/
def write (done : String) : Json → String
  | .null => done ++ "null"
  | .bool b => done ++ if b then "true" else "false"
  | .int n => done ++ toString n
  | .float bits => done ++ Decimal.render bits
  | .str s => writeText done s
  | .arr items => (writeItems (done.push '[') items).push ']'
  | .obj fields => (writeFields (done.push '\x7b') fields).push '\x7d'

/-- The items of an array with commas between them. -/
def writeItems (done : String) : List Json → String
  | [] => done
  | [v] => write done v
  | v :: w :: rest => writeItems ((write done v).push ',') (w :: rest)

/-- The fields of an object with commas between them. -/
def writeFields (done : String) : List (String × Json) → String
  | [] => done
  | [(name, v)] => write ((writeText done name).push ':') v
  | (name, v) :: f :: rest =>
    writeFields ((write ((writeText done name).push ':') v).push ',') (f :: rest)

end

/-- The text of a value. -/
def render (v : Json) : String := write "" v

end LangHost.Json
