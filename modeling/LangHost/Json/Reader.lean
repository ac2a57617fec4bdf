import LangHost.Json.Token
import LangHost.Json.Number
/-!
# Reading values

The reader goes through the tokens of a text once and keeps the containers that are open.
-/

namespace LangHost.Json

/-- A container part way through: an array with its items so far, latest first, or an object with
its fields so far and the name of the field that is being read. -/
inductive Slot where
  | item (before : List Json)
  | field (before : List (String × Json)) (name : String)

/-- What the reader has and what it waits for. -/
inductive Reader where
  /-- A value; `mayClose` right after the bracket that opens an array. -/
  | value (outer : List Slot) (mayClose : Bool)
  /-- The name of a field; `mayClose` right after the bracket that opens an object. -/
  | fieldName (before : List (String × Json)) (outer : List Slot) (mayClose : Bool)
  /-- The colon after a name. -/
  | colon (before : List (String × Json)) (name : String) (outer : List Slot)
  /-- What follows a finished value. -/
  | filled (value : Json) (outer : List Slot)

namespace Reader

/-- The value of an atom. -/
def atom? (spelling : List Char) : Option Json :=
  match String.ofList spelling with
  | "null" => some .null
  | "true" => some (.bool true)
  | "false" => some (.bool false)
  | _ => Number.ofSpelling? spelling

/-- The reader after one more token, if the token can stand there. -/
def step (r : Reader) (t : Token) : Option Reader :=
  match r, t with
  | .value outer _, .text s => some (.filled (.str s) outer)
  | .value outer _, .atom spelling => (atom? spelling).map (.filled · outer)
  | .value outer _, .openArr => some (.value (.item [] :: outer) true)
  | .value outer _, .openObj => some (.fieldName [] outer true)
  | .value (.item [] :: outer) true, .closeArr => some (.filled (.arr []) outer)
  | .fieldName before outer _, .text s => some (.colon before s outer)
  | .fieldName [] outer true, .closeObj => some (.filled (.obj []) outer)
  | .colon before name outer, .colon => some (.value (.field before name :: outer) false)
  | .filled v (.item before :: outer), .comma => some (.value (.item (v :: before) :: outer) false)
  | .filled v (.item before :: outer), .closeArr =>
    some (.filled (.arr (v :: before).reverse) outer)
  | .filled v (.field before name :: outer), .comma =>
    some (.fieldName ((name, v) :: before) outer false)
  | .filled v (.field before name :: outer), .closeObj =>
    some (.filled (ofFields ((name, v) :: before).reverse) outer)
  | _, _ => none

end Reader

/-- The value that a text spells, if it spells one and nothing more. -/
def read? (text : String) : Option Json := do
  let tokens ← Token.scan text.toList
  match ← tokens.foldlM Reader.step (.value [] false) with
  | .filled v [] => some v
  | _ => none

end LangHost.Json
