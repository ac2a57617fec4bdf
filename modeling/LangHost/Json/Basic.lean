/-!
# Structured values

The values of the data format that settings, messages and answers are written in. A number is
either an integer of 64 bits, signed or not, or a floating-point number, kept as its bits; the two
kinds never mix. The fields of an object stand in ascending order of their names, each name once,
when the object was read from text or built with `insertField`.
-/

namespace LangHost

/-- A structured value. -/
inductive Json where
  | null
  | bool (b : Bool)
  /-- An integer between `-2^63` and `2^64 - 1`. -/
  | int (n : Int)
  /-- A 64-bit floating-point number, given by its bits. -/
  | float (bits : UInt64)
  | str (s : String)
  | arr (items : List Json)
  | obj (fields : List (String × Json))
  deriving Inhabited

namespace Json

/-- The fields with one more, at its place in the order. A field of the same name is replaced. -/
def insertField (name : String) (value : Json) : List (String × Json) → List (String × Json)
  | [] => [(name, value)]
  | (k, v) :: rest =>
    if name < k then (name, value) :: (k, v) :: rest
    else if name = k then (name, value) :: rest
    else (k, v) :: insertField name value rest

/-- An object of the given fields; of two with one name the later wins. -/
def ofFields (fields : List (String × Json)) : Json :=
  .obj (fields.foldl (fun done f => insertField f.1 f.2 done) [])

/-- The value of a field of an object. Other values have no fields. -/
def field? (name : String) : Json → Option Json
  | .obj fields => fields.lookup name
  | _ => none

/-- A value that may be missing, written as `null` when it is. -/
def orNull (encode : α → Json) : Option α → Json
  | some a => encode a
  | none => .null

/-- A natural number. -/
def nat (n : Nat) : Json := .int n

end Json

end LangHost
