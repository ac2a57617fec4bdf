import LangHost.Json.Basic
import LangHost.Text.Quoted
import LangHost.Text.Uri
import LangHost.Decimal.Notation
/-!
# Decoding values

Typed data out of a structured value, with the first problem found when there is one. A record is
given as an object, whose unknown fields are ignored and whose missing fields take their defaults,
or as an array of its fields in their order, whose missing tail takes the defaults.
-/

namespace LangHost

/-- What kind of value was found where another was expected. -/
inductive Json.Shape where
  | null
  | bool (b : Bool)
  | int (n : Int)
  | float (bits : UInt64)
  | str (s : String)
  | arr
  | obj
  deriving DecidableEq

namespace Json

/-- The kind of a value, with the value itself when it is not a container. -/
def shape : Json → Shape
  | .null => .null
  | .bool b => .bool b
  | .int n => .int n
  | .float bits => .float bits
  | .str s => .str s
  | .arr _ => .arr
  | .obj _ => .obj

/-- The words for a kind of value in a message. -/
def Shape.describe : Shape → String
  | .null => "null"
  | .bool b => "boolean `" ++ (if b then "true" else "false") ++ "`"
  | .int n => "integer `" ++ toString n ++ "`"
  | .float bits => "floating point `" ++ Decimal.render bits ++ "`"
  | .str s => "string " ++ Text.quote s
  | .arr => "sequence"
  | .obj => "map"

end Json

/-- Why a value could not be decoded. -/
inductive DecodeError where
  /-- A value of one kind stands where another was expected. -/
  | wrongType (found : Json.Shape) (expected : String)
  /-- An integer does not fit its type. -/
  | outOfRange (found : Int) (expected : String)
  /-- An array has more items than the record has fields. -/
  | tooLong (length : Nat)
  /-- So does an array among the parts of a larger record, which has the given number of fields. -/
  | tooLongPart (length fields : Nat)
  /-- An array ends before the item for the field at the given index of the record, which has so
  many fields. -/
  | tooShort (index : Nat) (type : String) (fields : Nat)
  /-- A required field is missing. -/
  | missing (field : String)
  /-- A value fits none of the forms it can have. -/
  | noVariant (type : String)
  /-- A word is none of those that are known. -/
  | unknownWord (found : String) (known : List String)
  /-- A number is none of the indices of so many words. -/
  | noChoice (found : Int) (count : Nat)
  /-- An object that stands for a word has none or several fields. -/
  | notSingle
  /-- A text is no resource identifier. -/
  | uri (e : UriError)
  deriving DecidableEq

/-- Some elements, by their number. -/
def elements (n : Nat) : String := toString n ++ if n = 1 then " element" else " elements"

/-- The words that are known, in a message about one that is not. -/
def alternatives (known : List String) : String :=
  match known.map fun word => "`" ++ word ++ "`" with
  | [] => "there are no variants"
  | [a] => "expected " ++ a
  | [a, b] => "expected " ++ a ++ " or " ++ b
  | all => "expected one of " ++ String.intercalate ", " all

/-- The text of a decoding error. -/
def DecodeError.message : DecodeError → String
  | .wrongType found expected => "invalid type: " ++ found.describe ++ ", expected " ++ expected
  | .outOfRange found expected =>
    "invalid value: " ++ (Json.Shape.int found).describe ++ ", expected " ++ expected
  | .tooLong length =>
    "invalid length " ++ toString length ++ ", expected fewer elements in array"
  | .tooLongPart length fields =>
    "invalid length " ++ toString length ++ ", expected " ++ elements fields ++ " in sequence"
  | .tooShort index type fields =>
    "invalid length " ++ toString index ++ ", expected struct " ++ type ++ " with " ++
      elements fields
  | .missing field => "missing field `" ++ field ++ "`"
  | .noVariant type => "data did not match any variant of untagged enum " ++ type
  | .unknownWord found known => "unknown variant `" ++ found ++ "`, " ++ alternatives known
  | .noChoice found count =>
    "invalid value: " ++ (Json.Shape.int found).describe ++ ", expected variant index 0 <= i < " ++
      toString count
  | .notSingle => "invalid value: map, expected map with a single key"
  | .uri e => e.message

/-- A decoder of `α`. -/
abbrev Decoder (α : Type) := Json → Except DecodeError α

namespace Decode

/-- A truth value. -/
def bool : Decoder Bool
  | .bool b => .ok b
  | v => .error (.wrongType v.shape "a boolean")

/-- A text. -/
def text : Decoder String
  | .str s => .ok s
  | v => .error (.wrongType v.shape "a string")

/-- An integer from `lo` to `hi`, the type of which has the given name. -/
def integer (lo hi : Int) (name : String) : Decoder Int
  | .int n => if lo ≤ n ∧ n ≤ hi then .ok n else .error (.outOfRange n name)
  | v => .error (.wrongType v.shape name)

/-- A natural number up to `greatest`, the type of which has the given name. -/
def natural (greatest : Nat) (name : String) : Decoder Nat :=
  fun v => (integer 0 greatest name v).map Int.toNat

/-- A natural number below `2^64`, the type of which has the given name. -/
def natural64 (name : String) : Decoder Nat := natural 0xFFFFFFFFFFFFFFFF name

/-- A whole number of 64 bits with a sign, the type of which has the given name. -/
def integer64 (name : String) : Decoder Int :=
  integer (-0x8000000000000000) 0x7FFFFFFFFFFFFFFF name

/-- A value that may be `null`. -/
def nullable (decode : Decoder α) : Decoder (Option α)
  | .null => .ok none
  | v => (decode v).map some

/-- The items of an array, the first problem winning. -/
def list (decode : Decoder α) : Decoder (List α)
  | .arr items => items.mapM decode
  | v => .error (.wrongType v.shape "a sequence")

/-- A resource identifier. -/
def uri : Decoder String := fun v => do
  let s ← text v
  (Uri.check s).mapError .uri
  return s

/-- One of the given words, which may also be the only field of an object with `null` in it. -/
def word (known : List String) : Decoder String
  | .str s => if s ∈ known then .ok s else .error (.unknownWord s known)
  | .obj [(s, v)] =>
    if s ∉ known then .error (.unknownWord s known)
    else
      match v with
      | .null => .ok s
      | v => .error (.wrongType v.shape "unit")
  | .obj _ => .error .notSingle
  | v => .error (.wrongType v.shape "string or map")

/-- Which of the given words a value tells, by itself or by its index among them. -/
def choice (known : List String) : Decoder String
  | .int n =>
    match n.toNat?.bind (known[·]?) with
    | some word => .ok word
    | none => .error (.noChoice n known.length)
  | .str s => if s ∈ known then .ok s else .error (.unknownWord s known)
  | v => .error (.wrongType v.shape "variant identifier")

/-- A value as it is. -/
def raw : Decoder Json := .ok

/-- A part that takes a default when it is not given. -/
def orDefault (decode : Decoder α) (default : α) : Option Json → Except DecodeError α
  | none => .ok default
  | some v => decode v

/-- Refuses an array with more items than a record has fields. -/
def atMost (fields : Nat) (items : List Json) : Except DecodeError Unit :=
  if items.length ≤ fields then .ok () else .error (.tooLong items.length)

end Decode

end LangHost
