import LangHost.Json.Decode
/-!
# Schemas

What clients may send, written down as data. A value that conforms to a schema is brought into its
plain form: a record is an object of the fields that its schema names, even when it was sent as an
array of them, and fields that the schema does not know are left out. Whoever reads the plain form
has one case to think of.

A schema also fixes which of several problems is told. Those with the fields of an object that are
there come first, in the order of their names; then those that are missing, in the order of the
schema.
-/

namespace LangHost

/-- Where a field of a record may be left out. -/
inductive Absence where
  | nowhere
  /-- It may be left out of an object, but has its place in an array. -/
  | ofObject
  /-- It may also be left out at the end of an array. -/
  | anywhere
  deriving DecidableEq

mutual

/-- The values that can stand somewhere. -/
inductive Schema where
  | any
  | bool
  /-- An integer from `lo` to `hi`, the type of which has the given name. -/
  | integer (lo hi : Int) (type : String)
  /-- A number of any kind. -/
  | number (type : String)
  | text
  /-- A resource identifier. -/
  | uri
  /-- One of some words. -/
  | word (known : List String)
  /-- `null`, or a value of a schema. -/
  | nullable (schema : Schema)
  /-- A truth value, or a value of a schema. -/
  | flagOr (schema : Schema)
  | list (item : Schema)
  /-- A list of the given length. -/
  | tuple (length : Nat) (item : Schema)
  /-- An object with any fields, the names of which conform to a schema too. -/
  | dictionary (name value : Schema)
  /-- A value of the first of several schemas that it conforms to. -/
  | variant (type : String) (schemas : List Schema)
  /-- A record that tells in one of its fields which of several it is, by a word or by an index. -/
  | tagged (tag : String) (records : List RecordField)
  /-- A record. -/
  | record (type : String) (fields : List RecordField)
  /-- A record that has other records spread out among its own fields. -/
  | spread (type : String) (fields : List RecordField) (parts : List (List RecordField))
  /-- A record that may have further fields of one schema. -/
  | extensible (type : String) (fields : List RecordField) (more : Schema)

/-- A field of a record. -/
inductive RecordField where
  | mk (name : String) (schema : Schema) (absence : Absence)

end

namespace RecordField

def name : RecordField → String
  | mk name _ _ => name

def absence : RecordField → Absence
  | mk _ _ absence => absence

/-- Looks for a field that is missing among those given. -/
def requireAll (fields : List RecordField) (given : List (String × Json)) :
    Except DecodeError Unit :=
  match fields.find? fun f => f.absence = .nowhere ∧ given.all (·.1 ≠ f.name) with
  | none => .ok ()
  | some f => .error (.missing f.name)

/-- The plain forms of those entries of an object that are fields, none of the required ones
missing. The plain form of an entry is `none` when it is no field. -/
def collect (fields : List RecordField) (conform : String → Json → Except DecodeError (Option Json))
    (entries : List (String × Json)) : Except DecodeError (List (String × Json)) := do
  let given ← entries.filterMapM fun (name, v) => return (← conform name v).map fun w => (name, w)
  requireAll fields given
  return given

end RecordField

mutual

/-- The plain form of a value that conforms to a schema. A value that was `buffered` is a part of
a larger one that was read before it was known what it is. -/
def Schema.conform (buffered : Bool) : Schema → Json → Except DecodeError Json
  | .any, v => .ok v
  | .bool, v => (Decode.bool v).map .bool
  | .integer lo hi type, v => (Decode.integer lo hi type v).map .int
  | .number type, v =>
    match v with
    | .int _ => .ok v
    | .float _ => .ok v
    | _ => .error (.wrongType v.shape type)
  | .text, v => (Decode.text v).map .str
  | .uri, v => (Decode.uri v).map .str
  | .word known, v => (Decode.word known v).map .str
  | .nullable s, v =>
    match v with
    | .null => .ok .null
    | v => s.conform buffered v
  | .flagOr s, v =>
    match v with
    | .bool b => .ok (.bool b)
    | v => s.conform buffered v
  | .list s, v => (Decode.list (fun item => s.conform buffered item) v).map .arr
  | .tuple n s, v =>
    match v with
    | .arr items =>
      if items.length = n then (items.mapM fun item => s.conform buffered item).map .arr
      else .error (.tooLong items.length)
    | _ => .error (.wrongType v.shape ("an array of length " ++ toString n))
  | .dictionary name value, v =>
    match v with
    | .obj entries =>
      (entries.mapM fun (k, w) => do
        let _ ← name.conform buffered (.str k)
        return (k, ← value.conform buffered w)).map .obj
    | _ => .error (.wrongType v.shape "a map")
  | .variant type schemas, v =>
    match Schema.firstMatch schemas v with
    | some w => .ok w
    | none => .error (.noVariant type)
  | .tagged tag records, v =>
    let known := records.map RecordField.name
    match v with
    | .obj entries =>
      match entries.lookup tag with
      | none => .error (.missing tag)
      | some t => do
        let word ← Decode.choice known t
        let w ← RecordField.conform true word (.obj (entries.filter (·.1 ≠ tag))) records
        return w.getD .null
    | .arr [] => .error (.missing tag)
    | .arr (t :: items) => do
      let word ← Decode.choice known t
      let w ← RecordField.conform true word (.arr items) records
      return w.getD .null
    | _ => .error (.wrongType v.shape "a map")
  | .record type fields, v =>
    match v with
    | .arr items => do
      let (given, rest) ←
        RecordField.conformItems buffered type fields.length 0 fields items
      if rest.isEmpty then return Json.ofFields given
      else if buffered then .error (.tooLongPart items.length fields.length)
      else .error (.tooLong items.length)
    | .obj entries =>
      (RecordField.collect fields (fun k w => RecordField.conform buffered k w fields) entries).map .obj
    | _ => .error (.wrongType v.shape ("struct " ++ type))
  | .spread type fields parts, v =>
    match v with
    | .obj entries => do
      let given ←
        RecordField.collect fields (fun k w => RecordField.conform buffered k w fields) entries
      return Json.ofFields (given ++ (← RecordField.conformParts parts entries))
    | _ => .error (.wrongType v.shape ("struct " ++ type))
  | .extensible type fields more, v =>
    match v with
    | .obj entries => do
      let given ←
        RecordField.collect fields (fun k w => RecordField.conform buffered k w fields) entries
      let others := entries.filter fun e => fields.all (·.name ≠ e.1)
      let rest ← others.mapM fun (k, w) => return (k, ← more.conform true w)
      return Json.ofFields (given ++ rest)
    | _ => .error (.wrongType v.shape ("struct " ++ type))

/-- The plain form of a value by the first schema that it conforms to. -/
def Schema.firstMatch : List Schema → Json → Option Json
  | [], _ => none
  | s :: rest, v =>
    match s.conform true v with
    | .ok w => some w
    | .error _ => Schema.firstMatch rest v

/-- The plain form of the value of a field, if there is a field of that name. -/
def RecordField.conform (buffered : Bool) (name : String) (v : Json) :
    List RecordField → Except DecodeError (Option Json)
  | [] => .ok none
  | .mk n schema _ :: rest =>
    if n = name then (schema.conform buffered v).map some
    else RecordField.conform buffered name v rest

/-- The plain forms of the first items of an array, one for each field, and the other items. The
first of these fields has the given index in its record. -/
def RecordField.conformItems (buffered : Bool) (type : String) (count index : Nat) :
    List RecordField → List Json → Except DecodeError (List (String × Json) × List Json)
  | [], items => .ok ([], items)
  | .mk _ _ absence :: rest, [] =>
    if absence = .anywhere then RecordField.conformItems buffered type count (index + 1) rest []
    else .error (.tooShort index type count)
  | .mk name schema _ :: rest, v :: items => do
    let w ← schema.conform buffered v
    let (given, left) ← RecordField.conformItems buffered type count (index + 1) rest items
    return ((name, w) :: given, left)

/-- The plain forms of the entries of an object that are fields of records spread out in it. -/
def RecordField.conformParts : List (List RecordField) → List (String × Json) →
    Except DecodeError (List (String × Json))
  | [], _ => .ok []
  | fields :: rest, entries => do
    let given ← RecordField.collect fields (fun k w => RecordField.conform true k w fields) entries
    return given ++ (← RecordField.conformParts rest entries)

end

namespace Schema

/-- The plain form of a value that conforms to a schema. -/
def decode (s : Schema) : Decoder Json := s.conform false

/-- A natural number of 32 bits. -/
def u32 : Schema := .integer 0 0xFFFFFFFF "u32"

/-- A whole number of 32 bits with a sign. -/
def i32 : Schema := .integer (-0x80000000) 0x7FFFFFFF "i32"

end Schema

namespace RecordField

/-- A field that has to be there. -/
def must (name : String) (schema : Schema) : RecordField := mk name schema .nowhere

/-- A field that may be `null`, and that may be left out of an object. -/
def may (name : String) (schema : Schema) : RecordField := mk name (.nullable schema) .ofObject

/-- A field that may be left out of an object and at the end of an array. -/
def spare (name : String) (schema : Schema) : RecordField := mk name schema .anywhere

end RecordField

end LangHost
