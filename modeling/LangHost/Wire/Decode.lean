import LangHost.Feature
import LangHost.Service
import LangHost.Wire.Schema.Basic
/-!
# Features off the wire

Positions, ranges and diagnostics as clients send them. What a client sends is first brought into
the plain form of its schema; the readers below take features out of plain forms, in which an
optional part that is `null` counts as missing.
-/

namespace LangHost

namespace Wire

/-- What a reader finds in the plain form of a value that conforms to a schema. -/
def decodeWith (schema : Schema) (read : Decoder α) : Decoder α := fun v => do
  read (← schema.decode v)

/-- The fields of an object that encodes the type of the given name. -/
def fields (type : String) : Decoder (List (String × Json))
  | .obj fs => .ok fs
  | v => .error (.wrongType v.shape ("struct " ++ type))

/-- A field that has to be there. -/
def required (fs : List (String × Json)) (name : String) (read : Decoder α) :
    Except DecodeError α :=
  match fs.lookup name with
  | some v => read v
  | none => .error (.missing name)

/-- A field that may be missing or `null`. -/
def optional (fs : List (String × Json)) (name : String) (read : Decoder α) :
    Except DecodeError (Option α) :=
  Decode.orDefault (Decode.nullable read) none (fs.lookup name)

/-- A line, a column or another natural number of 32 bits. -/
def nat32 : Decoder Nat := Decode.natural 0xFFFFFFFF "u32"

/-- A whole number of 32 bits with a sign. -/
def int32 : Decoder Int := Decode.integer (-0x80000000) 0x7FFFFFFF "i32"

end Wire

open Wire

def Position.read : Decoder Position := fun v => do
  let fs ← fields "Position" v
  pure ⟨← required fs "line" nat32, ← required fs "character" nat32⟩

def Range.read : Decoder Range := fun v => do
  let fs ← fields "Range" v
  pure ⟨← required fs "start" Position.read, ← required fs "end" Position.read⟩

def Location.read : Decoder Location := fun v => do
  let fs ← fields "Location" v
  pure ⟨← required fs "uri" Decode.text, ← required fs "range" Range.read⟩

def DiagnosticCode.read : Decoder DiagnosticCode
  | .str s => .ok (.text s)
  | v =>
    match int32 v with
    | .ok n => .ok (.number n)
    | .error _ => .error (.noVariant "NumberOrString")

def RelatedInformation.read : Decoder RelatedInformation := fun v => do
  let fs ← fields "DiagnosticRelatedInformation" v
  pure ⟨← required fs "location" Location.read, ← required fs "message" Decode.text⟩

def Diagnostic.read : Decoder Diagnostic := fun v => do
  let fs ← fields "Diagnostic" v
  pure {
    range := ← required fs "range" Range.read
    message := ← required fs "message" Decode.text
    severity := ← optional fs "severity" int32
    code := ← optional fs "code" DiagnosticCode.read
    codeDescription := ← optional fs "codeDescription" fun v => do
      required (← fields "CodeDescription" v) "href" Decode.text
    source := ← optional fs "source" Decode.text
    relatedInformation := ← optional fs "relatedInformation" (Decode.list RelatedInformation.read)
    tags := ← optional fs "tags" (Decode.list int32)
    data := ← optional fs "data" Decode.raw }

/-- A diagnostic as a client sends it. -/
def Diagnostic.decode : Decoder Diagnostic := decodeWith Schemas.diagnostic Diagnostic.read

def FormattingOptions.read : Decoder FormattingOptions := fun v => do
  let fs ← fields "FormattingOptions" v
  pure ⟨← required fs "tabSize" nat32⟩

end LangHost
