import LangHost.Json.Basic
/-!
# Numbers

A number without fraction and exponent that fits 64 bits, signed or unsigned, is an integer. Every
other number is a floating-point number: as many of its leading digits as fit an unsigned 64-bit
word, scaled by one power of ten.
-/

namespace LangHost.Json.Number

/-- The parts of a spelled number. -/
structure Parts where
  negative : Bool
  whole : List Char
  fraction : Option (List Char)
  exponent : Option Int

/-- The value of a run of decimal digits. -/
def ofDigits (ds : List Char) : Nat := ds.foldl (fun n d => n * 10 + (d.toNat - 48)) 0

/-- A nonempty run of digits at the start of a text, and what follows it. -/
def digits? (cs : List Char) : Option (List Char × List Char) :=
  let ds := cs.takeWhile Char.isDigit
  if ds.isEmpty then none else some (ds, cs.dropWhile Char.isDigit)

/-- The exponent at the start of a text, if there is one, and what follows it. -/
def exponent? (cs : List Char) : Option (Option Int × List Char) :=
  let signed (sign : Int) (cs : List Char) : Option (Option Int × List Char) :=
    (digits? cs).map fun (ds, rest) => (some (sign * ofDigits ds), rest)
  match cs with
  | 'e' :: '-' :: rest | 'E' :: '-' :: rest => signed (-1) rest
  | 'e' :: '+' :: rest | 'E' :: '+' :: rest => signed 1 rest
  | 'e' :: rest | 'E' :: rest => signed 1 rest
  | cs => some (none, cs)

/-- The fraction at the start of a text, if there is one, and what follows it. -/
def fraction? : List Char → Option (Option (List Char) × List Char)
  | '.' :: rest => (digits? rest).map fun (ds, rest) => (some ds, rest)
  | cs => some (none, cs)

/-- The parts of a number, if the text spells one. Its whole part has no needless zero in front. -/
def parts? (cs : List Char) : Option Parts := do
  let (negative, cs) := match cs with
    | '-' :: rest => (true, rest)
    | cs => (false, cs)
  let (whole, cs) ← digits? cs
  if 1 < whole.length ∧ whole.head? = some '0' then none
  let (fraction, cs) ← fraction? cs
  let (exponent, cs) ← exponent? cs
  if cs.isEmpty then some ⟨negative, whole, fraction, exponent⟩ else none

/-- Digits added to a word for as long as it stays below `2^64`, and the digits left over. -/
def fill (word : Nat) : List Char → Nat × List Char
  | [] => (word, [])
  | d :: ds =>
    let next := word * 10 + (d.toNat - 48)
    if next ≤ 0xFFFFFFFFFFFFFFFF then fill next ds else (word, d :: ds)

/-- A floating-point number times a power of ten, unless it is too large. An exponent below the
least power of ten is taken in steps. -/
def scale (f : Float) (e : Int) : (steps : Nat) → Option Float
  | 0 => some 0
  | steps + 1 =>
    if e ≥ 0 then
      if f == 0 then some f
      else if e > 308 then none
      else
        let g := f * Float.ofScientific 1 false e.toNat
        if g.isInf then none else some g
    else if e ≥ -308 then some (f / Float.ofScientific 1 false e.natAbs)
    else if f == 0 then some f
    else scale (f / Float.ofScientific 1 false 308) (e + 308) steps

/-- The floating-point number of the given parts. -/
def Parts.toFloat? (p : Parts) : Option Json := do
  let (word, left) := fill 0 p.whole
  let fraction := p.fraction.getD []
  let (word, dropped) := if left.isEmpty then fill word fraction else (word, fraction)
  let e : Int := left.length - (fraction.length - dropped.length : Nat) + p.exponent.getD 0
  let f ← scale word.toUInt64.toFloat e 4
  some (.float (if p.negative then -f else f).toBits)

/-- The number of the given parts. -/
def Parts.toJson? (p : Parts) : Option Json :=
  let n := ofDigits p.whole
  if p.fraction.isSome || p.exponent.isSome then p.toFloat?
  else if p.negative then
    if 0 < n ∧ n ≤ 0x8000000000000000 then some (.int (-n)) else p.toFloat?
  else if n ≤ 0xFFFFFFFFFFFFFFFF then some (.int n)
  else p.toFloat?

/-- The number that a text spells. -/
def ofSpelling? (cs : List Char) : Option Json := (parts? cs).bind Parts.toJson?

end LangHost.Json.Number
