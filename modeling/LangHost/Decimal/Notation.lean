import LangHost.Decimal.Shortest
/-!
# Notation of floating-point numbers

How the digits of a number are laid out. A number keeps a decimal point or an exponent, so that it
is never taken for an integer.
-/

namespace LangHost.Decimal

/-- The decisions of a layout: the decimal exponents written without an exponent, and the least
number of digits of an exponent. -/
structure Layout where
  leastPositional : Int
  greatestPositional : Int
  exponentDigits : Nat

/-- Numbers from `10^-5` up to `10^16` are written positionally; the exponent of the others has a
sign and no zeros before it. -/
def Layout.plain : Layout := ⟨-5, 15, 1⟩

/-- A number with zeros before it up to the given length. -/
def padded (length n : Nat) : List Char :=
  let ds := Nat.toDigits 10 n
  List.replicate (length - ds.length) '0' ++ ds

/-- The digits without the zeros at their end. -/
def withoutFinalZeros (ds : List Char) : List Char := (ds.reverse.dropWhile (· == '0')).reverse

/-- A decimal in the given layout. -/
def Layout.write (l : Layout) (d : Digits) : List Char :=
  let all := Nat.toDigits 10 d.digits
  let ds := withoutFinalZeros all
  let top : Int := d.exponent + all.length - 1
  if l.leastPositional ≤ top ∧ top ≤ l.greatestPositional then
    match top with
    | .ofNat k =>
      let whole := ds.take (k + 1)
      let fraction := ds.drop (k + 1)
      whole ++ List.replicate (k + 1 - whole.length) '0' ++
        '.' :: (if fraction.isEmpty then ['0'] else fraction)
    | .negSucc k => '0' :: '.' :: (List.replicate k '0' ++ ds)
  else
    let mark := if top < 0 then ['e', '-'] else ['e', '+']
    let fraction := ds.drop 1
    ds.take 1 ++ (if fraction.isEmpty then [] else '.' :: fraction) ++
      mark ++ padded l.exponentDigits top.natAbs

/-- The text of a 64-bit floating-point number, given by its bits. -/
def render (bits : UInt64) : String :=
  let n := bits.toNat
  let sign := if 0x8000000000000000 ≤ n then ['-'] else []
  let exponent := n / 0x10000000000000 % 0x800
  let fraction := n % 0x10000000000000
  if exponent = 0 ∧ fraction = 0 then String.ofList (sign ++ ['0', '.', '0'])
  else String.ofList (sign ++ Layout.plain.write (Binary.ofFields exponent fraction).shortest)

end LangHost.Decimal
