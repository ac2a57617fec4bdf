/-!
# Shortest decimals

The fewest decimal digits that tell a 64-bit binary floating-point number from its neighbours, and
of the decimals with that many digits the one nearest to it. All arithmetic is exact, on naturals.

A positive number `m · 2^q` is read back from every decimal inside its rounding interval, which
reaches half way to each neighbour and contains its ends exactly when `m` is even.
-/

namespace LangHost.Decimal

/-- A non-negative rational number `num / den`. -/
structure Ratio where
  num : Nat
  den : Nat

/-- Whether the first ratio is less than the second. -/
def Ratio.lt (a b : Ratio) : Bool := decide (a.num * b.den < b.num * a.den)

/-- The distance between two ratios. -/
def Ratio.dist (a b : Ratio) : Ratio :=
  ⟨(a.num * b.den - b.num * a.den) + (b.num * a.den - a.num * b.den), a.den * b.den⟩

/-- The ratio `n · base ^ e`. -/
def Ratio.scaled (n base : Nat) (e : Int) : Ratio :=
  match e with
  | .ofNat k => ⟨n * base.pow k, 1⟩
  | .negSucc k => ⟨n, base.pow (k + 1)⟩

/-- The digits of a decimal: `digits · 10 ^ exponent`. -/
structure Digits where
  digits : Nat
  exponent : Int

/-- The ratio that a decimal stands for. -/
def Digits.ratio (d : Digits) : Ratio := .scaled d.digits 10 d.exponent

/-- A positive binary number `mantissa · 2 ^ exponent`; `lowGap` says that the neighbour below is
only half a step away. -/
structure Binary where
  mantissa : Nat
  exponent : Int
  lowGap : Bool

/-- The ratio that a binary number stands for. -/
def Binary.ratio (b : Binary) : Ratio := .scaled b.mantissa 2 b.exponent

/-- Whether a decimal reads back as the binary number. -/
def Binary.reads (b : Binary) (r : Ratio) : Bool :=
  let low := Ratio.scaled (4 * b.mantissa - if b.lowGap then 1 else 2) 2 (b.exponent - 2)
  let high := Ratio.scaled (4 * b.mantissa + 2) 2 (b.exponent - 2)
  if b.mantissa % 2 = 0 then !r.lt low && !high.lt r else low.lt r && r.lt high

/-- The greatest `k` with `10 ^ k ≤ r`, looked for downwards from `k`. -/
def Ratio.magnitude (r : Ratio) : (steps : Nat) → (k : Int) → Int
  | 0, k => k
  | steps + 1, k => if r.lt (.scaled 1 10 k) then r.magnitude steps (k - 1) else k

/-- The decimal with `n` digits nearest to the number among those that read back. -/
def Binary.withDigits? (b : Binary) (top : Int) (n : Nat) : Option Digits :=
  let e := top + 1 - n
  let step := Ratio.scaled 1 10 e
  let down : Digits := ⟨b.ratio.num * step.den / (b.ratio.den * step.num), e⟩
  let up : Digits := ⟨down.digits + 1, e⟩
  match b.reads down.ratio, b.reads up.ratio with
  | true, true =>
    let above := up.ratio.dist b.ratio
    let below := down.ratio.dist b.ratio
    some (if above.lt below || (!below.lt above && down.digits % 2 == 1) then up else down)
  | true, false => some down
  | false, true => some up
  | false, false => none

/-- The shortest decimal that reads back as the number; seventeen digits always do. -/
def Binary.shortest (b : Binary) : Digits :=
  let top := b.ratio.magnitude 640 309
  ((List.range 17).findSome? fun n => b.withDigits? top (n + 1)).getD ⟨b.mantissa, 0⟩

/-- A positive finite number taken apart, from its exponent field and its fraction field. -/
def Binary.ofFields (exponent fraction : Nat) : Binary where
  mantissa := if exponent = 0 then fraction else fraction + 0x10000000000000
  exponent := Int.ofNat (max exponent 1) - 1075
  lowGap := fraction == 0 && decide (1 < exponent)

end LangHost.Decimal
