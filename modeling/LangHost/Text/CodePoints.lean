/-!
# Sets of code points

A character class is a list of inclusive ranges of code points in ascending order.
-/

namespace LangHost.Text

/-- Whether a code point lies in one of the ranges. They ascend, so the search ends at the first
range that starts above it. -/
def covers : List (Nat × Nat) → Nat → Bool
  | [], _ => false
  | (lo, hi) :: rest, n => if n < lo then false else decide (n ≤ hi) || covers rest n

end LangHost.Text
