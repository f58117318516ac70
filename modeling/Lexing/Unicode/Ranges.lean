/-!
Sets of code points, written as increasing lists of closed ranges.
-/

namespace Lexing.Unicode

/-- Whether a number lies in one of the ranges; the search stops at the first range above it. -/
def inRanges : List (Nat × Nat) → Nat → Bool
  | [], _ => false
  | (low, high) :: ranges, n =>
    if n < low then false else if n ≤ high then true else inRanges ranges n

end Lexing.Unicode
