/-!
# ImpSyntax.Unicode.Ranges

Character properties as tables of closed ranges of code points, ascending and apart.
-/

namespace ImpSyntax
namespace Unicode

/-- The table ascends, so a number below a range is in none of the ranges behind it. -/
def inRanges : List (Nat × Nat) → Nat → Bool
  | [], _ => false
  | (low, high) :: ranges, n => if n < low then false else n ≤ high || inRanges ranges n

end Unicode
end ImpSyntax
