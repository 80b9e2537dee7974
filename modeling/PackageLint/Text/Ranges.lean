/-!
# Sorted ranges of code points

Character classes beyond ASCII are tables of inclusive ranges in ascending order. Membership stops
at the first range that starts beyond the code point, which is sound because the tables are sorted.

## Main definitions

* `Ranges`: a table of inclusive ranges.
* `Ranges.holds`: membership in such a table.
-/

namespace PackageLint.Text

/-- A table of inclusive ranges of code points, in ascending order. -/
abbrev Ranges := List (Nat × Nat)

namespace Ranges

/-- Whether a code point lies in one of the ranges. -/
def holds : Ranges → Nat → Bool
  | [], _ => false
  | (low, high) :: rest, n => if n < low then false else n ≤ high || holds rest n

end Ranges

end PackageLint.Text
