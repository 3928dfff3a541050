/-!
# CodeRanges — sets of code points as ranges

A character class of Unicode is kept as its ranges of code points in increasing order, so a
look-up stops at the first range that begins above the character asked for.
-/

namespace AttributeLint.Text

/-- A set of code points: disjoint closed ranges in increasing order. -/
abbrev CodeRanges := List (Nat × Nat)

namespace CodeRanges

/-- The code point `n` lies in one of the ranges. -/
def containsCode : CodeRanges → Nat → Bool
  | [], _ => false
  | (low, high) :: rest, n =>
    if n < low then false else if n ≤ high then true else containsCode rest n

/-- The character's code point lies in one of the ranges. -/
def contains (ranges : CodeRanges) (c : Char) : Bool :=
  containsCode ranges c.toNat

end CodeRanges

end AttributeLint.Text
