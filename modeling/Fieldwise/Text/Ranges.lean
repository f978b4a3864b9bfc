/-!
# Sets of code points as sorted ranges

A property of characters is given by the closed ranges of code points that have it, in increasing
order. Membership walks the ranges and stops at the first one that begins past the point. A table of
ranges is written as the lengths of its runs: so many points without the property, so many with it.
-/

namespace Fieldwise.Text

/-- Closed ranges of code points, sorted and apart from each other. -/
abbrev Ranges := List (Nat × Nat)

/-- The ranges that begin at a point or later, from how many points to skip and to take in turn. -/
def Ranges.ofRuns (point : Nat) : List Nat → Ranges
  | skip :: take :: rest => (point + skip, point + skip + take - 1) :: ofRuns (point + skip + take) rest
  | _ => []

/-- Whether a code point lies in one of the ranges. -/
def Ranges.contains : Ranges → Nat → Bool
  | [], _ => false
  | (lo, hi) :: rest, point =>
    if point < lo then false else if point ≤ hi then true else Ranges.contains rest point

/-- The ranges are nonempty, sorted, and at least one point apart. -/
def Ranges.Sorted : Ranges → Prop
  | [] => True
  | [(lo, hi)] => lo ≤ hi
  | (lo, hi) :: (lo', hi') :: rest => lo ≤ hi ∧ hi + 1 < lo' ∧ Ranges.Sorted ((lo', hi') :: rest)

end Fieldwise.Text
