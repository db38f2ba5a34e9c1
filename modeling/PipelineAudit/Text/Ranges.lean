/-!
# Ranges of code points

A class of characters is given by an increasing list of closed ranges of code points. Membership
walks the list and stops at the first range that starts above the character, so common characters
are decided after a few comparisons.
-/

namespace PipelineAudit.Text

/-- Closed ranges of code points, in increasing order and without overlap. -/
abbrev Ranges := List (Nat × Nat)

/-- Whether a code point lies in one of the ranges. -/
def Ranges.contains : Ranges → Nat → Bool
  | [], _ => false
  | (lo, hi) :: rest, n => if n < lo then false else n ≤ hi || Ranges.contains rest n

/-- Whether the ranges are increasing and apart, which `Ranges.contains` relies on. -/
def Ranges.sorted : Ranges → Bool
  | [] => true
  | [(lo, hi)] => lo ≤ hi
  | (lo, hi) :: (lo', hi') :: rest => lo ≤ hi && hi < lo' && Ranges.sorted ((lo', hi') :: rest)

end PipelineAudit.Text
