/-!
# Sets of code points given by ranges

A character property of the Unicode standard is kept as the list of the ranges that it covers, both ends
included. The tables that use this form follow Unicode 14.
-/

namespace ComponentTags

/-- A character lies in a table of ranges if one of its ranges covers the character's code point. -/
def inRanges (ranges : List (Nat × Nat)) (c : Char) : Bool :=
  ranges.any fun r => r.1 ≤ c.toNat && c.toNat ≤ r.2

end ComponentTags
