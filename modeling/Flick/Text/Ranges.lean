/-!
# Ranges of characters

A property of characters is held as the list of the code point ranges
that have it.
-/

namespace Flick.Text

/-- Ranges of code points, each given by its first and its last one. -/
abbrev Ranges := List (Nat × Nat)

/-- Whether a character lies in one of the ranges. -/
def Ranges.contains (ranges : Ranges) (c : Char) : Bool :=
  List.any ranges fun range => range.1 ≤ c.toNat && c.toNat ≤ range.2

end Flick.Text
