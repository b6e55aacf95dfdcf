import Flick.Text.Ranges

/-!
# Trimmed text

The characters of white space are those with the Unicode property of that
name.  A text is trimmed by leaving out those that it ends with.
-/

namespace Flick.Text

/-- The code points of white space. -/
def whiteRanges : Ranges :=
  [(0x9, 0xd), (0x20, 0x20), (0x85, 0x85), (0xa0, 0xa0), (0x1680, 0x1680), (0x2000, 0x200a),
    (0x2028, 0x2029), (0x202f, 0x202f), (0x205f, 0x205f), (0x3000, 0x3000)]

/-- The text without the white space at its end. -/
def trimEnd (text : String) : String :=
  String.ofList (text.toList.reverse.dropWhile whiteRanges.contains).reverse

end Flick.Text
