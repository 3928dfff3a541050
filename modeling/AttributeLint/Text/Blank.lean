import AttributeLint.Text.CodeRanges

/-!
# Blank — white space and trimming

The twenty-five code points of the Unicode property White_Space, and the text that is left when
they are cut off at the ends.
-/

namespace AttributeLint.Text

/-- The ranges of the Unicode property White_Space. -/
def blankRanges : CodeRanges :=
  [(0x9, 0xd), (0x20, 0x20), (0x85, 0x85), (0xa0, 0xa0), (0x1680, 0x1680), (0x2000, 0x200a),
    (0x2028, 0x2029), (0x202f, 0x202f), (0x205f, 0x205f), (0x3000, 0x3000)]

/-- The character has the Unicode property White_Space. -/
def isBlank (c : Char) : Bool :=
  blankRanges.contains c

/-- The text without the characters in front of the first one that fails `p`, and without those
after the last one. -/
def strip (p : Char → Bool) (cs : List Char) : List Char :=
  ((cs.dropWhile p).reverse.dropWhile p).reverse

/-- The text without its trailing characters that satisfy `p`. -/
def stripEnd (p : Char → Bool) (cs : List Char) : List Char :=
  (cs.reverse.dropWhile p).reverse

/-- The string without the white space at its ends. -/
def trim (s : String) : String :=
  String.ofList (strip isBlank s.toList)

end AttributeLint.Text
