import AttributeLint.Text.Blank
import AttributeLint.Text.Cut

/-!
# AttributeName — an attribute and the names that refer to it

An attribute class is declared under a full name such as `ErrorAttribute`; in source it may be
written without the ending `Attribute`, and with any qualifier. Only the last segment of a name
counts on either side.
-/

namespace AttributeLint

open Text

/-- The last segment of a qualified name: the trimmed text after the last `::` and then after the
last point. -/
def lastSegment (name : String) : String :=
  String.ofList (afterLast ['.'] (afterLast [':', ':'] (strip isBlank name.toList)))

/-- The ending that a use of an attribute may leave out. -/
def attributeEnding : List Char :=
  ['A', 't', 't', 'r', 'i', 'b', 'u', 't', 'e']

/-- The text before `ending`, if the text has that ending. -/
def beforeEnding? (ending cs : List Char) : Option (List Char) :=
  (after? ending.reverse cs.reverse).map List.reverse

/-- The full name of an attribute and its short name, if leaving the ending out leaves one. -/
structure AttributeName where
  full : String
  short? : Option String
  deriving DecidableEq, Repr

namespace AttributeName

/-- The attribute with the given name, qualified or not. -/
def ofName (name : String) : AttributeName :=
  let full := lastSegment name
  { full
    short? := ((beforeEnding? attributeEnding full.toList).filter (!·.isEmpty)).map String.ofList }

/-- The name as written in source refers to the attribute. -/
def isWrittenAs (a : AttributeName) (written : String) : Bool :=
  let name := lastSegment written
  name = a.full || a.short? = some name

end AttributeName

end AttributeLint
