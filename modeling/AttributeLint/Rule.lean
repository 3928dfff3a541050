import AttributeLint.AttributeName
import AttributeLint.Diagnostic
import AttributeLint.Text.CharSet

/-!
# Rule — which characters an attribute's string may not contain

A rule names one attribute and the characters that its string may not contain, and says how
violations are reported.
-/

namespace AttributeLint

/-- How the place of a violation is found from the start of the declaration. -/
inductive PositionMode where
  /-- By the number of violations before it in the same string. -/
  | violationCount
  /-- By the index of the character in the string. -/
  | characterIndex
  deriving DecidableEq, Repr

/-- A position mode as it is written. -/
def PositionMode.word : PositionMode → String
  | .violationCount => "violation-count"
  | .characterIndex => "character-index"

/-- The position mode that a word writes. -/
def PositionMode.ofWord? (word : String) : Option PositionMode :=
  [PositionMode.violationCount, .characterIndex].find? (·.word = word)

/-- What happens to usages without a string to check. -/
inductive MalformedPolicy where
  | skip
  | report
  deriving DecidableEq, Repr

/-- A policy as it is written. -/
def MalformedPolicy.word : MalformedPolicy → String
  | .skip => "skip"
  | .report => "report"

/-- The policy that a word writes. -/
def MalformedPolicy.ofWord? (word : String) : Option MalformedPolicy :=
  [MalformedPolicy.skip, .report].find? (·.word = word)

/-- A rule in force. -/
structure Rule where
  descriptor : Descriptor
  attributeName : AttributeName
  disallowed : Text.CharSet
  positionMode : PositionMode
  malformed : MalformedPolicy
  enabled : Bool
  deriving DecidableEq, Repr

namespace Rule

/-- The identifier of the rule. -/
def id (r : Rule) : String :=
  r.descriptor.id

/-- The character may not occur. -/
def disallows (r : Rule) (c : Char) : Bool :=
  r.disallowed.contains c

/-- The rule with another severity. -/
def withSeverity (r : Rule) (severity : Severity) : Rule :=
  { r with descriptor := { r.descriptor with severity } }

/-- The built-in rule: no question mark in the message of an `ErrorAttribute`. -/
def errorAttribute : Rule :=
  { descriptor := .illegalCharacter
    attributeName := .ofName "ErrorAttribute"
    disallowed := .ofList ['?']
    positionMode := .violationCount
    malformed := .skip
    enabled := true }

end Rule

end AttributeLint
