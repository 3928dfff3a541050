import AttributeLint.Rule
import AttributeLint.Text.Blank

/-!
# Definition — rules as they are written, and what makes them valid

A definition holds what a rule file says about one rule. It becomes a rule when it has an
identifier, names an attribute, and uses no placeholder but the two that a violation fills.
-/

namespace AttributeLint

/-- A rule as a rule file writes it. -/
structure RuleDefinition where
  id : String
  title : String
  messageFormat? : Option String
  category? : Option String
  severity : Severity
  enabled : Bool
  attributeName : String
  disallowed : List Char
  positionMode : PositionMode
  malformed : MalformedPolicy
  deriving DecidableEq, Repr

/-- Why a rule file gives no rules. -/
inductive RuleError where
  | emptyId
  | emptyAttribute (id : String)
  | unknownPlaceholder (id : String) (number : Nat)
  /-- The file is no TOML, or its values are not those of rules. -/
  | malformedFile
  deriving DecidableEq, Repr

/-- The wording of the error. -/
def RuleError.message : RuleError → String
  | .emptyId => "rule id must not be empty"
  | .emptyAttribute id => "rule '" ++ id ++ "' has no attribute name"
  | .unknownPlaceholder id number =>
    "rule '" ++ id ++ "' uses placeholder \x7b" ++ toString number ++
      "\x7d; only \x7b0\x7d and \x7b1\x7d are available"
  | .malformedFile => "failed to parse rule file"

namespace RuleDefinition

/-- The greatest placeholder that a violation fills. -/
def lastPlaceholder : Nat := 1

/-- The rule that a definition describes. -/
def toRule (d : RuleDefinition) : Except RuleError Rule :=
  let id := Text.trim d.id
  if id = "" then .error .emptyId
  else if Text.trim d.attributeName = "" then .error (.emptyAttribute id)
  else
    let messageFormat := d.messageFormat?.getD Descriptor.defaultMessageFormat
    match (Message.maxPlaceholder messageFormat).filter (lastPlaceholder < ·) with
    | some number => .error (.unknownPlaceholder id number)
    | none =>
      .ok
        { descriptor :=
            { id
              title := d.title
              messageFormat
              category := d.category?.getD Descriptor.defaultCategory
              severity := d.severity }
          attributeName := .ofName d.attributeName
          disallowed := .ofList d.disallowed
          positionMode := d.positionMode
          malformed := d.malformed
          enabled := d.enabled }

end RuleDefinition

end AttributeLint
