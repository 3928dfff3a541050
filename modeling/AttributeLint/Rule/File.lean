import AttributeLint.Rule.Definition
import AttributeLint.Toml.Document
import AttributeLint.Toml.Faultless

/-!
# File — rules from the text of a rule file

A rule file is a TOML document whose array `rules` holds the definitions; other keys at the top mean
nothing, but their numbers must not be faulty. A definition is a table with keys of its own and no
others, or an array with the values of these keys in their fixed order, behind which anything may
follow. A file gives all of its rules or none.
-/

namespace AttributeLint.RuleFile

open Toml

/-- The string that a value is. -/
def string? : Value → Option String
  | .string text => some text
  | _ => none

/-- The truth value that a value is. -/
def boolean? : Value → Option Bool
  | .boolean b => some b
  | _ => none

/-- The character that a value is: a string of one character. -/
def character? : Value → Option Char
  | .string text =>
    match text.toList with
    | [c] => some c
    | _ => none
  | _ => none

/-- The characters in an array. -/
def characters? : Value → Option (List Char)
  | .array items => items.mapM character?
  | _ => none

/-- The value is an empty table or an empty array. -/
def isEmptyCollection : Value → Bool
  | .array [] | .table _ [] => true
  | _ => false

/-- The word of an enumeration that a value is: a string, or a table with the word as its only key
and nothing under it. -/
def word? {α : Type} (ofWord? : String → Option α) : Value → Option α
  | .string text => ofWord? text
  | .table _ [(key, value)] => if isEmptyCollection value then ofWord? key else none
  | _ => none

/-- The keys of a definition, in the order in which an array gives their values. -/
def keys : List String :=
  ["id", "title", "message_format", "category", "severity", "enabled", "attribute",
    "disallowed_characters", "position_mode", "malformed"]

/-- What a table has under a key that it must have. -/
def required? {α : Type} (read : Value → Option α) (table : Table) (key : String) : Option α :=
  (table.lookup key).bind read

/-- What a table has under a key that it may leave out. -/
def optional? {α : Type} (read : Value → Option α) (table : Table) (key : String) :
    Option (Option α) :=
  match table.lookup key with
  | none => some none
  | some value => (read value).map some

/-- The definition in a table. -/
def ofTable? (table : Table) : Option RuleDefinition :=
  if table.all fun entry => keys.contains entry.1 then do
    let id ← required? string? table "id"
    let title ← required? string? table "title"
    let messageFormat? ← optional? string? table "message_format"
    let category? ← optional? string? table "category"
    let severity? ← optional? (word? Severity.ofWord?) table "severity"
    let enabled? ← optional? boolean? table "enabled"
    let attributeName ← required? string? table "attribute"
    let disallowed ← required? characters? table "disallowed_characters"
    let positionMode? ← optional? (word? PositionMode.ofWord?) table "position_mode"
    let malformed? ← optional? (word? MalformedPolicy.ofWord?) table "malformed"
    some
      { id, title, messageFormat?, category?, attributeName, disallowed
        severity := severity?.getD .warning
        enabled := enabled?.getD true
        positionMode := positionMode?.getD .violationCount
        malformed := malformed?.getD .skip }
  else none

/-- The definition that a value is. -/
def definition? : Value → Option RuleDefinition
  | .table _ table => ofTable? table
  | .array items => ofTable? (keys.zip items)
  | _ => none

/-- The definitions in the table of a document. -/
def definitions? (document : Table) : Option (List RuleDefinition) :=
  if document.all fun entry => entry.1 = "rules" || entry.2.isFaultless then
    match document.lookup "rules" with
    | none => some []
    | some (.array items) => items.mapM definition?
    | some (.tables tables) => tables.mapM ofTable?
    | some _ => none
  else none

/-- The rules in the text of a rule file. A fault of the text comes before any fault of a
definition, and of the latter the first one counts. -/
def rules (text : String) : Except RuleError (List Rule) :=
  match (document? text).bind definitions? with
  | none => .error .malformedFile
  | some definitions => definitions.mapM RuleDefinition.toRule

end AttributeLint.RuleFile
