import AttributeLint.Extraction
import AttributeLint.Rule
import AttributeLint.Text.Digits

/-!
# Scan — the violations in a string

Scanning looks at each character of a string once and records those that the rule does not allow,
in the order of the string.

A violation is placed at the start of a declaration plus a count. The start may come from another
front end, and both are words of 64 bits, so their sum may be too large for a word. `scan` places
violations at the sum of the numbers. `scan?` adds words and checks the addition: when a sum
overflows, the scan ends there and has no result. Wherever all sums fit into words the two agree
(`Scan.scan?_eq`).
-/

namespace AttributeLint

/-- One disallowed character. -/
structure Violation where
  file : FileId
  /-- The byte offset that is reported, a number without a bound here and a word where additions
  are checked. -/
  position : Nat
  character : Char
  /-- The whole string that contains the character. -/
  text : String
  /-- The index of the character in the string. -/
  index : Nat
  deriving DecidableEq, Repr

/-- A scan that was stopped after some of its strings. -/
structure ScanCancelled where
  completed : Nat
  total : Nat
  deriving DecidableEq, Repr

/-- The wording of a stopped scan. -/
def ScanCancelled.message (e : ScanCancelled) : String :=
  "scan cancelled after " ++ toString e.completed ++ " of " ++ toString e.total ++ " occurrences"

namespace Scan

/-- The distance of a violation from the start of its declaration, given its number among the
violations of the string and the index of its character. -/
def offset : PositionMode → (number index : Nat) → Nat
  | .violationCount, number, _ => number
  | .characterIndex, _, index => index

/-- The violations among the characters that are left, the first of which has the given index;
`number` violations stand before them. -/
def scanFrom (rule : Rule) (o : Occurrence) (number index : Nat) : List Char → List Violation
  | [] => []
  | c :: cs =>
    if rule.disallows c then
      { file := o.file
        position := o.targetStart + offset rule.positionMode number index
        character := c
        text := o.text
        index } ::
        scanFrom rule o (number + 1) (index + 1) cs
    else scanFrom rule o number (index + 1) cs

/-- The place at a distance from the start of a declaration, unless a word of 64 bits cannot hold
it. -/
def place? (start distance : Nat) : Option Nat :=
  if start + distance ≤ Text.maxNumber then some (start + distance) else none

/-- The violations that `scanFrom` finds, with checked addition of places. -/
def scanFrom? (rule : Rule) (o : Occurrence) (number index : Nat) :
    List Char → Option (List Violation)
  | [] => some []
  | c :: cs =>
    if rule.disallows c then do
      let position ← place? o.targetStart (offset rule.positionMode number index)
      let rest ← scanFrom? rule o (number + 1) (index + 1) cs
      return { file := o.file, position, character := c, text := o.text, index } :: rest
    else scanFrom? rule o number (index + 1) cs

/-- The violations of one string. -/
def scan (rule : Rule) (o : Occurrence) : List Violation :=
  scanFrom rule o 0 0 o.text.toList

/-- The violations of several strings, one string after the other. -/
def scanAll (rule : Rule) (os : List Occurrence) : List Violation :=
  os.flatMap (scan rule)

/-- The violations of one string, unless an addition overflows. -/
def scan? (rule : Rule) (o : Occurrence) : Option (List Violation) :=
  scanFrom? rule o 0 0 o.text.toList

/-- The violations of several strings, unless an addition overflows. -/
def scanAll? (rule : Rule) (os : List Occurrence) : Option (List Violation) :=
  (os.mapM (scan? rule)).map List.flatten

/-- The violations of several strings, unless the scan is found cancelled before one of them;
`cancelled n` tells whether it is when `n` strings are done. -/
def scanCancellable (rule : Rule) (cancelled : Nat → Bool) (os : List Occurrence) :
    Except ScanCancelled (List Violation) :=
  go 0 os
where
  /-- Scans the strings that are left after `completed` of them. -/
  go (completed : Nat) : List Occurrence → Except ScanCancelled (List Violation)
    | [] => .ok []
    | o :: rest =>
      if cancelled completed then .error { completed, total := os.length }
      else (go (completed + 1) rest).map (scan rule o ++ ·)

end Scan

end AttributeLint
