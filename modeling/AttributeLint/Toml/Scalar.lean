import AttributeLint.Text.Blank
import AttributeLint.Toml.Lexical

/-!
# Scalar — booleans, numbers and dates of TOML

A scalar without quotes is a run of characters up to a space, a line break or a mark of the format;
tabs belong to it unless they stand at its end. What it is follows from its characters alone. A date
and a time of day may have one space between them. A date must be one of the calendar, but a number
may be faulty: it may lack its digits behind the letter of its base, have something else in its
groups, or be larger than can be held.
-/

namespace AttributeLint.Toml

open Text

/-! ## Numbers -/

/-- The digits without the underscores that stand between two of them. -/
def ungroup? (isDigit : Char → Bool) (cs : List Char) : Option (List Char) :=
  let groups := cs.splitOn '_'
  if groups.all fun g => !g.isEmpty && g.all isDigit then some groups.flatten else none

/-- A digit of the base. -/
def isDigitOf (base : Nat) (c : Char) : Bool :=
  match hexDigit? c with
  | some d => d < base
  | none => false

/-- The sign of a number, true for minus, and what follows it. -/
def sign (cs : List Char) : Bool × List Char :=
  match cs with
  | '-' :: rest => (true, rest)
  | '+' :: rest => (false, rest)
  | rest => (false, rest)

/-- Digits of a whole number: zero stands first only if it stands alone. -/
def whole? (cs : List Char) : Option Nat := do
  let digits ← ungroup? Char.isDigit cs
  if digits.head? = some '0' ∧ digits.length ≠ 1 then none else some (digitsValue 10 digits)

/-- The least integer that can be held. -/
def minInteger : Int := -(Nat.pow 2 127 : Nat)

/-- The greatest integer that can be held. -/
def maxInteger : Int := (Nat.pow 2 128 - 1 : Nat)

/-- The magnitude of a whole number in a base that its letter names. -/
def basedInteger? : List Char → Option Nat
  | '0' :: 'x' :: cs => (ungroup? (isDigitOf 16) cs).map (digitsValue 16)
  | '0' :: 'o' :: cs => (ungroup? (isDigitOf 8) cs).map (digitsValue 8)
  | '0' :: 'b' :: cs => (ungroup? (isDigitOf 2) cs).map (digitsValue 2)
  | _ => none

/-- The text names a base, but no digits follow. -/
def isBareBase (cs : List Char) : Bool :=
  cs = ['0', 'x'] || cs = ['0', 'o'] || cs = ['0', 'b']

/-- A quote stands behind a tab, where it begins a string. -/
def opensString (cs : List Char) : Bool :=
  (cs.splitOn '\t').tail.any fun part => part.head? = some '"' || part.head? = some '\''

/-- The text has the shape of a number in groups with underscores between them. The first group is
made of digits, not starting with zero, and digits of base sixteen stand next to each underscore;
what else is in the groups does not matter, except for the marks of a fraction or an exponent and
for the beginning of a string. -/
def isGrouped (cs : List Char) : Bool :=
  match (sign cs).2.splitOn '_' with
  | first :: second :: groups =>
    !first.isEmpty && first.all Char.isDigit && first.head? ≠ some '0' &&
      (second :: groups).all (fun g => g.head?.any isHexDigit) &&
      (second :: groups).dropLast.all (fun g => g.getLast?.any isHexDigit) &&
      !cs.any (['.', 'e', 'E'].contains ·) && !opensString cs
  | _ => false

/-- A whole number with an optional sign, or one in another base without a sign. -/
def integer? (cs : List Char) : Option Int :=
  match basedInteger? cs with
  | some n => some n
  | none => (whole? (sign cs).2).map fun n => if (sign cs).1 then -(n : Int) else n

/-- The exponent of a number, written with an optional sign. -/
def exponent? (cs : List Char) : Option Int := do
  let digits ← ungroup? Char.isDigit (sign cs).2
  let n := digitsValue 10 digits
  some (if (sign cs).1 then -(n : Int) else n)

/-- The least number that is rounded to infinity by a binary format of 64 bits. -/
def overflowBound : Nat := Nat.pow 2 1024 - Nat.pow 2 970

/-- The number `digits × 10 ^ exponent` is too large for a binary format of 64 bits. -/
def overflows (digits : List Char) (exponent : Int) : Bool :=
  let significant := digits.dropWhile (· = '0')
  let magnitude := significant.length + exponent
  if significant.isEmpty ∨ magnitude < 300 then false
  else if 400 < magnitude then true
  else
    let value := digitsValue 10 significant
    match exponent with
    | .ofNat e => overflowBound ≤ value * Nat.pow 10 e
    | .negSucc e => overflowBound * Nat.pow 10 (e + 1) ≤ value

/-- The text before the first of some characters, and that character with the text after it. -/
def splitBefore (stops : List Char) (cs : List Char) : List Char × List Char :=
  (cs.takeWhile (!stops.contains ·), cs.dropWhile (!stops.contains ·))

/-- The digits after a point, and what follows them; without a point, no digits. -/
def fraction? (cs : List Char) : Option (List Char × List Char) :=
  match cs with
  | '.' :: rest =>
    let (digits, rest) := splitBefore ['e', 'E'] rest
    (ungroup? Char.isDigit digits).map (·, rest)
  | rest => some ([], rest)

/-- The exponent after its letter; without one, zero. -/
def scale? (cs : List Char) : Option Int :=
  match cs with
  | [] => some 0
  | _ :: rest => exponent? rest

/-- The digits and the exponent of a number with a fraction, an exponent or both: the number is
`digits × 10 ^ exponent`, or the negative of that. -/
def scaled? (cs : List Char) : Option (List Char × Int) := do
  let (wholePart, rest) := splitBefore ['.', 'e', 'E'] (sign cs).2
  if rest.isEmpty then none
  else
    let _ ← whole? wholePart
    let digits ← ungroup? Char.isDigit wholePart
    let (fraction, rest) ← fraction? rest
    let exponent ← scale? rest
    some (digits ++ fraction, exponent - fraction.length)

/-- The text writes infinity or the value that is no number, with an optional sign. -/
def isSpecial (cs : List Char) : Bool :=
  (sign cs).2 = ['i', 'n', 'f'] || (sign cs).2 = ['n', 'a', 'n']

/-! ## Dates and times -/

/-- The number of two digits at the front of a text. -/
def twoDigits? : Reader Nat
  | a :: b :: rest => if a.isDigit && b.isDigit then some (digitsValue 10 [a, b], rest) else none
  | _ => none

/-- What follows the given character at the front of a text. -/
def mark? (c : Char) : List Char → Option (List Char)
  | d :: rest => if d = c then some rest else none
  | [] => none

/-- The number of days of a month. -/
def daysOf (year month : Nat) : Nat :=
  if month = 2 then
    if year % 4 = 0 ∧ (year % 100 ≠ 0 ∨ year % 400 = 0) then 29 else 28
  else if month = 4 ∨ month = 6 ∨ month = 9 ∨ month = 11 then 30
  else 31

/-- What follows a date `YYYY-MM-DD` of the calendar. -/
def date? (cs : List Char) : Option (List Char) := do
  let (century, rest) ← twoDigits? cs
  let (yearOfCentury, rest) ← twoDigits? rest
  let (month, rest) ← twoDigits? (← mark? '-' rest)
  let (day, rest) ← twoDigits? (← mark? '-' rest)
  let year := 100 * century + yearOfCentury
  if 1 ≤ month ∧ month ≤ 12 ∧ 1 ≤ day ∧ day ≤ daysOf year month then some rest else none

/-- What follows the decimals of a second, if there are any. -/
def decimals? (cs : List Char) : Option (List Char) :=
  match cs with
  | '.' :: rest =>
    if (rest.takeWhile Char.isDigit).isEmpty then none else some (rest.dropWhile Char.isDigit)
  | rest => some rest

/-- What follows a time of day `HH:MM`, with optional seconds, which may be sixty. -/
def time? (cs : List Char) : Option (List Char) := do
  let (hour, rest) ← twoDigits? cs
  let (minute, rest) ← twoDigits? (← mark? ':' rest)
  if 23 < hour ∨ 59 < minute then none
  else
    match rest with
    | ':' :: rest => do
      let (second, rest) ← twoDigits? rest
      if 60 < second then none else decimals? rest
    | rest => some rest

/-- The text is an offset from universal time, or empty. -/
def isOffset (cs : List Char) : Bool :=
  match cs with
  | [] | ['Z'] | ['z'] => true
  | c :: rest =>
    if c = '+' ∨ c = '-' then
      match twoDigits? rest with
      | some (hours, ':' :: rest) =>
        match twoDigits? rest with
        | some (minutes, []) => hours ≤ 23 && minutes ≤ 59
        | _ => false
      | _ => false
    else false

/-- The text is a date, a time of day, or both with an optional offset. -/
def isDateTime (cs : List Char) : Bool :=
  match date? cs with
  | some [] => true
  | some (c :: rest) =>
    (c = 'T' || c = 't' || c = ' ') && (time? rest).any isOffset
  | none => time? cs = some []

/-! ## Scalars -/

/-- The characters that end a scalar without quotes. -/
def separators : List Char :=
  ['=', ',', '[', ']', '{', '}', '#', ' ', '\r', '\n']

/-- The characters up to a separator, without the tabs at their end, and what follows them. -/
def unbroken (cs : List Char) : List Char × List Char :=
  let run := stripEnd (· = '\t') (cs.takeWhile (!separators.contains ·))
  (run, cs.drop run.length)

/-- The run of characters of a scalar. It goes on after one space that stands between a date and a
digit. -/
def scalarRun (cs : List Char) : List Char × List Char :=
  let (run, rest) := unbroken cs
  match rest with
  | ' ' :: d :: more =>
    if d.isDigit ∧ date? run = some [] then
      let (time, rest) := unbroken (d :: more)
      (run ++ ' ' :: time, rest)
    else (run, rest)
  | _ => (run, rest)

/-- The number that a run of characters writes. -/
def numberValue? (run : List Char) : Option Value :=
  let written := String.ofList run
  match integer? run, scaled? run with
  | some n, _ =>
    some (if minInteger ≤ n ∧ n ≤ maxInteger then .integer n else .faultyNumber written)
  | none, some (digits, exponent) =>
    some (if overflows digits exponent then .faultyNumber written else .float written)
  | none, none =>
    if isSpecial run then some (.float written)
    else if isBareBase run ∨ isGrouped run then some (.faultyNumber written)
    else none

/-- The value that a run of characters writes. -/
def scalarValue? (run : List Char) : Option Value :=
  if run = ['t', 'r', 'u', 'e'] then some (.boolean true)
  else if run = ['f', 'a', 'l', 's', 'e'] then some (.boolean false)
  else if isDateTime run then some (.dateTime (String.ofList run))
  else numberValue? run

/-- A scalar without quotes. -/
def scalar? : Reader Value := fun cs =>
  (scalarValue? (scalarRun cs).1).map fun value => (value, (scalarRun cs).2)

end AttributeLint.Toml
