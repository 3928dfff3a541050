import AttributeLint.Text.Digits
import AttributeLint.Text.Numeric

/-!
# Message — templates with numbered placeholders

A message template is text with placeholders `{0}`, `{1}` and so on. It is divided once into
literal characters and placeholders; filling it replaces the placeholders whose number has an
argument and leaves the others as they are written. Braces in an argument mean nothing.
-/

namespace AttributeLint.Message

open Text

/-- A literal character of a template, or a placeholder with its digits. -/
inductive Segment where
  | literal (c : Char)
  | placeholder (digits : List Char)
  deriving DecidableEq, Repr

/-- The digits between braces at the front of a text, and what follows the closing brace. The
digits may be those of any script. -/
def placeholder? : List Char → Option (List Char × List Char)
  | [] => none
  | c :: cs =>
    if c = '{' ∧ cs.takeWhile isDecimalDigit ≠ [] then
      match cs.dropWhile isDecimalDigit with
      | d :: rest => if d = '}' then some (cs.takeWhile isDecimalDigit, rest) else none
      | [] => none
    else none

theorem placeholder?_length {cs digits rest : List Char}
    (h : placeholder? cs = some (digits, rest)) : rest.length < cs.length := by
  cases cs with
  | nil => cases h
  | cons c cs =>
    simp only [placeholder?] at h
    split at h
    · split at h
      · rename_i d rest' hd
        split at h
        · cases h
          have := (List.dropWhile_suffix (l := cs) isDecimalDigit).length_le
          simp only [hd, List.length_cons] at this ⊢
          omega
        · cases h
      · cases h
    · cases h

/-- The segments of a template: placeholders are found from the left. -/
def segments : List Char → List Segment
  | [] => []
  | c :: cs =>
    match _h : placeholder? (c :: cs) with
    | some (digits, rest) => .placeholder digits :: segments rest
    | none => .literal c :: segments cs
termination_by cs => cs.length
decreasing_by
  · exact placeholder?_length _h
  · simp

/-- A segment as it is written in the template. -/
def Segment.written : Segment → List Char
  | .literal c => [c]
  | .placeholder digits => '{' :: digits ++ ['}']

/-- A segment with its argument put in, if it has one. -/
def Segment.fill (arguments : List String) (s : Segment) : List Char :=
  match s with
  | .literal c => [c]
  | .placeholder digits =>
    match (Text.number? digits).bind (arguments[·]?) with
    | some argument => argument.toList
    | none => s.written

/-- The template with the arguments put in. -/
def fill (template : String) (arguments : List String) : String :=
  String.ofList ((segments template.toList).flatMap (Segment.fill arguments))

/-- The number of a placeholder. Digits of other scripts than ASCII, and numbers that are too large,
give none. -/
def Segment.number? : Segment → Option Nat
  | .literal _ => none
  | .placeholder digits => Text.number? digits

/-- The greatest number among the placeholders of a template. -/
def maxPlaceholder (template : String) : Option Nat :=
  ((segments template.toList).filterMap Segment.number?).max?

end AttributeLint.Message
