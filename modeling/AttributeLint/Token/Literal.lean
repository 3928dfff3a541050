import AttributeLint.Text.Blank
import AttributeLint.Text.Cut
import AttributeLint.Text.Digits
import AttributeLint.Token

/-!
# Literal — the forms of string and character literals

Each reader takes the text just after the opening mark of a literal and returns what follows the
literal; the readers of constant strings also return the value, or nothing when the literal is not
closed. A regular string ends at the line break that it may not contain, a verbatim string doubles
its quotes, a raw string ends at as many quotes as opened it, and an interpolated string is skipped
as a whole, holes included.

What follows a literal is always an end of the text it was read from (the lemmas `_suffix`).
-/

namespace AttributeLint.Token.Literal

open Text

/-! ## Escapes -/

/-- The character that a one-letter escape denotes. -/
def simpleEscape? : Char → Option Char
  | '\'' => some '\''
  | '"' => some '"'
  | '\\' => some '\\'
  | '0' => some '\x00'
  | 'a' => some '\x07'
  | 'b' => some '\x08'
  | 'f' => some '\x0c'
  | 'n' => some '\n'
  | 'r' => some '\r'
  | 't' => some '\t'
  | 'v' => some '\x0b'
  | _ => none

/-- The least and the greatest number of hexadecimal digits after an escape letter. -/
def hexEscape? : Char → Option (Nat × Nat)
  | 'u' => some (4, 4)
  | 'U' => some (8, 8)
  | 'x' => some (1, 4)
  | _ => none

/-- The characters denoted by an escape whose letter is the first one of the text, and what follows
the escape. An escape that is none stands for its two characters. -/
def escape : List Char → List Char × List Char
  | [] => (['\\'], [])
  | c :: cs =>
    match simpleEscape? c with
    | some d => ([d], cs)
    | none =>
      match hexEscape? c with
      | none => (['\\', c], cs)
      | some (least, most) =>
        let digits := (cs.take most).takeWhile isHexDigit
        if digits.length < least then (['\\', c], cs)
        else
          match charOfCode? (digitsValue 16 digits) with
          | some d => ([d], cs.drop digits.length)
          | none => (['\\', c], cs)

theorem escape_suffix (cs : List Char) : (escape cs).2 <:+ cs := by
  cases cs with
  | nil => simp [escape]
  | cons c cs =>
    simp only [escape]
    split
    · exact List.suffix_cons c cs
    · split
      · exact List.suffix_cons c cs
      · split
        · exact List.suffix_cons c cs
        · split
          · exact (List.drop_suffix _ cs).trans (List.suffix_cons c cs)
          · exact List.suffix_cons c cs

/-! ## Constant strings -/

/-- The reading of a literal with `u` put in front of its value. -/
def prepend (u : List Char) (reading : Option (List Char) × List Char) :
    Option (List Char) × List Char :=
  (reading.1.map (u ++ ·), reading.2)

/-- A regular string after its opening quote: the value, if a quote closes it before the line
break or the end of the text, and what follows. -/
def regular : List Char → Option (List Char) × List Char
  | [] => (none, [])
  | c :: cs =>
    if c = '"' then (some [], cs)
    else if c = '\n' then (none, c :: cs)
    else if c = '\\' then
      prepend (escape cs).1 (regular (escape cs).2)
    else prepend [c] (regular cs)
termination_by cs => cs.length
decreasing_by
  · have := (escape_suffix cs).length_le
    simp only [List.length_cons]
    omega
  · simp

/-- A verbatim string after its opening quote: two quotes stand for one, a single quote closes. -/
def verbatim : List Char → Option (List Char) × List Char
  | [] => (none, [])
  | '"' :: '"' :: cs => prepend ['"'] (verbatim cs)
  | c :: cs => if c = '"' then (some [], cs) else prepend [c] (verbatim cs)

/-- A line of a raw string without the indentation of the closing line; a line that lacks it loses
the white space it begins with. -/
def dedent (indent : List Char) (line : List Char) : List Char :=
  let line := stripEnd (· = '\r') line
  match after? indent line with
  | some rest => rest
  | none => line.dropWhile isBlank

/-- The value of a raw string with the given content. Content on one line is the value. Content on
several lines has blank first and last lines, which are dropped together with the indentation of
the last one. -/
def rawValue? (content : List Char) : Option (List Char) :=
  match lines content with
  | [] | [_] => some content
  | first :: second :: rest =>
    let body := (second :: rest).dropLast
    let last := (second :: rest).getLast (by simp)
    if first.all isBlank ∧ last.all isBlank then
      let indent := stripEnd (· = '\r') last
      some (List.intercalate ['\n'] (body.map (dedent indent)))
    else none

/-- The character is a double quote. -/
def isQuote (c : Char) : Bool :=
  c = '"'

/-- A raw string from the first of its opening quotes: it is closed by a run of quotes at least as
long as the opening one. -/
def raw (cs : List Char) : Option (List Char) × List Char :=
  match cutAt (cs.takeWhile isQuote) (cs.dropWhile isQuote) with
  | some (content, rest) => (rawValue? content, rest.dropWhile isQuote)
  | none => (none, [])

theorem regular_suffix (cs : List Char) : (regular cs).2 <:+ cs := by
  fun_induction regular cs with
  | case1 => exact List.suffix_rfl
  | case2 cs => exact List.suffix_cons _ cs
  | case3 => exact List.suffix_rfl
  | case4 cs _ _ ih => exact ih.trans ((escape_suffix cs).trans (List.suffix_cons _ cs))
  | case5 c cs _ _ _ ih => exact ih.trans (List.suffix_cons c cs)

theorem verbatim_suffix (cs : List Char) : (verbatim cs).2 <:+ cs := by
  fun_induction verbatim cs with
  | case1 => exact List.suffix_rfl
  | case2 cs ih => exact ih.trans ((List.suffix_cons _ cs).trans (List.suffix_cons _ _))
  | case3 cs => exact List.suffix_cons _ cs
  | case4 c cs _ _ ih => exact ih.trans (List.suffix_cons c cs)

/-- A raw string ends after its opening quotes. -/
theorem raw_suffix (cs : List Char) : (raw cs).2 <:+ cs.dropWhile isQuote := by
  simp only [raw]
  split
  · rename_i content rest h
    exact (List.dropWhile_suffix _).trans (cutAt_suffix h)
  · exact List.nil_suffix

/-! ## Literals without a value -/

/-- What follows a character literal, read from just after its opening quote. -/
def character : List Char → List Char
  | [] => []
  | '\\' :: _ :: cs => character cs
  | c :: cs =>
    if c = '\'' then cs
    else if c = '\n' then c :: cs
    else character cs

/-- What follows an interpolated string with backslash escapes, read with `depth` holes open.
Outside the holes it ends with a quote or with the line break. -/
def escapedHoles : Nat → List Char → List Char
  | _, [] => []
  | depth, '\\' :: _ :: cs => escapedHoles depth cs
  | depth, c :: cs =>
    if c = '{' then escapedHoles (depth + 1) cs
    else if c = '}' then escapedHoles (depth - 1) cs
    else if depth = 0 ∧ (c = '"' ∨ c = '\n') then cs
    else escapedHoles depth cs

/-- What follows a verbatim interpolated string, read with `depth` holes open. Outside the holes it
ends with a quote that is not doubled. -/
def verbatimHoles : Nat → List Char → List Char
  | _, [] => []
  | depth, '"' :: '"' :: cs => verbatimHoles depth cs
  | depth, c :: cs =>
    if c = '{' then verbatimHoles (depth + 1) cs
    else if c = '}' then verbatimHoles (depth - 1) cs
    else if depth = 0 ∧ c = '"' then cs
    else verbatimHoles depth cs

/-- The character marks a string as interpolated or verbatim. -/
def isMark (c : Char) : Bool :=
  c = '$' ∨ c = '@'

theorem isMark_iff {c : Char} : isMark c ↔ c = '$' ∨ c = '@' := by
  simp [isMark]

/-- What follows an interpolated string, read from the first of its marks. -/
def interpolated (cs : List Char) : List Char :=
  let afterMarks := cs.dropWhile isMark
  let body := (after? ['"'] afterMarks).getD afterMarks
  if (cs.takeWhile isMark).contains '@' then verbatimHoles 0 body else escapedHoles 0 body

theorem character_suffix (cs : List Char) : character cs <:+ cs := by
  fun_induction character cs with
  | case1 => exact List.suffix_rfl
  | case2 d cs ih => exact ih.trans ((List.suffix_cons d cs).trans (List.suffix_cons _ _))
  | case3 cs => exact List.suffix_cons _ cs
  | case4 => exact List.suffix_rfl
  | case5 c cs _ _ _ ih => exact ih.trans (List.suffix_cons c cs)

theorem escapedHoles_suffix (depth : Nat) (cs : List Char) : escapedHoles depth cs <:+ cs := by
  fun_induction escapedHoles depth cs with
  | case1 => exact List.suffix_rfl
  | case2 _ d cs ih => exact ih.trans ((List.suffix_cons d cs).trans (List.suffix_cons _ _))
  | case5 => exact List.suffix_cons _ _
  | _ => exact List.IsSuffix.trans (by assumption) (List.suffix_cons _ _)

theorem verbatimHoles_suffix (depth : Nat) (cs : List Char) : verbatimHoles depth cs <:+ cs := by
  fun_induction verbatimHoles depth cs with
  | case1 => exact List.suffix_rfl
  | case2 _ cs ih => exact ih.trans ((List.suffix_cons _ cs).trans (List.suffix_cons _ _))
  | case5 => exact List.suffix_cons _ _
  | _ => exact List.IsSuffix.trans (by assumption) (List.suffix_cons _ _)

/-- An interpolated string ends after its marks. -/
theorem interpolated_suffix (cs : List Char) : interpolated cs <:+ cs.dropWhile isMark := by
  have hbody : (after? ['"'] (cs.dropWhile isMark)).getD (cs.dropWhile isMark)
      <:+ cs.dropWhile isMark := by
    cases h : after? ['"'] (cs.dropWhile isMark) with
    | none => exact List.suffix_rfl
    | some rest => exact ⟨['"'], (after?_eq_some_iff.mp h).symm⟩
  simp only [interpolated]
  split
  · exact (verbatimHoles_suffix 0 _).trans hbody
  · exact (escapedHoles_suffix 0 _).trans hbody

end AttributeLint.Token.Literal
