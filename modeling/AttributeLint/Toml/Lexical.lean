import AttributeLint.Text.Cut
import AttributeLint.Text.Digits
import AttributeLint.Toml.Value

/-!
# Lexical — blanks, comments, strings and keys of TOML

The parts of a TOML document below the level of values, after version 1.1 of the format. A control
character other than the tab stands nowhere but in a line break.
-/

namespace AttributeLint.Toml

open Text

/-! ## Blanks and comments -/

/-- A space or a tab. -/
def isSpace (c : Char) : Bool :=
  c = ' ' || c = '\t'

/-- A control character that may not stand in a comment or a string on one line. -/
def isForbidden (c : Char) : Bool :=
  (c.toNat < 0x20 && c ≠ '\t') || c.toNat = 0x7f

/-- What follows the spaces at the front of a text. -/
def skipSpaces (cs : List Char) : List Char :=
  cs.dropWhile isSpace

/-- What follows a line break, if the text begins with one. -/
def lineBreak? : List Char → Option (List Char)
  | '\n' :: cs => some cs
  | '\r' :: '\n' :: cs => some cs
  | _ => none

/-- What follows the spaces, line breaks and comments at the front of a text. -/
def skipGap (inComment : Bool) : List Char → List Char
  | [] => []
  | '\r' :: '\n' :: cs => skipGap false cs
  | c :: cs =>
    if inComment ∧ ¬ isForbidden c then skipGap true cs
    else if c = '#' then skipGap true cs
    else if isSpace c ∨ c = '\n' then skipGap false cs
    else c :: cs

/-- What follows the end of a line: spaces, a comment if there is one, and a line break or the end
of the text. -/
def lineEnd? (cs : List Char) : Option (List Char) :=
  let afterComment :=
    match skipSpaces cs with
    | '#' :: rest => rest.dropWhile (!isForbidden ·)
    | rest => rest
  if afterComment.isEmpty then some [] else lineBreak? afterComment

/-! ## Strings -/

/-- The character whose code point the hexadecimal digits write. -/
def codePoint? (digits : List Char) : Option Char :=
  if digits.all isHexDigit then charOfCode? (digitsValue 16 digits) else none

/-- The number of hexadecimal digits after an escape letter that takes some. -/
def escapeDigits? : Char → Option Nat
  | 'x' => some 2
  | 'u' => some 4
  | 'U' => some 8
  | _ => none

/-- The character of a one-letter escape. -/
def escapeLetter? : Char → Option Char
  | 'b' => some '\x08'
  | 't' => some '\t'
  | 'n' => some '\n'
  | 'f' => some '\x0c'
  | 'r' => some '\r'
  | 'e' => some '\x1b'
  | '"' => some '"'
  | '\\' => some '\\'
  | _ => none

/-- An escape, read from just after its backslash. -/
def escape? : Reader Char
  | [] => none
  | c :: cs =>
    match escapeLetter? c with
    | some d => some (d, cs)
    | none => do
      let count ← escapeDigits? c
      if cs.length < count then none
      else (codePoint? (cs.take count)).map fun d => (d, cs.drop count)

/-- The quotes that close a string on several lines: three, behind at most two that belong to the
string. The text begins with three quotes. -/
def closingQuotes (quote : Char) (cs : List Char) : List Char × List Char :=
  let count := min 5 (cs.takeWhile (· = quote)).length
  (List.replicate (count - 3) quote, cs.drop count)

/-- The text begins with three quotes. -/
def startsTriple (quote : Char) (cs : List Char) : Bool :=
  (after? [quote, quote, quote] cs).isSome

/-- A string between double quotes on one line, read from just after its opening quote. -/
def basicString? (fuel : Nat) (cs : List Char) : Option (List Char × List Char) :=
  match fuel, cs with
  | 0, _ | _, [] => none
  | fuel + 1, c :: cs =>
    if c = '"' then some ([], cs)
    else if c = '\\' then do
      let (d, rest) ← escape? cs
      let (text, rest) ← basicString? fuel rest
      some (d :: text, rest)
    else if isForbidden c then none
    else do
      let (text, rest) ← basicString? fuel cs
      some (c :: text, rest)

/-- What follows spaces and line breaks, which a backslash at the end of a line hides. -/
def skipFolded : List Char → List Char
  | '\r' :: '\n' :: cs => skipFolded cs
  | c :: cs => if isSpace c ∨ c = '\n' then skipFolded cs else c :: cs
  | [] => []

/-- A string between triple double quotes, read from just after its opening quotes. -/
def basicLines? (fuel : Nat) (cs : List Char) : Option (List Char × List Char) :=
  match fuel, cs with
  | 0, _ | _, [] => none
  | fuel + 1, c :: cs =>
    if startsTriple '"' (c :: cs) then some (closingQuotes '"' (c :: cs))
    else if c = '\\' then
      if (lineBreak? (skipSpaces cs)).isSome then basicLines? fuel (skipFolded cs)
      else do
        let (d, rest) ← escape? cs
        let (text, rest) ← basicLines? fuel rest
        some (d :: text, rest)
    else
      match lineBreak? (c :: cs) with
      | some rest => do
        let (text, after) ← basicLines? fuel rest
        some ((c :: cs).take (cs.length + 1 - rest.length) ++ text, after)
      | none =>
        if isForbidden c then none
        else do
          let (text, rest) ← basicLines? fuel cs
          some (c :: text, rest)

/-- A string between single quotes on one line, read from just after its opening quote. -/
def literalString? : List Char → Option (List Char × List Char)
  | [] => none
  | c :: cs =>
    if c = '\'' then some ([], cs)
    else if isForbidden c then none
    else (literalString? cs).map fun (text, rest) => (c :: text, rest)

/-- A string between triple single quotes, read from just after its opening quotes. -/
def literalLines? : List Char → Option (List Char × List Char)
  | [] => none
  | '\r' :: '\n' :: cs => (literalLines? cs).map fun (text, rest) => ('\r' :: '\n' :: text, rest)
  | c :: cs =>
    if startsTriple '\'' (c :: cs) then some (closingQuotes '\'' (c :: cs))
    else if isForbidden c ∧ c ≠ '\n' then none
    else (literalLines? cs).map fun (text, rest) => (c :: text, rest)

/-- The text without the line break that it begins with, if it begins with one. -/
def dropLineBreak (cs : List Char) : List Char :=
  (lineBreak? cs).getD cs

/-- A string of any of the four forms. -/
def string? (cs : List Char) : Option (String × List Char) :=
  let read : Option (List Char × List Char) :=
    match after? ['"', '"', '"'] cs, after? ['\'', '\'', '\''] cs, cs with
    | some body, _, _ => basicLines? (body.length + 1) (dropLineBreak body)
    | _, some body, _ => literalLines? (dropLineBreak body)
    | _, _, '"' :: body => basicString? (body.length + 1) body
    | _, _, '\'' :: body => literalString? body
    | _, _, _ => none
  read.map fun (text, rest) => (String.ofList text, rest)

/-! ## Keys -/

/-- The character may stand in a key without quotes. -/
def isBare (c : Char) : Bool :=
  c.isAlphanum || c = '_' || c = '-'

/-- One part of a key: bare, or a string on one line. -/
def keyPart? (cs : List Char) : Option (String × List Char) :=
  match cs with
  | '"' :: body =>
    (basicString? (body.length + 1) body).map fun (text, rest) => (String.ofList text, rest)
  | '\'' :: body => (literalString? body).map fun (text, rest) => (String.ofList text, rest)
  | _ =>
    let bare := cs.takeWhile isBare
    if bare.isEmpty then none else some (String.ofList bare, cs.dropWhile isBare)

/-- A key: parts with points between them and spaces around the points. -/
def keyWithin? (fuel : Nat) (cs : List Char) : Option (List String × List Char) :=
  match fuel with
  | 0 => none
  | fuel + 1 => do
    let (part, rest) ← keyPart? cs
    match skipSpaces rest with
    | '.' :: rest => do
      let (parts, rest) ← keyWithin? fuel (skipSpaces rest)
      some (part :: parts, rest)
    | rest => some ([part], rest)

/-- How deep tables may be nested by one key, and arrays and inline tables in one value. -/
def maxDepth : Nat := 80

/-- A key of at most `maxDepth` parts, and what follows the spaces after it. -/
def key? (cs : List Char) : Option (List String × List Char) :=
  (keyWithin? (cs.length + 1) cs).filter fun key => key.1.length ≤ maxDepth

end AttributeLint.Toml
