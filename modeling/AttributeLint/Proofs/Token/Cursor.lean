import AttributeLint.Proofs.Loop
import AttributeLint.Proofs.Text.Access
import AttributeLint.Token.Lexer

/-!
# Cursor — a lexer that moves a byte offset

The same tokens, found by a machine that keeps an offset into the source and reads the source only
from there. Every read is checked: at an offset past the end or inside a character it gives nothing,
and so does the whole run. A loop that does not come to an end gives nothing either. That a run
gives its tokens therefore says that it ends and that none of its reads goes wrong.
-/

namespace AttributeLint.Token

open Text

/-- A token with both of its ends. -/
structure Lexeme where
  kind : Kind
  text : String
  start : Nat
  stop : Nat
  deriving DecidableEq, Repr

namespace Cursor

noncomputable section

variable (source : List Char)

/-! ## Moving -/

/-- The character at an offset; none at the end. -/
def peek? (pos : Nat) : Option (Option Char) :=
  (dropBytes? pos source).map List.head?

/-- The character after the one at an offset. -/
def peekSecond? (pos : Nat) : Option (Option Char) :=
  (dropBytes? pos source).map fun cs => cs.tail.head?

/-- The text at an offset begins with `mark`. -/
def startsWith? (mark : List Char) (pos : Nat) : Option Bool :=
  (dropBytes? pos source).map fun cs => (after? mark cs).isSome

/-- The character at an offset, and the offset after it. -/
def bump? (pos : Nat) : Option (Option Char × Nat) := do
  match ← peek? source pos with
  | none => return (none, pos)
  | some c => return (some c, pos + c.utf8Size)

def eatPass? (p : Char → Bool) (pos : Nat) : Option (Pass Nat Nat) := do
  match ← peek? source pos with
  | none => return .done pos
  | some c => if p c then return .again (pos + c.utf8Size) else return .done pos

/-- The offset after the characters that satisfy `p`. -/
def eatWhile? (p : Char → Bool) (pos : Nat) : Option Nat :=
  Pass.loop? (eatPass? source p) pos

/-- The token between two offsets. -/
def lexeme? (kind : Kind) (start stop : Nat) : Option Lexeme := do
  let text ← slice? source start stop
  return { kind, text := String.ofList text, start, stop }

/-! ## Strings with a value -/

/-- A hexadecimal escape after its letter: the offset behind it, and the value with what it denotes
put at the end. -/
def hexEscape (letter : Char) (least most : Nat) (pos : Nat) (value : List Char) :
    Option (Nat × List Char) := do
  let cs ← dropBytes? pos source
  let digits := (cs.take most).takeWhile isHexDigit
  -- the digits are counted in bytes, of which each has one
  let decoded := if least ≤ width digits then charOfCode? (digitsValue 16 digits) else none
  match decoded with
  | some c => return (pos + width digits, value ++ [c])
  | none => return (pos, value ++ ['\\', letter])

/-- An escape after its backslash. -/
def escape? (pos : Nat) (value : List Char) : Option (Nat × List Char) := do
  match ← bump? source pos with
  | (none, pos) => return (pos, value ++ ['\\'])
  | (some c, pos) =>
    match Literal.simpleEscape? c with
    | some d => return (pos, value ++ [d])
    | none =>
      match Literal.hexEscape? c with
      | some (least, most) => hexEscape source c least most pos value
      | none => return (pos, value ++ ['\\', c])

/-- A loop over a string with a value is at an offset and has a part of the value. -/
abbrev ValuePass :=
  Pass (Nat × List Char) (Nat × Option (List Char))

def regularPass? : Nat × List Char → Option ValuePass
  | (pos, value) => do
    match ← peek? source pos with
    | none => return .done (pos, none)
    | some c =>
      if c = '"' then return .done ((← bump? source pos).2, some value)
      else if c = '\n' then return .done (pos, none)
      else if c = '\\' then return .again (← escape? source (← bump? source pos).2 value)
      else return .again ((← bump? source pos).2, value ++ [c])

/-- A regular string from within: the offset behind it, and its value if it is closed. -/
def regular? (pos : Nat) : Option (Nat × Option (List Char)) :=
  Pass.loop? (regularPass? source) (pos, [])

def verbatimPass? : Nat × List Char → Option ValuePass
  | (pos, value) => do
    match ← bump? source pos with
    | (none, pos) => return .done (pos, none)
    | (some c, pos) =>
      if c = '"' then
        if (← peek? source pos) = some '"' then
          return .again ((← bump? source pos).2, value ++ ['"'])
        else return .done (pos, some value)
      else return .again (pos, value ++ [c])

/-- A verbatim string from within. -/
def verbatim? (pos : Nat) : Option (Nat × Option (List Char)) :=
  Pass.loop? (verbatimPass? source) (pos, [])

/-- A regular string from its quote. -/
def regularLexeme? (start : Nat) : Option Lexeme := do
  let (stop, value) ← regular? source (← bump? source start).2
  lexeme? source (Kind.ofValue value) start stop

/-- A verbatim string from its mark. The mark and the quote have one byte each. -/
def verbatimLexeme? (start : Nat) : Option Lexeme := do
  let (stop, value) ← verbatim? source (start + 2)
  lexeme? source (Kind.ofValue value) start stop

/-- A raw string from the first of its quotes, which have one byte each. -/
def rawLexeme? (start : Nat) : Option Lexeme := do
  let opening ← dropBytes? start source
  let quotes := (opening.takeWhile Literal.isQuote).length
  let inside ← dropBytes? (start + quotes) source
  match cutAt (List.replicate quotes '"') inside with
  | some (before, _) =>
    -- quotes behind the closing mark belong to the literal
    let stop ← eatWhile? source Literal.isQuote (start + quotes + width before + quotes)
    let content ← slice? source (start + quotes) (start + quotes + width before)
    lexeme? source (Kind.ofValue (Literal.rawValue? content)) start stop
  | none => lexeme? source .literal start (width source)

/-! ## Other literals -/

def interpolatedPass? (isVerbatim : Bool) : Nat × Nat → Option (Pass (Nat × Nat) Nat)
  | (depth, pos) => do
    match ← bump? source pos with
    | (none, pos) => return .done pos
    | (some c, pos) =>
      -- braces count whether or not they are doubled
      if c = '{' then return .again (depth + 1, pos)
      else if c = '}' then return .again (depth - 1, pos)
      else if c = '\\' ∧ !isVerbatim then return .again (depth, (← bump? source pos).2)
      else
        let next ← peek? source pos
        if c = '"' ∧ isVerbatim ∧ next = some '"' then
          return .again (depth, (← bump? source pos).2)
        else if c = '"' ∧ depth = 0 then return .done pos
        else if c = '\n' ∧ !isVerbatim ∧ depth = 0 then return .done pos
        else return .again (depth, pos)

/-- An interpolated string from within. The loop counts the holes that are open. -/
def interpolated? (isVerbatim : Bool) (pos : Nat) : Option Nat :=
  Pass.loop? (interpolatedPass? source isVerbatim) (0, pos)

/-- An interpolated string from the first of its marks. -/
def interpolatedLexeme? (start : Nat) : Option Lexeme := do
  let afterMarks ← eatWhile? source Literal.isMark start
  let marks ← slice? source start afterMarks
  let body ←
    if (← peek? source afterMarks) = some '"' then pure (← bump? source afterMarks).2
    else pure afterMarks
  let stop ← interpolated? source (marks.contains '@') body
  lexeme? source .literal start stop

def characterPass? (pos : Nat) : Option (Pass Nat Nat) := do
  match ← peek? source pos with
  | none => return .done pos
  | some c =>
    if c = '\'' then return .done (← bump? source pos).2
    else if c = '\n' then return .done pos
    else if c = '\\' then return .again (← bump? source (← bump? source pos).2).2
    else return .again (← bump? source pos).2

/-- A character literal from within. -/
def character? (pos : Nat) : Option Nat :=
  Pass.loop? (characterPass? source) pos

/-- A character literal from its quote. -/
def characterLexeme? (start : Nat) : Option Lexeme := do
  let stop ← character? source (← bump? source start).2
  lexeme? source .literal start stop

/-! ## Tokens -/

/-- A number from its first digit. -/
def numberLexeme? (start : Nat) : Option Lexeme := do
  lexeme? source .literal start (← eatWhile? source isNumberContinue start)

/-- An identifier from its first character. -/
def identifierLexeme? (start : Nat) : Option Lexeme := do
  let stop ← eatWhile? source isIdentContinue (← bump? source start).2
  lexeme? source .ident start stop

/-- Punctuation. -/
def punctuationLexeme? (c : Char) (start : Nat) : Option Lexeme := do
  let (_, pos) ← bump? source start
  let next ← peek? source pos
  if c = ':' ∧ next = some ':' then
    lexeme? source .doubleColon start (← bump? source pos).2
  else if c = '=' ∧ (next = some '=' ∨ next = some '>') then
    lexeme? source .other start (← bump? source pos).2
  else lexeme? source (Kind.ofChar c) start pos

/-- The token at an offset, where the character `c` stands. -/
def token? (c : Char) (pos : Nat) : Option Lexeme := do
  let next ← peekSecond? source pos
  if c = '"' then
    if ← startsWith? source ['"', '"', '"'] pos then rawLexeme? source pos
    else regularLexeme? source pos
  else if c = '@' ∧ next = some '"' then verbatimLexeme? source pos
  else if (c = '$' ∨ c = '@') ∧ (next = some '"' ∨ next = some '$' ∨ next = some '@') then
    interpolatedLexeme? source pos
  else if c = '\'' then characterLexeme? source pos
  else if c.isDigit then numberLexeme? source pos
  else if isIdentStart c ∨ (c = '@' ∧ next.any isIdentStart) then identifierLexeme? source pos
  else punctuationLexeme? source c pos

/-- The offset after a block comment that begins at an offset. -/
def afterComment? (pos : Nat) : Option Nat := do
  let cs ← dropBytes? (pos + 2) source
  match cutAt ['*', '/'] cs with
  | some (before, _) => return pos + 2 + width before + 2
  | none => return width source

/-- The loop over a source knows whether only white space stands before it on its line, where it
is, and the tokens that it has found. -/
abbrev Scanning :=
  Bool × Nat × List Lexeme

def scanPass? : Scanning → Option (Pass Scanning (List Lexeme))
  | (lineStart, pos, found) => do
    match ← peek? source pos with
    | none => return .done found
    | some c =>
      if c = '\n' then return .again (true, (← bump? source pos).2, found)
      else if isBlank c then return .again (lineStart, (← bump? source pos).2, found)
      else if c = '#' ∧ lineStart then
        return .again (lineStart, ← eatWhile? source isWithinLine pos, found)
      else if ← startsWith? source ['/', '/'] pos then
        return .again (false, ← eatWhile? source isWithinLine pos, found)
      else if ← startsWith? source ['/', '*'] pos then
        return .again (false, ← afterComment? source pos, found)
      else
        let token ← token? source c pos
        return .again (false, token.stop, found ++ [token])

/-- The tokens of a source. -/
def tokens? : Option (List Lexeme) :=
  Pass.loop? (scanPass? source) (true, 0, [])

end

end Cursor

end AttributeLint.Token
