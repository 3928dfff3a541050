import AttributeLint.Text.Offset

/-!
# Token — the words of a source

A token is a stretch of C# source with the offset at which it starts. Only what is needed to find
attribute lists is told apart: punctuation that shapes a list, identifiers, constant string
literals, all other literals, and everything else.
-/

namespace AttributeLint

/-- The sorts of tokens. A constant string literal carries the string it denotes. -/
inductive Token.Kind where
  | lBracket
  | rBracket
  | lParen
  | rParen
  | lBrace
  | rBrace
  | comma
  | semicolon
  | colon
  /-- The alias qualifier `::`. -/
  | doubleColon
  | dot
  | equals
  /-- An identifier or a keyword. -/
  | ident
  /-- A regular, verbatim or raw string literal and its decoded value. -/
  | str (value : String)
  /-- A number, a character, an interpolated string, or a string that is not closed. -/
  | literal
  /-- An operator or any other character. -/
  | other
  deriving DecidableEq, Repr, Inhabited

namespace Token.Kind

/-- Opening parenthesis, bracket or brace. -/
def opens : Kind → Bool
  | .lParen | .lBracket | .lBrace => true
  | _ => false

/-- Closing parenthesis, bracket or brace. -/
def closes : Kind → Bool
  | .rParen | .rBracket | .rBrace => true
  | _ => false

/-- The string that a constant literal denotes. -/
def value? : Kind → Option String
  | .str value => some value
  | _ => none

end Token.Kind

/-- A token: its sort, its text, and the byte offset of its first character. -/
structure Token where
  kind : Token.Kind
  text : String
  start : Nat
  deriving DecidableEq, Repr, Inhabited

namespace Token

/-- The byte offset just after the token. -/
def stop (t : Token) : Nat :=
  t.start + Text.width t.text.toList

end Token

end AttributeLint
