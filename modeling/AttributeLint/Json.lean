/-!
# Json — values and their indented text

The values that reports are made of, and their text: two blanks of indentation for each level, one
item on each line, and nothing between the brackets of an empty collection.
-/

namespace AttributeLint

/-- A value without fractions, truth values or null. -/
inductive JsonValue where
  | number (n : Nat)
  | string (text : String)
  | array (items : List JsonValue)
  | object (fields : List (String × JsonValue))
  deriving Repr

namespace JsonValue

/-- The digit that writes a number below sixteen. -/
def hexDigit (n : Nat) : Char :=
  if n < 10 then Char.ofNat (48 + n) else Char.ofNat (87 + n)

/-- A character inside quotes: quotes, backslashes and control characters are escaped. -/
def escape (c : Char) : List Char :=
  match c with
  | '"' => ['\\', '"']
  | '\\' => ['\\', '\\']
  | '\n' => ['\\', 'n']
  | '\r' => ['\\', 'r']
  | '\t' => ['\\', 't']
  | '\x08' => ['\\', 'b']
  | '\x0c' => ['\\', 'f']
  | c =>
    if c.toNat < 0x20 then
      ['\\', 'u', '0', '0', hexDigit (c.toNat / 16), hexDigit (c.toNat % 16)]
    else [c]

/-- A string in quotes. -/
def quote (text : String) : String :=
  String.ofList ('"' :: text.toList.flatMap escape ++ ['"'])

/-- A line break and the indentation of a level. -/
def newLine (level : Nat) : String :=
  String.ofList ('\n' :: List.replicate (2 * level) ' ')

/-- Texts between brackets, each on a line of its own one level deeper. -/
def enclose (level : Nat) (opening closing : String) (texts : List String) : String :=
  if texts.isEmpty then opening ++ closing
  else
    opening ++ newLine (level + 1) ++
      String.intercalate ("," ++ newLine (level + 1)) texts ++ newLine level ++ closing

mutual

/-- The text of a value that stands at a level. -/
def pretty (level : Nat) : JsonValue → String
  | .number n => toString n
  | .string text => quote text
  | .array items => enclose level "[" "]" (prettyItems (level + 1) items)
  | .object fields => enclose level "\x7b" "\x7d" (prettyFields (level + 1) fields)

/-- The texts of some values. -/
def prettyItems (level : Nat) : List JsonValue → List String
  | [] => []
  | item :: items => pretty level item :: prettyItems level items

/-- The texts of some fields. -/
def prettyFields (level : Nat) : List (String × JsonValue) → List String
  | [] => []
  | (key, value) :: fields =>
    (quote key ++ ": " ++ pretty level value) :: prettyFields level fields

end

end JsonValue

end AttributeLint
