import AttributeLint.Toml.Scalar
import AttributeLint.Toml.Table

/-!
# Document — reading a TOML document

A document is a sequence of lines: keys with values, and headers that say to which table the
following keys belong. A text that is no document gives nothing; which of several faults it has is
not told.
-/

namespace AttributeLint.Toml

open Text

/-! ## Values -/

/-- The items of an array, read from after its opening bracket, with at most `fuel` items. -/
def items? (item : Reader Value) (fuel : Nat) (cs : List Char) :
    Option (List Value × List Char) :=
  match fuel, skipGap false cs with
  | 0, _ => none
  | _ + 1, ']' :: rest => some ([], rest)
  | fuel + 1, cs => do
    let (value, rest) ← item cs
    match skipGap false rest with
    | ',' :: rest =>
      let (values, rest) ← items? item fuel rest
      some (value :: values, rest)
    | ']' :: rest => some ([value], rest)
    | _ => none

/-- A key, the equals sign and a value, with what `skip` leaves out on both sides of the sign. -/
def keyValue? (skip : List Char → List Char) (item : Reader Value) (cs : List Char) :
    Option (List String × Value × List Char) := do
  let (key, rest) ← key? cs
  let rest ← mark? '=' (skip rest)
  let (value, rest) ← item (skip rest)
  some (key, value, rest)

/-- The entries of an inline table, read from after its opening brace, with at most `fuel` keys.
Line breaks and comments may stand anywhere but inside a key. -/
def entries? (item : Reader Value) (fuel : Nat) (table : Table) (cs : List Char) :
    Option (Table × List Char) :=
  match fuel, skipGap false cs with
  | 0, _ => none
  | _ + 1, '}' :: rest => some (table, rest)
  | fuel + 1, cs => do
    let (key, value, rest) ← keyValue? (skipGap false) item cs
    let table ← table.insert value key
    match skipGap false rest with
    | ',' :: rest => entries? item fuel table rest
    | '}' :: rest => some (table, rest)
    | _ => none

/-- A value in which arrays and inline tables are nested at most `depth` deep. -/
def value? (depth : Nat) (cs : List Char) : Option (Value × List Char) :=
  match depth, cs with
  | 0, '[' :: _ | 0, '{' :: _ => none
  | depth + 1, '[' :: rest =>
    (items? (value? depth) (rest.length + 1) rest).map fun (items, after) => (.array items, after)
  | depth + 1, '{' :: rest =>
    (entries? (value? depth) (rest.length + 1) [] rest).map fun (entries, after) =>
      (.table .inline entries, after)
  | _, '"' :: rest => (string? ('"' :: rest)).map fun (text, after) => (.string text, after)
  | _, '\'' :: rest => (string? ('\'' :: rest)).map fun (text, after) => (.string text, after)
  | _, cs => scalar? cs

/-! ## Lines -/

/-- A header, read from after its opening bracket or brackets: the key between spaces, the mark
that closes it, and the end of the line. -/
def header? (closing : List Char) (cs : List Char) : Option (List String × List Char) := do
  let (path, rest) ← key? (skipSpaces cs)
  let rest ← after? closing rest
  (path, ·) <$> lineEnd? rest

/-- The lines that are left, read into `root`; `current` is the path of the last header. -/
def lines? (fuel : Nat) (current : List String) (root : Table) (cs : List Char) : Option Table :=
  match fuel, skipGap false cs with
  | 0, _ => none
  | _ + 1, [] => some root
  | fuel + 1, '[' :: '[' :: rest => do
    let (path, rest) ← header? [']', ']'] rest
    let root ← root.along (Table.announceElement (path.getLastD "")) path.dropLast
    lines? fuel path root rest
  | fuel + 1, '[' :: rest => do
    let (path, rest) ← header? [']'] rest
    let root ← root.along (Table.announce (path.getLastD "")) path.dropLast
    lines? fuel path root rest
  | fuel + 1, cs => do
    let (key, value, rest) ← keyValue? skipSpaces (value? maxDepth) cs
    let root ← root.along (Table.insert value key) current
    lines? fuel current root (← lineEnd? rest)

/-- The document without a byte order mark at its beginning. -/
def withoutMark (cs : List Char) : List Char :=
  (after? ['\ufeff'] cs).getD cs

/-- The table that a document describes. -/
def document? (text : String) : Option Table :=
  let cs := withoutMark text.toList
  lines? (cs.length + 1) [] [] cs

end AttributeLint.Toml
