/-!
# Value — the values of a TOML document

A table remembers how it came about, because a table can be extended in some ways and not in
others: an inline table not at all, one that a header announced not by dotted keys, one that only
stands on the way to another table also by a header of its own. A number that has the shape of one
but no value is faulty, which matters only where somebody looks at it.
-/

namespace AttributeLint.Toml

/-- How a table came about. -/
inductive TableOrigin where
  /-- By a header of its own, or as an element of an array of tables. -/
  | header
  /-- On the way to the table of a longer header. -/
  | implicit
  /-- By a dotted key, or on the way of one through a table that was implicit before. -/
  | dotted
  /-- Between braces. -/
  | inline
  deriving DecidableEq, Repr

/-- A value. Numbers with a fraction and dates are kept as they are written. -/
inductive Value where
  | string (text : String)
  | integer (value : Int)
  | float (written : String)
  /-- A number without a value: an integer out of range, a number that would be rounded to infinity,
  the letter of a base without digits, or groups of something else than digits. -/
  | faultyNumber (written : String)
  | boolean (value : Bool)
  | dateTime (written : String)
  | array (items : List Value)
  | table (origin : TableOrigin) (entries : List (String × Value))
  /-- The tables of an array whose elements have headers. -/
  | tables (items : List (List (String × Value)))
  deriving Repr

/-- The entries of a table, in the order of their keys' first appearance. -/
abbrev Table := List (String × Value)

/-- A reader takes a text and gives what it read and what follows, or nothing. -/
abbrev Reader (α : Type) := List Char → Option (α × List Char)

end AttributeLint.Toml
