import AttributeLint.Toml.Value

/-!
# Table — what headers and keys do to the tables of a document

A key is given a value at most once, and a table is announced at most once. Each operation follows a
path from a table to another one, creates the tables that are missing on the way, and fails where
the path meets something that may not be extended.
-/

namespace AttributeLint.Toml.Table

/-- The table with the value under the key replaced or appended. -/
def put (key : String) (value : Value) : Table → Table
  | [] => [(key, value)]
  | (k, v) :: rest => if k = key then (k, value) :: rest else (k, v) :: put key value rest

/-- The last table of an array changed. -/
def changeLast (f : Table → Option Table) (items : List Table) : Option (List Table) := do
  let last ← items.getLast?
  (f last).map fun changed => items.dropLast ++ [changed]

/-- Gives a value to a dotted key. Tables that dotted keys made can be extended in this way, and so
can those that headers only passed through; the latter count as made by a dotted key from then on.
The last table of an array can be passed through. -/
def insert (value : Value) : (key : List String) → Table → Option Table
  | [], _ => none
  | [part], entries =>
    match entries.lookup part with
    | some _ => none
    | none => some (put part value entries)
  | part :: parts, entries =>
    match entries.lookup part with
    | none => (insert value parts []).map fun inner => put part (.table .dotted inner) entries
    | some (.table .dotted inner) | some (.table .implicit inner) =>
      (insert value parts inner).map fun inner => put part (.table .dotted inner) entries
    | some (.tables items) =>
      if parts.length ≤ 1 then none
      else (changeLast (insert value parts) items).map fun items => put part (.tables items) entries
    | some _ => none

/-- Follows the beginning of a header: creates missing tables, passes through tables that are not
inline and through the last tables of arrays, and applies `f` to the table at the end. -/
def along (f : Table → Option Table) : (path : List String) → Table → Option Table
  | [], entries => f entries
  | part :: parts, entries =>
    match entries.lookup part with
    | none => (along f parts []).map fun inner => put part (.table .implicit inner) entries
    | some (.table .inline _) => none
    | some (.table origin inner) =>
      (along f parts inner).map fun inner => put part (.table origin inner) entries
    | some (.tables items) =>
      (changeLast (along f parts) items).map fun items => put part (.tables items) entries
    | some _ => none

/-- Announces a table under a key: it is new, or was only passed through so far. -/
def announce (key : String) (entries : Table) : Option Table :=
  match entries.lookup key with
  | none => some (put key (.table .header []) entries)
  | some (.table .implicit inner) => some (put key (.table .header inner) entries)
  | some _ => none

/-- Announces one more table of the array under a key. -/
def announceElement (key : String) (entries : Table) : Option Table :=
  match entries.lookup key with
  | none => some (put key (.tables [[]]) entries)
  | some (.tables items) => some (put key (.tables (items ++ [[]])) entries)
  | some _ => none

end AttributeLint.Toml.Table
