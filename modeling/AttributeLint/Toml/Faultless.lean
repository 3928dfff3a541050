import AttributeLint.Toml.Value

/-!
# Faultless — values without faulty numbers

A faulty number does no harm where nobody looks at it. A value that is looked at whole must have
none, at any depth.
-/

namespace AttributeLint.Toml

mutual

/-- No number in the value is faulty. -/
def Value.isFaultless : Value → Bool
  | .faultyNumber _ => false
  | .array items => Value.areFaultless items
  | .table _ entries => Table.isFaultless entries
  | .tables items => Table.areFaultless items
  | _ => true

/-- No number in the values is faulty. -/
def Value.areFaultless : List Value → Bool
  | [] => true
  | item :: items => item.isFaultless && Value.areFaultless items

/-- No number in the entries of a table is faulty. -/
def Table.isFaultless : List (String × Value) → Bool
  | [] => true
  | entry :: entries => Table.isEntryFaultless entry && Table.isFaultless entries

/-- No number in the value of an entry is faulty. -/
def Table.isEntryFaultless : String × Value → Bool
  | (_, value) => value.isFaultless

/-- No number in the tables is faulty. -/
def Table.areFaultless : List (List (String × Value)) → Bool
  | [] => true
  | item :: items => Table.isFaultless item && Table.areFaultless items

end

end AttributeLint.Toml
