/-!
# Digits — the numbers that ASCII digits write

Digits of bases up to sixteen, in either case, and the numbers they write. A decimal number is read
only if a word of 64 bits can hold it.
-/

namespace AttributeLint.Text

/-- The value of a hexadecimal digit. -/
def hexDigit? (c : Char) : Option Nat :=
  if '0' ≤ c ∧ c ≤ '9' then some (c.toNat - 48)
  else if 'a' ≤ c ∧ c ≤ 'f' then some (c.toNat - 87)
  else if 'A' ≤ c ∧ c ≤ 'F' then some (c.toNat - 55)
  else none

/-- A hexadecimal digit. -/
def isHexDigit (c : Char) : Bool :=
  (hexDigit? c).isSome

/-- The number that digits write in a base. -/
def digitsValue (base : Nat) (digits : List Char) : Nat :=
  digits.foldl (fun n c => base * n + (hexDigit? c).getD 0) 0

/-- The character with the code point `n`, unless `n` is a surrogate or too large. -/
def charOfCode? (n : Nat) : Option Char :=
  if n.isValidChar then some (Char.ofNat n) else none

/-- The greatest number that a word of 64 bits holds. -/
def maxNumber : Nat :=
  Nat.pow 2 64 - 1

/-- The number that a text writes, if it consists of decimal digits and is not too large. -/
def number? (cs : List Char) : Option Nat :=
  if !cs.isEmpty && cs.all Char.isDigit && digitsValue 10 cs ≤ maxNumber then
    some (digitsValue 10 cs)
  else none

end AttributeLint.Text
