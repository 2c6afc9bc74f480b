/-!
# Decimal numerals

A numeral is one digit or more, perhaps behind a plus sign.  Zeros in front do not count.
-/

namespace CodeSift.Decimal

/-- The number that the digits spell, most significant first. -/
def value (digits : List Char) : Nat :=
  digits.foldl (fun n c => 10 * n + (c.toNat - '0'.toNat)) 0

/-- The number that a numeral stands for. -/
def read? (text : List Char) : Option Nat :=
  let digits := match text with
    | '+' :: rest => rest
    | _ => text
  if !digits.isEmpty && digits.all Char.isDigit then some (value digits) else none

end CodeSift.Decimal
