/-!
# Hexadecimal numerals of a fixed width

Addresses and opcodes are shown in hexadecimal, padded with zeros to the width of the word
they come from.
-/

namespace CodeSift.Hex

/-- The lower case digit of a value below sixteen. -/
def digit (n : Nat) : Char := "0123456789abcdef".toList.getD n '0'

/-- The digits of `n`, at least `width` of them, most significant first, before those of `tail`. -/
def digits : Nat → Nat → List Char → List Char
  | 0, n, tail => if n = 0 then tail else (Nat.toDigits 16 n) ++ tail
  | width + 1, n, tail => digits width (n / 16) (digit (n % 16) :: tail)

/-- `n` in lower case, zero-padded to `width` digits. -/
def lower (width n : Nat) : String := String.ofList (digits width n [])

def upper (width n : Nat) : String := String.ofList ((digits width n []).map Char.toUpper)

/-- `n` in lower case behind `0x`, zero-padded to `width` digits. -/
def marked (width n : Nat) : String := "0x" ++ lower width n

end CodeSift.Hex
