import CodeSift.PortableExecutable.File
import CodeSift.Text.Decimal

/-!
# Names of sections

A section header has room for eight bytes of name.  A longer name stands in the string table of
the file, and the header holds its index there: behind one slash in decimal, behind two slashes in
the digits of base 64.  An index that leads nowhere damages the file, while a short name that is
no text just counts as empty.
-/

namespace CodeSift.PortableExecutable.SectionName

def base64Digit? (c : Char) : Option Nat :=
  if c.isUpper then some (c.toNat - 'A'.toNat)
  else if c.isLower then some (c.toNat - 'a'.toNat + 26)
  else if c.isDigit then some (c.toNat - '0'.toNat + 52)
  else if c = '+' then some 62
  else if c = '/' then some 63
  else none

/-- The number that digits of base 64 spell, most significant first. -/
def base64? (digits : List Char) : Option Nat :=
  return (← digits.mapM base64Digit?).foldl (fun n d => 64 * n + d) 0

def inTable? (file : Array UInt8) (strings : Nat) (index : Option Nat) : Option String := do
  text? file (strings + (← index))

/-- The name that the bytes of a section header stand for, the string table of the file being at
the offset `strings`. -/
def resolve? (file : Array UInt8) (strings : Nat) (stored : List UInt8) : Option String :=
  match stored with
  | 0x2f :: 0x2f :: digits => do inTable? file strings (base64? (← textOf? digits).toList)
  | 0x2f :: digits => do inTable? file strings (Decimal.read? (← textOf? digits).toList)
  | _ => some ((textOf? stored).getD "")

end CodeSift.PortableExecutable.SectionName
