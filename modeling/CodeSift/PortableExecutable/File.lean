import CodeSift.LittleEndian

/-!
# Reading the bytes of a file

Numbers and texts at given offsets.  All numbers are little-endian.  Nothing is read past the end
of a file, except that a text may start there and is then empty.
-/

namespace CodeSift.PortableExecutable

/-- The number in the given bytes of a file, if the file holds them all. -/
def number? (file : Array UInt8) (offset size : Nat) : Option Nat :=
  if offset + size ≤ file.size then
    some (LittleEndian.value (file.extract offset (offset + size)).toList)
  else none

/-- Numbers that follow each other, `count` of them or as many as the file holds. -/
def numbers (file : Array UInt8) (size : Nat) : Nat → Nat → List Nat
  | 0, _ => []
  | count + 1, offset =>
    match number? file offset size with
    | none => []
    | some n => n :: numbers file size count (offset + size)

/-- The numbers before the first zero.  There must be one. -/
def numbersToZero? (file : Array UInt8) (size : Nat) : (bound offset : Nat) → Option (List Nat)
  | 0, _ => none
  | bound + 1, offset => do
    let n ← number? file offset size
    if n = 0 then return []
    return n :: (← numbersToZero? file size bound (offset + size))

/-- The text that the bytes spell up to the first zero, if any. -/
def textOf? (bytes : List UInt8) : Option String :=
  String.fromUTF8? ⟨(bytes.takeWhile fun b => b != 0).toArray⟩

/-- The text at an offset, which ends at a zero or with the file. -/
def text? (file : Array UInt8) (offset : Nat) : Option String :=
  if offset ≤ file.size then textOf? (file.extract offset file.size).toList else none

def alignDown (n unit : Nat) : Nat := n / unit * unit

def alignUp (n unit : Nat) : Nat := (n + unit - 1) / unit * unit

end CodeSift.PortableExecutable
