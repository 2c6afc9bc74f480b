import CodeSift.PortableExecutable.File

/-!
# The Rich header

Linkers leave a list of the tools they used between the stub of the old format and the header
proper.  It starts with the word `DanS`, ends with the word `Rich` and a key, and all of it before
the closing word is combined with the key by exclusive or.  A stub need not have one, but once the
closing word is there the list must be whole.
-/

namespace CodeSift.PortableExecutable.RichHeader

/-- The word that starts the list. -/
def openingMark : Nat := 0x536e6144

def closingMark : Nat := 0x68636952

/-- The first offset, with room for `size` bytes, at which the word fits. -/
def findWord? (stub : Array UInt8) (size : Nat) (fits : Nat → Bool) : Option Nat :=
  (List.range (stub.size + 1 - size)).find? fun offset => (number? stub offset 4).any fits

/-- The stub has no list of tools, or a whole one: its first entry starts before the closing word,
and from there on the stub is made of whole words. -/
def isSound (stub : Array UInt8) : Bool :=
  match findWord? stub 8 fun word => word == closingMark with
  | none => true
  | some closing =>
    let key := (number? stub (closing + 4) 4).getD 0
    match findWord? stub 4 fun word => word ^^^ key == openingMark with
    | none => false
    | some opening => opening + 4 < closing && (stub.size - (opening + 4)) % 4 == 0

end CodeSift.PortableExecutable.RichHeader
