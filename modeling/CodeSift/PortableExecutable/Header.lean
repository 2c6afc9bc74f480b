import CodeSift.PortableExecutable.RichHeader
import CodeSift.PortableExecutable.SectionName

/-!
# The headers of portable executables

A portable executable starts with the stub of an old format, which holds the offset of the
header proper: a fixed part, an optional part whose layout hangs on its first number, and the
headers of the sections.  A file that ends inside a header is damaged.

`Header.offset?` finds the bytes of a place in memory.  Loaders round the offset of a section down
and its size up, so this is more generous than the plain numbers of the section.
-/

namespace CodeSift.PortableExecutable

/-! ## Headers -/

/-- The place of a table in memory. -/
structure Directory where
  rva : Nat
  size : Nat
deriving DecidableEq, Repr, Inhabited

structure SectionHeader where
  name : String
  virtualSize : Nat
  rva : Nat
  rawSize : Nat
  rawOffset : Nat
  characteristics : Nat
deriving DecidableEq, Repr, Inhabited

/-- The optional part of the header.  Without it, everything is zero or missing. -/
structure OptionalHeader where
  wide : Bool := false
  base : Nat := 0
  entry : Nat := 0
  fileAlignment : Nat := 0
  directories : List Directory := []
deriving DecidableEq, Repr, Inhabited

structure Header where
  machine : Nat
  optionalPart : OptionalHeader
  sections : List SectionHeader
deriving DecidableEq, Repr, Inhabited

def x86Machine : Nat := 0x14c

def readDirectory? (file : Array UInt8) (offset : Nat) : Option Directory :=
  return ⟨← number? file offset 4, ← number? file (offset + 4) 4⟩

/-- The section header at an offset, the string table being at the offset `strings`. -/
def readSection? (file : Array UInt8) (strings offset : Nat) : Option SectionHeader :=
  return {
    name := ← SectionName.resolve? file strings (file.extract offset (offset + 8)).toList
    virtualSize := ← number? file (offset + 8) 4
    rva := ← number? file (offset + 12) 4
    rawSize := ← number? file (offset + 16) 4
    rawOffset := ← number? file (offset + 20) 4
    characteristics := ← number? file (offset + 36) 4 }

def maxDirectories : Nat := 16

def readDirectories? (file : Array UInt8) (offset count : Nat) : Option (List Directory) :=
  if maxDirectories < count then none
  else (List.range count).mapM fun k => readDirectory? file (offset + 8 * k)

def readOptional? (file : Array UInt8) (offset : Nat) : Option OptionalHeader := do
  let magic ← number? file offset 2
  if magic = 0x10b then
    let count ← number? file (offset + 92) 4
    return {
      wide := false
      base := ← number? file (offset + 28) 4
      entry := ← number? file (offset + 16) 4
      fileAlignment := ← number? file (offset + 36) 4
      directories := ← readDirectories? file (offset + 96) count }
  else if magic = 0x20b then
    let count ← number? file (offset + 108) 4
    return {
      wide := true
      base := ← number? file (offset + 24) 8
      entry := ← number? file (offset + 16) 4
      fileAlignment := ← number? file (offset + 36) 4
      directories := ← readDirectories? file (offset + 112) count }
  else none

namespace Header

def symbolSize : Nat := 18

/-- The header of a file.  The string table stands right behind the symbols. -/
def read? (file : Array UInt8) : Option Header := do
  guard ((← number? file 0 2) = 0x5a4d)
  let start ← number? file 0x3c 4
  guard (0x40 < start)
  guard (RichHeader.isSound (file.extract 0x40 start))
  guard ((← number? file start 4) = 0x4550)
  let machine ← number? file (start + 4) 2
  let count ← number? file (start + 6) 2
  let symbols ← number? file (start + 12) 4
  let symbolCount ← number? file (start + 16) 4
  let optionalSize ← number? file (start + 20) 2
  let _ ← number? file (start + 22) 2
  let optionalPart ← if optionalSize = 0 then some {} else readOptional? file (start + 24)
  let sections ← (List.range count).mapM fun k =>
    readSection? file (symbols + symbolSize * symbolCount) (start + 24 + optionalSize + 40 * k)
  return ⟨machine, optionalPart, sections⟩

/-- The directory with the given number, if it is there and not all zero. -/
def directory? (h : Header) (k : Nat) : Option Directory :=
  h.optionalPart.directories[k]?.filter fun d => d.rva != 0 || d.size != 0

/-! ## Places in memory -/

/-- Offsets of sections in the file are multiples of this, whatever the header has. -/
def sectorSize : Nat := 0x200

/-- Sizes of sections in memory are multiples of this. -/
def pageSize : Nat := 0x1000

/-- The number of bytes of a section that a loader reads. -/
def readSize (fileAlignment : Nat) (s : SectionHeader) : Nat :=
  let stored := min
    (alignUp (s.rawOffset + s.rawSize) fileAlignment - alignDown s.rawOffset sectorSize)
    (alignUp s.rawSize pageSize)
  if s.virtualSize = 0 then stored
  else if stored = 0 then s.virtualSize
  else min stored (alignUp s.virtualSize pageSize)

def isPowerOfTwo (n : Nat) : Bool := n != 0 && n &&& (n - 1) == 0

/-- The offset in the file of a place in memory.  Nothing has one if the alignment makes no
sense. -/
def offset? (h : Header) (rva : Nat) : Option Nat := do
  let alignment := h.optionalPart.fileAlignment
  guard (isPowerOfTwo alignment)
  let s ← h.sections.find? fun s => s.rva ≤ rva && rva < s.rva + readSize alignment s
  return rva - s.rva + alignDown s.rawOffset sectorSize

end Header

end CodeSift.PortableExecutable
