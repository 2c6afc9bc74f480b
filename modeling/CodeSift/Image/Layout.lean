import CodeSift.Address

/-!
# The layout of an image

A container file says where its parts go in memory.  A `Layout` is that information, free of the
container's format: the preferred base address, the entry point, the sections with the place of
their bytes in the file and in memory, the exported functions and the imported ones.

Places in memory are given relative to the base; such a number is an RVA.
-/

namespace CodeSift

/-- A section: a piece of the file and its place in memory. -/
structure Section where
  name : String
  rva : UInt32
  rawSize : UInt32
  rawOffset : UInt32
  characteristics : UInt32
deriving DecidableEq, Repr, Inhabited

namespace Section

def holdsCode : UInt32 := 0x00000020

def mayExecute : UInt32 := 0x20000000

def mayRead : UInt32 := 0x40000000

def isExecutable (s : Section) : Bool := s.characteristics &&& (mayExecute ||| holdsCode) != 0

/-- The section may be read; an executable one always may. -/
def isReadable (s : Section) : Bool := s.isExecutable || s.characteristics &&& mayRead != 0

/-- The place lies in the section, as far as the file has bytes for it. -/
def contains (s : Section) (rva : UInt32) : Bool := s.rva ≤ rva && rva - s.rva < s.rawSize

def stop (s : Section) : UInt32 := Address.addSaturated s.rva s.rawSize.toNat

end Section

structure Export where
  name : String
  rva : UInt32
deriving DecidableEq, Repr, Inhabited

/-- An imported function, and the place that will hold its address. -/
structure Import where
  library : String
  name : String
  slot : UInt32
deriving DecidableEq, Repr, Inhabited

/-- Where the parts of an image go. -/
structure Layout where
  base : Address
  entry : UInt32
  sections : List Section
  exports : List Export := []
  imports : List Import := []
deriving DecidableEq, Repr, Inhabited

namespace Layout

/-- The layout of a file that is all code, entered at its first byte. -/
def flat (base : Address) (codeRva codeSize : UInt32) : Layout where
  base
  entry := codeRva
  sections := [{
    name := ".text", rva := codeRva, rawSize := codeSize, rawOffset := 0
    characteristics := Section.holdsCode ||| Section.mayExecute ||| Section.mayRead }]

/-- The first section that a place lies in. -/
def sectionAt? (l : Layout) (rva : UInt32) : Option Section :=
  l.sections.find? fun s => s.contains rva

/-- The offset in the file of a place in memory. -/
def fileOffset? (l : Layout) (rva : UInt32) : Option Nat :=
  (l.sectionAt? rva).map fun s => s.rawOffset.toNat + (rva - s.rva).toNat

def address (l : Layout) (rva : UInt32) : Address := l.base + rva

end Layout

end CodeSift
