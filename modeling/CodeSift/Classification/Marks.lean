/-!
# The marks of a byte

Discovery decides about a byte by setting marks on it: that an instruction starts there or runs
through it, that it is data, that something refers to it, that it must not be given up.  Several
marks may stand together.  Eight marks have a meaning; a mark word has sixteen bits, and the
`spare` ones are kept as they are given.

The mark word itself, `Marks.bits`, is the form in which marks are shown; `Marks.ofBits` reads
it back.
-/

namespace CodeSift

/-- What a byte mainly is. -/
inductive ByteKind where
  | unprocessed
  | instructionStart
  | instructionBody
  | data
deriving DecidableEq, Repr, Inhabited

namespace ByteKind

/-- The kind as shown to a reader: the bytes of an instruction are all code. -/
def description : ByteKind → String
  | .unprocessed => "unprocessed"
  | .instructionStart | .instructionBody => "code"
  | .data => "data"

def label : ByteKind → String
  | .unprocessed => "unprocessed"
  | .instructionStart => "instruction_start"
  | .instructionBody => "instruction_body"
  | .data => "data_byte"

/-- The kind of the stretch a byte belongs to: a body byte counts as its instruction. -/
def stretch : ByteKind → ByteKind
  | .instructionBody => .instructionStart
  | kind => kind

end ByteKind

/-- What kind of data a byte was found to be. -/
inductive DataClass where
  | none
  | pointerTable
  | asciiString
  | pascalString
  | wideString
  /-- Data that nothing more is known about. -/
  | raw
deriving DecidableEq, Repr, Inhabited

def DataClass.label : DataClass → String
  | .none => "none"
  | .pointerTable => "pointer_table"
  | .asciiString => "ascii_string"
  | .pascalString => "pascal_string"
  | .wideString => "wide_string"
  | .raw => "raw"

structure Marks where
  start : Bool := false
  /-- The instruction was reached through a guess only. -/
  suspicious : Bool := false
  /-- An instruction that starts earlier runs through this byte. -/
  body : Bool := false
  data : Bool := false
  /-- Something refers to this byte. -/
  labelled : Bool := false
  /-- Something refers to this byte, and an instruction starts here. -/
  resolved : Bool := false
  entry : Bool := false
  /-- The byte is known to start an instruction for a reason outside the code. -/
  anchor : Bool := false
  /-- The eight high bits, which have no meaning. -/
  spare : UInt8 := 0
deriving DecidableEq, Repr, Inhabited

namespace Marks

def none : Marks := {}

def union (f g : Marks) : Marks where
  start := f.start || g.start
  suspicious := f.suspicious || g.suspicious
  body := f.body || g.body
  data := f.data || g.data
  labelled := f.labelled || g.labelled
  resolved := f.resolved || g.resolved
  entry := f.entry || g.entry
  anchor := f.anchor || g.anchor
  spare := f.spare ||| g.spare

def inter (f g : Marks) : Marks where
  start := f.start && g.start
  suspicious := f.suspicious && g.suspicious
  body := f.body && g.body
  data := f.data && g.data
  labelled := f.labelled && g.labelled
  resolved := f.resolved && g.resolved
  entry := f.entry && g.entry
  anchor := f.anchor && g.anchor
  spare := f.spare &&& g.spare

/-- The marks of the first that are not marks of the second. -/
def without (f g : Marks) : Marks where
  start := f.start && !g.start
  suspicious := f.suspicious && !g.suspicious
  body := f.body && !g.body
  data := f.data && !g.data
  labelled := f.labelled && !g.labelled
  resolved := f.resolved && !g.resolved
  entry := f.entry && !g.entry
  anchor := f.anchor && !g.anchor
  spare := f.spare &&& ~~~g.spare

instance : OrOp Marks := ⟨union⟩

def isEmpty (f : Marks) : Bool := f == none

def contains (f g : Marks) : Bool := f.inter g == g

def intersects (f g : Marks) : Bool := f.inter g != none

/-- The byte belongs to an instruction. -/
def isCode (f : Marks) : Bool := f.start || f.body

def isLabel (f : Marks) : Bool := f.labelled || f.resolved

/-- The byte is one that is never given up. -/
def isAnchored (f : Marks) : Bool := f.entry || f.anchor

/-- What the byte mainly is; a start counts before a body, and code before data. -/
def kind (f : Marks) : ByteKind :=
  if f.start then .instructionStart
  else if f.body then .instructionBody
  else if f.data then .data
  else .unprocessed

/-- The mark word, one bit a mark, in the order of the fields. -/
def bits (f : Marks) : Nat :=
  f.start.toNat + 2 * f.suspicious.toNat + 4 * f.body.toNat + 8 * f.data.toNat
    + 16 * f.labelled.toNat + 32 * f.resolved.toNat + 64 * f.entry.toNat + 128 * f.anchor.toNat
    + 256 * f.spare.toNat

def ofBits (word : Nat) : Marks where
  start := word.testBit 0
  suspicious := word.testBit 1
  body := word.testBit 2
  data := word.testBit 3
  labelled := word.testBit 4
  resolved := word.testBit 5
  entry := word.testBit 6
  anchor := word.testBit 7
  spare := UInt8.ofNat (word / 256)

end Marks

/-- A byte as classified: its marks, and what kind of data it was found to be. -/
structure Cell where
  marks : Marks := {}
  dataClass : DataClass := .none
deriving DecidableEq, Repr, Inhabited

namespace Cell

/-- A byte about which nothing is decided. -/
def fresh : Cell := {}

/-- A byte outside the classified part of the image: data about which nothing more is known. -/
def outside : Cell := ⟨{ data := true }, .raw⟩

def mark (c : Cell) (f : Marks) : Cell := { c with marks := c.marks ||| f }

def unmark (c : Cell) (f : Marks) : Cell := { c with marks := c.marks.without f }

def asData (cls : DataClass) (c : Cell) : Cell := ⟨c.marks ||| { data := true }, cls⟩

end Cell

end CodeSift
