import CodeSift.Classification.Coverage
import CodeSift.Classification.Marks

/-!
# The classification of the bytes of an image

A `ByteMap` holds one `Cell` for each covered address.  An address that is not covered reads as
data about which nothing more is known, and writing to it changes nothing.

The cells stand in one array, in the order of the covered addresses.  All reading goes through
`cell` and all writing through `modify`; `toList` pairs every covered address with its cell, in
ascending order.
-/

namespace CodeSift

/-- One cell for each covered address. -/
structure ByteMap where
  coverage : Coverage
  cells : Array Cell
  size_cells : cells.size = coverage.size
deriving DecidableEq

namespace ByteMap

/-! ## Cells -/

/-- The map over the given spans in which nothing is decided. -/
def ofSpans (spans : List Span) : ByteMap where
  coverage := Coverage.ofSpans spans
  cells := Array.replicate (Coverage.ofSpans spans).size .fresh
  size_cells := Array.size_replicate

def contains (m : ByteMap) (a : Address) : Bool := m.coverage.contains a

def cell (m : ByteMap) (a : Address) : Cell :=
  match m.coverage.index? a with
  | none => .outside
  | some i => m.cells.getD i .outside

def marks (m : ByteMap) (a : Address) : Marks := (m.cell a).marks

def dataClass (m : ByteMap) (a : Address) : DataClass := (m.cell a).dataClass

def kind (m : ByteMap) (a : Address) : ByteKind := (m.marks a).kind

def modify (m : ByteMap) (a : Address) (f : Cell → Cell) : ByteMap :=
  match m.coverage.index? a with
  | none => m
  | some i => { m with
      cells := m.cells.modify i f
      size_cells := by rw [Array.size_modify, m.size_cells] }

def modifySpan (m : ByteMap) (s : Span) (f : Cell → Cell) : ByteMap :=
  (m.coverage.within s).foldl (fun m a => m.modify a f) m

/-! ## Marking -/

def setMarks (m : ByteMap) (a : Address) (f : Marks) : ByteMap :=
  m.modify a fun c => { c with marks := f }

def mark (m : ByteMap) (a : Address) (f : Marks) : ByteMap := m.modify a fun c => c.mark f

def unmark (m : ByteMap) (a : Address) (f : Marks) : ByteMap := m.modify a fun c => c.unmark f

def markSpan (m : ByteMap) (s : Span) (f : Marks) : ByteMap := m.modifySpan s fun c => c.mark f

/-- Makes the bytes of a span data of the given class. -/
def markData (m : ByteMap) (s : Span) (cls : DataClass) : ByteMap :=
  m.modifySpan s (Cell.asData cls)

/-- Forgets everything about the bytes of a span. -/
def clear (m : ByteMap) (s : Span) : ByteMap := m.modifySpan s fun _ => .fresh

/-! ## Reading the whole map -/

def spans (m : ByteMap) : List Span := m.coverage.spans

def size (m : ByteMap) : Nat := m.cells.size

def isEmpty (m : ByteMap) : Bool := m.cells.isEmpty

/-- Every covered address with its cell, ascending. -/
def toList (m : ByteMap) : List (Address × Cell) := m.coverage.addresses.zip m.cells.toList

/-- The addresses at which an instruction starts, ascending. -/
def starts (m : ByteMap) : List Address :=
  (m.toList.filter fun (_, c) => c.marks.start).map Prod.fst

def countKind (m : ByteMap) (k : ByteKind) : Nat :=
  (m.cells.toList.filter fun c => c.marks.kind == k).length

def countClass (m : ByteMap) (cls : DataClass) : Nat :=
  (m.cells.toList.filter fun c => c.dataClass == cls).length

/-- The byte is covered and nothing is decided about it. -/
def isUnprocessed (m : ByteMap) (a : Address) : Bool := m.contains a && m.kind a == .unprocessed

/-- The span holds bytes, and nothing is decided about any of them. -/
def isUnprocessedSpan (m : ByteMap) (s : Span) : Bool := !s.isEmpty && s.all m.isUnprocessed

/-- The first address from `a` on, at most `fuel` further, at which the test fails. -/
def skipWhile (test : Address → Bool) : Nat → Address → Address
  | 0, a => a
  | fuel + 1, a => if test a then skipWhile test fuel (a + 1) else a

/-- The address behind the instruction that starts at `a`. -/
def instructionStop (m : ByteMap) (a : Address) : Address :=
  skipWhile (fun b => m.contains b && (m.marks b).body) m.size (Address.addSaturated a 1)

end ByteMap

end CodeSift
