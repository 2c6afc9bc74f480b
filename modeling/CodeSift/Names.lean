import Std.Data.TreeMap
import CodeSift.Classification.Runs
import CodeSift.CrossReference.Index
import CodeSift.Image.Loaded

/-!
# Names of addresses

An address gets its name from the strongest source that names it: the entry point, an export, an
import, or else the way in which the code refers to it.  Among sources of one strength the first
counts.

`NameTable.candidates` lists all sources in order; the table is what remains of them.
-/

namespace CodeSift

/-- Where a name comes from, the strongest source first. -/
inductive NameKind where
  | entry
  | exported
  | imported
  | function
  /-- The target of a jump or of a slot of a table. -/
  | label
  | table
  | data
deriving DecidableEq, Repr, Inhabited

namespace NameKind

/-- The place of a source in the order of strength. -/
def rank : NameKind → Nat
  | .entry => 0
  | .exported => 1
  | .imported => 2
  | .function => 3
  | .label => 4
  | .table => 5
  | .data => 6

def description : NameKind → String
  | .entry => "entry"
  | .exported => "export"
  | .imported => "import"
  | .function => "function"
  | .label => "label"
  | .table => "table"
  | .data => "data"

/-- The first part of the names that are made up for addresses of this kind. -/
def stem : NameKind → String
  | .function => "sub"
  | .label => "loc"
  | .table => "off"
  | .data => "dword"
  | .entry | .exported | .imported => "sym"

end NameKind

structure Name where
  text : String
  kind : NameKind
deriving DecidableEq, Repr, Inhabited

/-- The name made up for an address of some kind. -/
def Name.madeUp (kind : NameKind) (a : Address) : Name :=
  ⟨kind.stem ++ "_" ++ Hex.upper 8 a.toNat, kind⟩

structure NameTable where
  names : Std.TreeMap Address Name := ∅

namespace NameTable

def empty : NameTable := {}

def get? (t : NameTable) (a : Address) : Option Name := t.names[a]?

def nameOf? (t : NameTable) (a : Address) : Option String := (t.get? a).map Name.text

/-- The named addresses, ascending. -/
def toList (t : NameTable) : List (Address × Name) := t.names.toList

def size (t : NameTable) : Nat := t.names.size

def isEmpty (t : NameTable) : Bool := t.names.isEmpty

/-- A name counts when the address has none, or one from a weaker source. -/
def accepts (t : NameTable) (a : Address) (name : Name) : Bool :=
  match t.get? a with
  | none => true
  | some existing => decide (name.kind.rank < existing.kind.rank)

def insert (t : NameTable) (a : Address) (name : Name) : NameTable :=
  if t.accepts a name then ⟨t.names.insert a name⟩ else t

/-- The kind of name that a cross-reference gives its target. -/
def kindOf? (m : ByteMap) (r : CrossReference) : Option NameKind :=
  let known := (m.marks r.target).start
  if r.cls = .call then if known then some .function else none
  else if r.cls = .jump ∨ r.cls = .branch ∨ r.cls = .tableEntry ∨ r.cls = .immediate then
    if known then some .label else none
  else if r.cls = .jumpTable then some .table
  else if r.cls = .data then some .data
  else none

/-- Every address that is named by some source, with that name, in the order of the sources. -/
def candidates (image : Image) (m : ByteMap) (index : ReferenceIndex) : List (Address × Name) :=
  [(image.entryPoint, ⟨"entry", .entry⟩)]
    ++ (image.layout.exports.map fun e => (image.address e.rva, ⟨e.name, .exported⟩))
    ++ (image.layout.imports.map fun i =>
        (image.address i.slot, ⟨i.library ++ "!" ++ i.name, .imported⟩))
    ++ (index.forward.filterMap fun r =>
        (kindOf? m r).map fun kind => (r.target, Name.madeUp kind r.target))
    ++ ((m.runs.filter fun run => run.value.dataClass == .pointerTable).map fun run =>
        (run.span.start, Name.madeUp .table run.span.start))

def build (image : Image) (m : ByteMap) (index : ReferenceIndex) : NameTable :=
  (candidates image m index).foldl (fun t (a, name) => t.insert a name) empty

end NameTable

end CodeSift
