import CodeSift.Classification.Runs
import CodeSift.CrossReference.Index
import CodeSift.Image.Loaded

/-!
# Tables of pointers among the unprocessed bytes

Four or more consecutive words that are all addresses of possible code form a table of pointers.
The unprocessed runs are searched twice, first at addresses divisible by four, then at every
address.  A table becomes data, each of its slots a cross-reference, and the code it points to is
handed on to be decoded.

A word does not count when it points back into the table found so far, its own slot included.

A search fails when the address to look at next does not exist.  This happens only in a run that
ends at the highest address.
-/

namespace CodeSift

namespace PointerTables

def minSlots : Nat := 4

def slotSize : Nat := 4

structure Scan where
  map : ByteMap
  index : ReferenceIndex
  tables : List Span := []
  /-- The slots of all tables together. -/
  slots : Nat := 0
  /-- Where the slots point, without the instructions that are known already. -/
  targets : List Address := []
deriving DecidableEq

/-- The slot number `i` of a table holds the address of possible code outside the table so far,
and lies in front of `limit`. -/
def isSlot (image : Image) (m : ByteMap) (start limit : Address) (i : Nat) : Bool :=
  match Address.addChecked? start (slotSize * i) with
  | none => false
  | some slot =>
    if limit < Address.addSaturated slot slotSize then false
    else match image.word? slot with
      | none => false
      | some target => !decide (target ∈ (⟨start, slot + 4⟩ : Span)) && m.admitsCode image target

/-- The number of consecutive slots from number `i` on, of at most `fuel`. -/
def countSlots (image : Image) (m : ByteMap) (start limit : Address) : Nat → Nat → Nat
  | 0, _ => 0
  | fuel + 1, i =>
    if isSlot image m start limit i then countSlots image m start limit fuel (i + 1) + 1 else 0

/-- The number of consecutive slots from `start` on, none reaching past `limit`. -/
def length (image : Image) (m : ByteMap) (start limit : Address) : Nat :=
  countSlots image m start limit (limit.toNat - start.toNat) 0

def noteSlot (image : Image) (scan : Scan) (slot : Address) : Scan :=
  match image.word? slot with
  | none => scan
  | some target => { scan with
      index := scan.index.insert ⟨.tableEntry, slot, target⟩
      targets := if (scan.map.marks target).start then scan.targets else scan.targets ++ [target] }

def slotsOf (start : Address) (count : Nat) : List Address :=
  (List.range count).map fun i => start + UInt32.ofNat (slotSize * i)

def tableSpan (start : Address) (count : Nat) : Span :=
  ⟨start, start + UInt32.ofNat (slotSize * count)⟩

def noteTable (image : Image) (scan : Scan) (start : Address) (count : Nat) : Scan :=
  let table := tableSpan start count
  let scan := { scan with
    map := scan.map.markData table .pointerTable
    tables := scan.tables ++ [table]
    slots := scan.slots + count }
  (slotsOf start count).foldl (noteSlot image) scan

/-- Searches from `a` to the end of a run in steps of `stride`, with at most `fuel` looks. -/
def searchFrom (image : Image) (stride : Nat) (limit : Address) :
    Nat → Address → Scan → Option Scan
  | 0, _, scan => some scan
  | fuel + 1, a, scan =>
    if limit < Address.addSaturated a slotSize then some scan
    else
      let count := length image scan.map a limit
      if count < minSlots then
        match Address.addChecked? a stride with
        | none => none
        | some next => searchFrom image stride limit fuel next scan
      else searchFrom image stride limit fuel (tableSpan a count).stop
        (noteTable image scan a count)

/-- Where the search of a run begins: at its start, or at the next address divisible by four. -/
def firstLook? (aligned : Bool) (start : Address) : Option Address :=
  if aligned then (Address.addChecked? start 3).map fun a => a &&& 0xfffffffc else some start

/-- Searches a run.  If it ends at the highest address, the search looks there too. -/
def searchRun (image : Image) (aligned : Bool) (scan : Scan) (run : Span) : Option Scan :=
  match firstLook? aligned run.start with
  | none => some scan
  | some a => searchFrom image (if aligned then slotSize else 1) run.stop (run.size + 1) a scan

/-- Searches the runs that are unprocessed at this point. -/
def searchAll (image : Image) (aligned : Bool) (scan : Scan) : Option Scan :=
  scan.map.unprocessedRuns.foldlM (searchRun image aligned) scan

/-- The list without an element that equals the one in front of it. -/
def dropRepeats : List Address → List Address
  | [] => []
  | [a] => [a]
  | a :: b :: rest => if a = b then dropRepeats (b :: rest) else a :: dropRepeats (b :: rest)

/-- Searches the unprocessed bytes of an image for tables; the targets come out ascending and
without repetition. -/
def detect (image : Image) (m : ByteMap) (index : ReferenceIndex) : Option Scan := do
  let scan ← searchAll image true { map := m, index }
  let scan ← searchAll image false scan
  return { scan with targets := dropRepeats (stableSort UInt32.toNat scan.targets) }

end PointerTables

end CodeSift
