import CodeSift.Review.CodeBlocks
import CodeSift.Review.PointerTables
import CodeSift.Review.Strings
import CodeSift.Settings.Basic

/-!
# The passes over the bytes that are left

After discovery the unprocessed bytes are searched for tables of pointers, then for strings;
guessed code is reviewed; and whatever is still undecided becomes data.  `Passes.run` does all
this once and reports what it changed.
-/

namespace CodeSift

namespace Passes

/-- What a run of the passes changed. -/
structure Report where
  tables : Nat := 0
  tableEntries : Nat := 0
  strings : Nat := 0
  blocksReclassified : Nat := 0
  bytesReclassified : Nat := 0
  bytesBackfilled : Nat := 0
deriving DecidableEq, Repr, Inhabited

def Report.isNoop (r : Report) : Bool := r == {}

/-- Makes every unprocessed byte data, and counts them. -/
def backfill (m : ByteMap) : ByteMap × Nat :=
  m.unprocessedRuns.foldl (fun (m, n) run => (m.markData run .raw, n + run.size)) (m, 0)

/-- A map, its index, and what was changed in them so far. -/
structure Outcome where
  map : ByteMap
  index : ReferenceIndex
  report : Report := {}
deriving DecidableEq

/-- Searches for tables of pointers; none if the search fails. -/
def findTables (image : Image) (o : Outcome) : Option Outcome :=
  (PointerTables.detect image o.map o.index).map fun scan =>
    ⟨scan.map, scan.index,
      { o.report with tables := scan.tables.length, tableEntries := scan.slots }⟩

def findStrings (image : Image) (o : Outcome) : Outcome :=
  let scan := Strings.detect image o.map
  ⟨scan.map, o.index, { o.report with strings := scan.strings.length }⟩

def reviewCode (image : Image) (decoder : Decoder) (o : Outcome) : Outcome :=
  let review := CodeBlocks.review image decoder o.map o.index
  ⟨review.map, review.index, { o.report with
    blocksReclassified := review.blocksReclassified
    bytesReclassified := review.bytesReclassified }⟩

def fillRest (o : Outcome) : Outcome :=
  let (m, n) := backfill o.map
  ⟨m, o.index, { o.report with bytesBackfilled := n }⟩

/-- Runs the passes that the settings ask for.  The code that tables point to is left for the
caller to decode. -/
def run (image : Image) (decoder : Decoder) (settings : Settings) (m : ByteMap)
    (index : ReferenceIndex) : Option Outcome := do
  let o : Outcome := { map := m, index }
  let o ← if settings.detectAddressTables then findTables image o else some o
  let o := if settings.detectStrings then findStrings image o else o
  let o := if settings.validateCode then reviewCode image decoder o else o
  return fillRest o

end Passes

end CodeSift
