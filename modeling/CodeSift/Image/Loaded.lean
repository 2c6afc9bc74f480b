import CodeSift.Classification.ByteMap
import CodeSift.Image.Layout
import CodeSift.LittleEndian
import CodeSift.StableSort
import CodeSift.Text.Hex

/-!
# Loaded images

Loading places the bytes of a file at their addresses.  The result is a list of `Region`s, by
ascending address.  Regions may overlap; an address belongs to the first region that reaches it.

A section brings no region when the file ends before it, when it has no bytes in the file, or
when its address would lie past the end of the address space.  A region is cut where the file
ends, and at the highest address, which no region ever reaches.

An image is refused when no code is loaded, and when the entry point lies in no section.
-/

namespace CodeSift

/-- Why a file is not analysed. -/
inductive ImageError where
  /-- The file is not of the container format, or damaged. -/
  | malformed
  /-- The file is for another processor. -/
  | foreignMachine (machine : Nat)
  /-- The file is for the 64-bit mode of the processor. -/
  | wideFormat
  /-- No executable section has any bytes. -/
  | noCode
  /-- The entry point lies in no section. -/
  | entryOutside (rva : UInt32)
deriving DecidableEq, Repr, Inhabited

def ImageError.message : ImageError → String
  | .malformed => "Failed to parse image: Not a PE image"
  | .foreignMachine machine => "Unsupported architecture: COFF machine " ++ Hex.marked 4 machine
  | .wideFormat => "Unsupported architecture: PE32+ image"
  | .noCode => "Image has no executable bytes"
  | .entryOutside rva => "Entry point RVA " ++ Hex.marked 1 rva.toNat ++ " is outside every section"

/-- Consecutive bytes in memory. -/
structure Region where
  start : Address
  bytes : Array UInt8
  executable : Bool
  readable : Bool
deriving DecidableEq, Repr, Inhabited

namespace Region

def span (r : Region) : Span := ⟨r.start, r.start + UInt32.ofNat r.bytes.size⟩

def offset (r : Region) (a : Address) : Nat := (a - r.start).toNat

/-- The region of a section, if it has one. -/
def ofSection? (file : Array UInt8) (base : Address) (s : Section) : Option Region :=
  let offset := s.rawOffset.toNat
  if file.size ≤ offset || s.rawSize == 0 then none
  else do
    let start ← Address.addChecked? base s.rva.toNat
    let size := min s.rawSize.toNat (Address.last.toNat - start.toNat)
    return ⟨start, file.extract offset (offset + size), s.isExecutable, s.isReadable⟩

end Region

structure Image where
  layout : Layout
  regions : List Region
deriving DecidableEq, Repr, Inhabited

namespace Image

/-- Places the bytes of a file in memory. -/
def load (file : Array UInt8) (layout : Layout) : Except ImageError Image :=
  let regions := stableSort (fun r => r.start.toNat)
    (layout.sections.filterMap (Region.ofSection? file layout.base))
  if !regions.any (fun r => r.executable && !r.span.isEmpty) then .error .noCode
  else if (layout.sectionAt? layout.entry).isNone then .error (.entryOutside layout.entry)
  else .ok ⟨layout, regions⟩

def address (image : Image) (rva : UInt32) : Address := image.layout.address rva

def entryPoint (image : Image) : Address := image.address image.layout.entry

/-- The addresses that hold the addresses of imported functions. -/
def importSlots (image : Image) : List Address :=
  image.layout.imports.map fun i => image.address i.slot

/-- The region that an address belongs to. -/
def region? (image : Image) (a : Address) : Option Region :=
  image.regions.find? fun r => decide (a ∈ r.span)

def isMapped (image : Image) (a : Address) : Bool := (image.region? a).isSome

def isExecutable (image : Image) (a : Address) : Bool := (image.region? a).any Region.executable

def isReadable (image : Image) (a : Address) : Bool := (image.region? a).any Region.readable

/-- The addresses of the executable regions, by ascending start. -/
def executableSpans (image : Image) : List Span :=
  (image.regions.filter Region.executable).map Region.span

/-- The least span with all regions in it. -/
def span (image : Image) : Span :=
  match image.regions with
  | [] => ⟨0, 0⟩
  | r :: rest => rest.foldl (fun s q => ⟨min s.start q.span.start, max s.stop q.span.stop⟩) r.span

/-- The bytes from an address to the end of its region. -/
def window (image : Image) (a : Address) : List UInt8 :=
  match image.region? a with
  | none => []
  | some r => (r.bytes.extract (r.offset a) r.bytes.size).toList

def byte? (image : Image) (a : Address) : Option UInt8 := do
  let r ← image.region? a
  r.bytes[r.offset a]?

/-- The 32-bit word at an address, if the region holds all its bytes. -/
def word? (image : Image) (a : Address) : Option UInt32 := do
  let r ← image.region? a
  let stored := (r.bytes.extract (r.offset a) (r.offset a + 4)).toList
  if stored.length = 4 then some (LittleEndian.unsigned stored) else none

end Image

namespace ByteMap

/-- The map over the executable regions of an image.  A byte that belongs to another region first
is no code, and starts out as data. -/
def ofImage (image : Image) : ByteMap :=
  let m := ofSpans image.executableSpans
  (m.coverage.addresses.filter fun a => !image.isExecutable a).foldl
    (fun m a => m.modify a (Cell.asData .raw)) m

/-- Code may start at the address: it is executable, and neither data nor inside an instruction. -/
def admitsCode (m : ByteMap) (image : Image) (a : Address) : Bool :=
  image.isExecutable a && m.contains a && !(m.marks a).data
    && !((m.marks a).body && !(m.marks a).start)

end ByteMap

end CodeSift
