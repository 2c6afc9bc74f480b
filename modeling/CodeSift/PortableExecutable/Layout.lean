import CodeSift.Image.Loaded
import CodeSift.PortableExecutable.Directories

/-!
# The layout of a portable executable

The directories of the header lead to the tables of exported and imported functions; together with
the section headers they make the `Layout` of the file.

Exports are listed by name.  One that cannot be followed to its place is passed over, and if the
table itself cannot be read there are none.  Imports are listed library by library; there a table
that cannot be read makes the whole file malformed, and so does any other directory that is
damaged.

The container is read completely before the processor it is meant for is looked at.
-/

namespace CodeSift.PortableExecutable

/-! ## Exports -/

def isOrdinal (text : List Char) : Bool := (Decimal.read? text).any fun n => n < UInt32.size

/-- The text names a function of another library: something behind the first dot, and if that
starts with a number sign then the function's number. -/
def isForwarder (text : String) : Bool :=
  match text.toList.dropWhile fun c => c != '.' with
  | '.' :: '#' :: ordinal => isOrdinal ordinal
  | '.' :: _ :: _ => true
  | _ => false

/-- The table of exported functions, of which each has a name and a number, the number being an
index into the addresses. -/
structure ExportTable where
  names : List Nat
  ordinals : List Nat
  addresses : List Nat
deriving DecidableEq, Repr, Inhabited

def readExportTable? (file : Array UInt8) (h : Header) (d : Directory) : Option ExportTable := do
  let start ← h.offset? d.rva
  let addressCount ← number? file (start + 20) 4
  let nameCount ← number? file (start + 24) 4
  let addresses ← number? file (start + 28) 4
  let names ← number? file (start + 32) 4
  let ordinals ← number? file (start + 36) 4
  guard (nameCount ≤ file.size ∧ addressCount ≤ file.size)
  let table (rva size count : Nat) : List Nat :=
    match h.offset? rva with
    | none => []
    | some offset => numbers file size count offset
  return ⟨table names 4 nameCount, table ordinals 2 nameCount, table addresses 4 addressCount⟩

/-- The export with the given place of its name and index of its address.  A place inside the
directory holds the name of a function of another library instead of code. -/
def readExport? (file : Array UInt8) (h : Header) (d : Directory) (addresses : List Nat)
    (name ordinal : Nat) : Option Export := do
  let rva ← addresses[ordinal]?
  if d.rva ≤ rva ∧ rva < d.rva + d.size then
    guard (isForwarder (← text? file (← h.offset? rva)))
  let name := (h.offset? name).bind (text? file)
  return ⟨name.getD ("export_" ++ Hex.upper 8 rva), UInt32.ofNat rva⟩

def readExports (file : Array UInt8) (h : Header) : List Export :=
  match h.directory? 0 with
  | none => []
  | some d => match readExportTable? file h d with
    | none => []
    | some t => (t.names.zip t.ordinals).filterMap fun (name, ordinal) =>
      readExport? file h d t.addresses name ordinal

/-! ## Imports -/

/-- The imports from one library: the place of its name, and of the two tables of its functions. -/
structure ImportEntry where
  lookups : Nat
  name : Nat
  addresses : Nat
deriving DecidableEq, Repr, Inhabited

/-- The entries from an offset on, to one without a name or without addresses. -/
def readImportEntries? (file : Array UInt8) : (bound offset : Nat) → Option (List ImportEntry)
  | 0, _ => none
  | bound + 1, offset => do
    let entry : ImportEntry := {
      lookups := ← number? file offset 4
      name := ← number? file (offset + 12) 4
      addresses := ← number? file (offset + 16) 4 }
    if entry.name = 0 ∨ entry.addresses = 0 then return []
    return entry :: (← readImportEntries? file bound (offset + 20))

/-- The import of a function by number or by name.  A name whose place is nowhere in the file is
passed over. -/
def readImport? (file : Array UInt8) (h : Header) (library : String) (lookup : Nat) :
    Option (Option Import) :=
  if (if h.optionalPart.wide then 0x8000000000000000 else 0x80000000) ≤ lookup then
    some (some ⟨library, "ORDINAL " ++ toString (lookup % 0x10000), 0⟩)
  else
    let rva := lookup % 0x80000000
    match h.offset? rva with
    | none => some none
    | some offset => do
      let _hint ← number? file offset 2
      return some ⟨library, ← text? file (offset + 2), UInt32.ofNat rva⟩

/-- The imports from one library.  The lookups come from the first table if it is anywhere in the
file, else from the table of addresses, which must be there. -/
def readLibrary? (file : Array UInt8) (h : Header) (entry : ImportEntry) :
    Option (List Import) := do
  let width := if h.optionalPart.wide then 8 else 4
  let library ← text? file (← h.offset? entry.name)
  let addresses ← numbersToZero? file width (file.size + 1) (← h.offset? entry.addresses)
  let lookups ← match h.offset? entry.lookups with
    | none => some addresses
    | some offset => numbersToZero? file width (file.size + 1) offset
  return (← lookups.mapM (readImport? file h library)).filterMap id

def readImports? (file : Array UInt8) (h : Header) : Option (List Import) :=
  match h.directory? 1 with
  | none => some []
  | some d => do
    let entries ← readImportEntries? file (file.size + 1) (← h.offset? d.rva)
    return (← entries.mapM (readLibrary? file h)).flatten

/-! ## The whole file -/

def SectionHeader.toSection (s : SectionHeader) : Section where
  name := s.name
  rva := UInt32.ofNat s.rva
  rawSize := UInt32.ofNat s.rawSize
  rawOffset := UInt32.ofNat s.rawOffset
  characteristics := UInt32.ofNat s.characteristics

/-- The header and the layout of a file, if it is well formed. -/
def read? (file : Array UInt8) : Option (Header × Layout) := do
  let h ← Header.read? file
  guard (h.areDirectoriesSound file)
  let imports ← readImports? file h
  return (h, {
    base := UInt32.ofNat h.optionalPart.base
    entry := UInt32.ofNat h.optionalPart.entry
    sections := h.sections.map SectionHeader.toSection
    exports := readExports file h
    imports })

/-- The layout of a file for 32-bit x86 processors. -/
def layout (file : Array UInt8) : Except ImageError Layout :=
  match read? file with
  | none => .error .malformed
  | some (h, l) =>
    if h.machine ≠ x86Machine then .error (.foreignMachine h.machine)
    else if h.optionalPart.wide then .error .wideFormat
    else .ok l

end CodeSift.PortableExecutable
