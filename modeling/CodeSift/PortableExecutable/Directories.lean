import CodeSift.PortableExecutable.Header

/-!
# Directories that are only checked

Beside exports and imports, a header may point to tables that say nothing about the layout:
exception handlers, certificates, debug information and thread-local storage.  A file whose tables
of these kinds are damaged is no well-formed executable, so each kind has a test here, and
`Header.areDirectoriesSound` joins them.  A directory that is missing is sound.
-/

namespace CodeSift.PortableExecutable

namespace Header

def addressSize (h : Header) : Nat := if h.optionalPart.wide then 8 else 4

/-- The offset in the file of an address, which counts from the start of memory and not of the
image. -/
def offsetOf? (h : Header) (address : Nat) : Option Nat :=
  if h.optionalPart.base ≤ address then h.offset? (address - h.optionalPart.base) else none

end Header

/-! ## Exception handlers -/

def wideX86Machine : Nat := 0x8664

def handlerSize : Nat := 12

/-- A table of exception handlers has whole entries at a multiple of four.  Only processors with
64 bits have entries of this form. -/
def areHandlersSound (h : Header) (d : Directory) : Bool :=
  h.machine != wideX86Machine
    || d.size % handlerSize == 0 && (h.offset? d.rva).any fun offset => offset % 4 == 0

/-! ## Certificates -/

/-- The offset behind a certificate, rounded up to a multiple of eight: its length counts the
eight bytes of its own header, then come the revision and the kind. -/
def certificateEnd? (file : Array UInt8) (offset : Nat) : Option Nat := do
  let length ← number? file offset 4
  let revision ← number? file (offset + 4) 2
  let kind ← number? file (offset + 6) 2
  guard (revision = 0x100 ∨ revision = 0x200)
  guard (1 ≤ kind ∧ kind ≤ 4)
  guard (offset + max length 8 ≤ file.size)
  return alignUp (offset + max length 8) 8

/-- The certificates from an offset to the end of their table are whole. -/
def areCertificatesWhole (file : Array UInt8) (tableEnd : Nat) : (bound offset : Nat) → Bool
  | 0, _ => false
  | bound + 1, offset =>
    tableEnd ≤ offset || match certificateEnd? file offset with
      | none => false
      | some next => areCertificatesWhole file tableEnd bound next

/-- A table of certificates is inside the file and has whole certificates.  It is no part of the
image, so its place is an offset in the file. -/
def areCertificatesSound (file : Array UInt8) (d : Directory) : Bool :=
  d.rva + d.size ≤ file.size
    && areCertificatesWhole file (d.rva + d.size) (file.size + 1) d.rva

/-! ## Debug information -/

/-- An entry for debug information, which is somewhere else in the file. -/
structure DebugEntry where
  kind : Nat
  size : Nat
  offset : Nat
deriving DecidableEq, Repr, Inhabited

def debugEntrySize : Nat := 28

def debugEntryAt? (file : Array UInt8) (offset : Nat) : Option DebugEntry :=
  return {
    kind := ← number? file (offset + 12) 4
    size := ← number? file (offset + 16) 4
    offset := ← number? file (offset + 24) 4 }

def debugEntries? (file : Array UInt8) : (count offset : Nat) → Option (List DebugEntry)
  | 0, _ => some []
  | count + 1, offset => do
    let e ← debugEntryAt? file offset
    return e :: (← debugEntries? file count (offset + debugEntrySize))

/-- The kind of the information that says where the symbols are kept. -/
def codeViewKind : Nat := 2

/-- The first words of the two forms of that information. -/
def codeViewMarks : List Nat := [0x53445352, 0x3031424e]

/-- The size of that information in its longer form, before the name of the file with the
symbols. -/
def codeViewSize : Nat := 24

/-- The information of an entry says where the symbols are kept: there is room for it, it starts
with a word, and if that is one of the marks, then the file holds all of it. -/
def DebugEntry.isCodeViewSound (file : Array UInt8) (e : DebugEntry) : Bool :=
  codeViewSize ≤ e.size && (number? file e.offset 4).any fun mark =>
    !codeViewMarks.contains mark || e.offset + e.size ≤ file.size

/-- The file holds the entries of a debug directory, as many as its size has room for, and the
first one about symbols is sound.  Other kinds are not looked into. -/
def isDebugSound (file : Array UInt8) (h : Header) (d : Directory) : Bool :=
  match (h.offset? d.rva).bind (debugEntries? file (d.size / debugEntrySize)) with
  | none => false
  | some entries =>
    (entries.find? fun e => e.kind == codeViewKind).all fun e => e.isCodeViewSound file

/-! ## Thread-local storage -/

/-- What every thread gets: the addresses of its initial data, of the variable for its index, and
of the list of routines that run when it starts. -/
structure ThreadStorage where
  dataStart : Nat
  dataEnd : Nat
  index : Nat
  callbacks : Nat
deriving DecidableEq, Repr, Inhabited

/-- The description of thread-local storage at an offset.  Two more words end it. -/
def readThreadStorage? (file : Array UInt8) (h : Header) (offset : Nat) : Option ThreadStorage := do
  let size := h.addressSize
  guard (offset + 4 * size + 8 ≤ file.size)
  return {
    dataStart := ← number? file offset size
    dataEnd := ← number? file (offset + size) size
    index := ← number? file (offset + 2 * size) size
    callbacks := ← number? file (offset + 3 * size) size }

/-- The file holds the initial data, if there are any. -/
def ThreadStorage.isDataSound (file : Array UInt8) (h : Header) (t : ThreadStorage) : Bool :=
  t.dataStart == 0 || t.dataEnd == 0 || t.dataStart ≤ t.dataEnd
    && (h.offsetOf? t.dataStart).any fun offset =>
      offset + (t.dataEnd - t.dataStart) ≤ file.size

/-- The variable for the index is inside the image or behind it, if there is one. -/
def ThreadStorage.isIndexSound (h : Header) (t : ThreadStorage) : Bool :=
  t.index == 0 || h.optionalPart.base ≤ t.index

/-- The file holds the list of routines, which ends with a zero, and the routines too. -/
def ThreadStorage.areCallbacksSound (file : Array UInt8) (h : Header) (t : ThreadStorage) : Bool :=
  t.callbacks == 0
    || (h.offsetOf? t.callbacks).any fun offset =>
      (numbersToZero? file h.addressSize (file.size + 1) offset).any fun routines =>
        routines.all fun routine => (h.offsetOf? routine).isSome

def isThreadStorageSound (file : Array UInt8) (h : Header) (d : Directory) : Bool :=
  match (h.offset? d.rva).bind (readThreadStorage? file h) with
  | none => false
  | some t => t.isDataSound file h && t.isIndexSound h && t.areCallbacksSound file h

/-! ## All together -/

def Header.areDirectoriesSound (file : Array UInt8) (h : Header) : Bool :=
  (h.directory? 3).all (areHandlersSound h)
    && (h.directory? 4).all (areCertificatesSound file)
    && (h.directory? 6).all (isDebugSound file h)
    && (h.directory? 9).all (isThreadStorageSound file h)

end CodeSift.PortableExecutable
