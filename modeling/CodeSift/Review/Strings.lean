import CodeSift.Classification.Runs
import CodeSift.Image.Loaded

/-!
# Strings among the unprocessed bytes

Three shapes of text are recognised at a byte of an unprocessed run, in this order: a count byte
with as many printable bytes behind it, printable bytes alternating with zeros up to two zeros,
and printable bytes up to a zero or a line end.  A string has at least four characters.  One of
fewer than eight is refused when the word right before or right behind it is the address of
possible code, since it may be part of a table of pointers.
-/

namespace CodeSift

namespace Strings

def minLength : Nat := 4

/-- A string of fewer characters must not stand next to an address. -/
def shortLength : Nat := 8

/-- The byte is a printable character or a tab. -/
def isPrintable (b : UInt8) : Bool := (0x20 ≤ b && b ≤ 0x7e) || b == 0x09

/-- A string found at the front of some bytes: its size in bytes, its class, its characters. -/
structure Match where
  size : Nat
  cls : DataClass
  characters : Nat
deriving DecidableEq, Repr, Inhabited

/-- A count byte with as many printable bytes behind it. -/
def pascal? : List UInt8 → Option Match
  | [] => none
  | count :: rest =>
    let n := count.toNat
    let body := rest.take n
    if minLength ≤ n ∧ body.length = n ∧ body.all isPrintable then some ⟨1 + n, .pascalString, n⟩
    else none

/-- The number of printable bytes, each with a zero behind it, in front of two zeros. -/
def wideLength? : List UInt8 → Option Nat
  | low :: high :: rest =>
    if low = 0 ∧ high = 0 then some 0
    else if isPrintable low ∧ high = 0 then (wideLength? rest).map (· + 1)
    else none
  | _ => none

/-- Printable bytes alternating with zeros, up to two zeros. -/
def wide? (bytes : List UInt8) : Option Match :=
  match wideLength? bytes with
  | none => none
  | some n => if minLength ≤ n then some ⟨2 * n + 2, .wideString, n⟩ else none

/-- The size of the end of a string: a zero, or a line end with a zero if there is one. -/
def terminator? : List UInt8 → Option Nat
  | 0 :: _ => some 1
  | 0x0d :: 0x0a :: 0 :: _ => some 3
  | 0x0d :: 0x0a :: _ => some 2
  | _ => none

def ascii? (bytes : List UInt8) : Option Match :=
  let n := (bytes.takeWhile isPrintable).length
  if n < minLength then none
  else (terminator? (bytes.drop n)).map fun stop => ⟨n + stop, .asciiString, n⟩

def match? (bytes : List UInt8) : Option Match :=
  (pascal? bytes).or ((wide? bytes).or (ascii? bytes))

/-- The word right before or right behind the span is the address of possible code. -/
def isNextToAddress (image : Image) (m : ByteMap) (s : Span) : Bool :=
  let before := (Address.subChecked? s.start 4).bind image.word?
  let behind := image.word? s.stop
  before.any (m.admitsCode image) || behind.any (m.admitsCode image)

/-- The result of a search: the strings with their classes, in the order found. -/
structure Scan where
  map : ByteMap
  strings : List (Span × DataClass) := []
deriving DecidableEq

def Scan.bytes (scan : Scan) : Nat := scan.strings.foldr (fun (s, _) n => s.size + n) 0

/-- Searches the bytes of a run from `a` on, with at most `fuel` looks. -/
def searchFrom (image : Image) : Nat → Address → List UInt8 → Scan → Scan
  | 0, _, _, scan => scan
  | _ + 1, _, [], scan => scan
  | fuel + 1, a, b :: rest, scan =>
    match match? (b :: rest) with
    | none => searchFrom image fuel (a + 1) rest scan
    | some found =>
      let s : Span := ⟨a, a + UInt32.ofNat found.size⟩
      if found.characters < shortLength && isNextToAddress image scan.map s then
        searchFrom image fuel (a + 1) rest scan
      else
        searchFrom image fuel s.stop ((b :: rest).drop found.size)
          ⟨scan.map.markData s found.cls, scan.strings ++ [(s, found.cls)]⟩

def bytesOf (image : Image) (run : Span) : List UInt8 :=
  run.addresses.map fun a => (image.byte? a).getD 0

def searchRun (image : Image) (scan : Scan) (run : Span) : Scan :=
  searchFrom image run.size run.start (bytesOf image run) scan

def detect (image : Image) (m : ByteMap) : Scan :=
  m.unprocessedRuns.foldl (searchRun image) { map := m }

end Strings

end CodeSift
