import CodeSift.Names
import CodeSift.Survey.Run

/-!
# Analyses

An `Analysis` is what remains of a survey that was carried out: the classified bytes, the
cross-references, the names, the instructions in order, the counts, and the spans that were given
up last.
-/

namespace CodeSift

/-- The instructions of a classified image with their addresses, ascending.  A start from which no
instruction of the marked length decodes is left out. -/
def listing (image : Image) (decoder : Decoder) (m : ByteMap) : List (Address × Instruction) :=
  m.starts.filterMap fun a =>
    match decoder (image.window a) a with
    | .ok i => if i.stop = m.instructionStop a then some (a, i) else none
    | .error _ => none

structure Analysis where
  map : ByteMap
  index : ReferenceIndex
  names : NameTable
  instructions : List (Address × Instruction)
  stats : Stats
  history : List ErasedSpan

namespace Analysis

def codeBytes (x : Analysis) : Nat :=
  x.map.countKind .instructionStart + x.map.countKind .instructionBody

def dataBytes (x : Analysis) : Nat := x.map.countKind .data

/-- What a survey comes to, unless it stops; `cancelled` says before which steps it counts as
cancelled. -/
def ofSurvey (v : Survey) (cancelled : Nat → Bool) : Option Analysis :=
  let s := v.run cancelled
  if s.phase = .stopped then none
  else some {
    map := s.map
    index := s.index
    names := NameTable.build v.image s.map s.index
    instructions := listing v.image v.decoder s.map
    stats := s.stats
    history := s.history }

/-- Loads and analyses a file with a known layout.  There is no analysis if the survey stops. -/
def ofFile (file : Array UInt8) (layout : Layout) (settings : Settings) (cancelled : Nat → Bool) :
    Except ImageError (Option Analysis) := do
  let image ← Image.load file layout
  return ofSurvey (.ofImage image settings) cancelled

end Analysis

end CodeSift
