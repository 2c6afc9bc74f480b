import CodeSift.Classification.Runs
import CodeSift.CrossReference.Index
import CodeSift.Image.Loaded
import CodeSift.Instruction.Decode

/-!
# Reviewing guessed code

Instructions that were reached through guesses only are reviewed in blocks of adjacent ones.  The
`Signature` of a block counts what tells code from text and padding: how many instructions it has,
how many of its bytes are letters or small numbers, and whether it ends.  A block whose signature
is not plausible is turned into data, and the cross-references it makes are dropped.
-/

namespace CodeSift

structure Signature where
  bytes : Nat := 0
  instructions : Nat := 0
  letters : Nat := 0
  /-- The bytes from zero to three. -/
  lowBytes : Nat := 0
  /-- The returns and the unconditional jumps. -/
  terminators : Nat := 0
  /-- An instruction starts right behind the block. -/
  flowsIntoCode : Bool := false
deriving DecidableEq, Repr, Inhabited

namespace Signature

/-- The share of a part in percent, rounded down; nothing has no share.  The hundredfold part has to
be a number of 64 bits. -/
def percent? (part whole : Nat) : Option Nat :=
  if whole = 0 then some 0
  else if part * 100 < UInt64.size then some (part * 100 / whole)
  else none

def letterPercent? (s : Signature) : Option Nat := percent? s.letters s.bytes

def lowBytePercent? (s : Signature) : Option Nat := percent? s.lowBytes s.bytes

def densityPercent? (s : Signature) : Option Nat := percent? s.instructions s.bytes

def maxLetterPercent : Nat := 50

def maxLowBytePercent : Nat := 40

def minDensityPercent : Nat := 15

/-- The block ends somewhere, is not mostly text or padding, and holds enough instructions.  The
shares are looked at in this order, and none behind one that decides. -/
def isPlausible? (s : Signature) : Option Bool := do
  if s.terminators = 0 && !s.flowsIntoCode then return false
  if maxLetterPercent < (← s.letterPercent?) then return false
  if maxLowBytePercent < (← s.lowBytePercent?) then return false
  return minDensityPercent ≤ (← s.densityPercent?)

end Signature

namespace CodeBlocks

/-- An instruction starts here that was reached through guesses only, at a byte that may be given
up. -/
def isSuspicious (f : Marks) : Bool := f.start && f.suspicious && !f.isAnchored

/-- Puts an instruction in front of the blocks behind it. -/
def extend (instruction : Span) : List Span → List Span
  | [] => [instruction]
  | block :: rest =>
    if instruction.stop = block.start then ⟨instruction.start, block.stop⟩ :: rest
    else instruction :: block :: rest

/-- The maximal blocks of adjacent suspicious instructions, ascending. -/
def blocks (m : ByteMap) : List Span :=
  let suspicious := m.starts.filter fun a => isSuspicious (m.marks a)
  (suspicious.map fun a => (⟨a, m.instructionStop a⟩ : Span)).foldr extend []

def isLetter (b : UInt8) : Bool := (0x41 ≤ b && b ≤ 0x5a) || (0x61 ≤ b && b ≤ 0x7a)

/-- Counts the instructions from `a` to the end of a block, at most `fuel`, and the terminators
among them. -/
def countInstructions (image : Image) (decoder : Decoder) (stop : Address) :
    Nat → Address → Signature → Signature
  | 0, _, s => s
  | fuel + 1, a, s =>
    if a < stop then
      match decoder (image.window a) a with
      | .error _ => s
      | .ok i => countInstructions image decoder stop fuel i.stop { s with
          instructions := s.instructions + 1
          terminators := if i.isTerminator then s.terminators + 1 else s.terminators }
    else s

def signature (image : Image) (decoder : Decoder) (m : ByteMap) (block : Span) : Signature :=
  let bytes := block.addresses.map fun a => (image.byte? a).getD 0
  countInstructions image decoder block.stop block.size block.start {
    bytes := block.size
    letters := (bytes.filter isLetter).length
    lowBytes := (bytes.filter fun b => b ≤ 3).length
    flowsIntoCode := (m.marks block.stop).start }

structure Outcome where
  map : ByteMap
  index : ReferenceIndex
  blocksReviewed : Nat := 0
  blocksReclassified : Nat := 0
  bytesReclassified : Nat := 0
deriving DecidableEq

/-- Reviews a block.  No block has so many bytes that its signature could be without a verdict. -/
def reviewBlock (image : Image) (decoder : Decoder) (o : Outcome) (block : Span) : Outcome :=
  let o := { o with blocksReviewed := o.blocksReviewed + 1 }
  if (signature image decoder o.map block).isPlausible? = some true then o
  else { o with
    map := (o.map.clear block).markData block .raw
    index := o.index.eraseSites block
    blocksReclassified := o.blocksReclassified + 1
    bytesReclassified := o.bytesReclassified + block.size }

def review (image : Image) (decoder : Decoder) (m : ByteMap) (index : ReferenceIndex) : Outcome :=
  (blocks m).foldl (reviewBlock image decoder) { map := m, index }

end CodeBlocks

end CodeSift
