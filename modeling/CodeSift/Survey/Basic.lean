import CodeSift.Agenda
import CodeSift.CrossReference.Index
import CodeSift.Image.Loaded
import CodeSift.Instruction.Decode
import CodeSift.Settings.Basic

/-!
# Surveys: the state of a discovery

A `Survey` is an image together with a decoder and settings.  Carrying it out means taking an
address from the agenda, decoding forward from it, putting what the instructions refer to on the
agenda, and giving up the instructions that lead into something that is no code.

`Survey.State` is everything that carrying out a survey remembers between two steps.  It begins
with the entry point and the exported functions on the agenda; they are the anchors, which are
never given up.
-/

namespace CodeSift

/-- What a survey does in its next step. -/
inductive Phase where
  | discovering
  | recovering
  | finalizing
  | done
  /-- Nothing any more: where a span of bytes ends is no address, and the survey has no result. -/
  | stopped
deriving DecidableEq, Repr, Inhabited

def Phase.label : Phase → String
  | .discovering => "preprocessing"
  | .recovering => "recovering"
  | .finalizing => "finalizing"
  | .done => "done"
  | .stopped => "stopped"

/-- No step changes anything any more. -/
def Phase.isOver (p : Phase) : Bool := p == .done || p == .stopped

inductive Conflict where
  | decodeFailure (failure : DecodeFailure)
  | overlap
  /-- The instruction would run over an anchor. -/
  | swallowsAnchor
  /-- The attempt arrived inside an instruction. -/
  | insideInstruction
deriving DecidableEq, Repr, Inhabited

def Conflict.message : Conflict → String
  | .decodeFailure failure => "decode failed: " ++ failure.message
  | .overlap => "instruction overlaps classified bytes"
  | .swallowsAnchor => "instruction swallows an anchored boundary"
  | .insideInstruction => "cursor lands inside an existing instruction"

/-- A failed attempt: where it began, where it failed, and why. -/
structure Failure where
  seed : Address
  cursor : Address
  kind : Conflict
deriving DecidableEq, Repr, Inhabited

/-- What was given up after a failed attempt. -/
structure ErasedSpan where
  span : Span
  failure : Failure
  relationsRemoved : Nat
deriving DecidableEq, Repr, Inhabited

namespace ErasedSpan

def size (e : ErasedSpan) : Nat := e.span.size

def isEmpty (e : ErasedSpan) : Bool := e.span.isEmpty

end ErasedSpan

structure Stats where
  attempts : Nat := 0
  instructionsDecoded : Nat := 0
  recoveries : Nat := 0
  bytesErased : Nat := 0
  relationsErased : Nat := 0
  anchorConflicts : Nat := 0
  rejectedSeeds : Nat := 0
  jumpTables : Nat := 0
  addressTables : Nat := 0
  strings : Nat := 0
  codeBlocksReclassified : Nat := 0
  codeBytesReclassified : Nat := 0
  bytesBackfilled : Nat := 0
  cancelled : Bool := false
deriving DecidableEq, Repr, Inhabited

/-- An image to survey, and how. -/
structure Survey where
  image : Image
  decoder : Decoder
  settings : Settings

namespace Survey

/-- What is known between two steps of a survey. -/
structure State where
  map : ByteMap
  index : ReferenceIndex := .empty
  agenda : Agenda := .empty
  phase : Phase := .discovering
  /-- The addresses from which decoding failed; they are not tried again. -/
  failedSeeds : List Address := []
  failure : Option Failure := none
  stats : Stats := {}
  /-- What was given up last, the oldest first. -/
  history : List ErasedSpan := []
deriving DecidableEq

/-- The survey of an image with the decoder of its processor. -/
def ofImage (image : Image) (settings : Settings) : Survey :=
  ⟨image, .x86 settings.cpuMode image.span, settings⟩

/-! ## The first state -/

/-- Makes an executable address an anchor and a lead. -/
def anchor (v : Survey) (marks : Marks) (confidence : Confidence) (s : State) (a : Address) :
    State :=
  if v.image.isExecutable a then
    { s with
      map := s.map.mark a (marks ||| { labelled := true })
      agenda := s.agenda.push ⟨a, confidence⟩ }
  else s

/-- The state in which nothing is decoded, with the entry point and the exports as anchors. -/
def start (v : Survey) : State :=
  let s : State := { map := ByteMap.ofImage v.image }
  let s := v.anchor { entry := true } .entry s v.image.entryPoint
  (v.image.layout.exports.map fun e => v.image.address e.rva).foldl
    (v.anchor { anchor := true } .exported) s

/-! ## Shared tests -/

def State.hasFailed (s : State) (a : Address) : Bool := s.failedSeeds.contains a

/-- There is nothing to be gained from decoding at the address: it is code, has failed before, or
cannot be code. -/
def isSettled (v : Survey) (s : State) (a : Address) : Bool :=
  (s.map.marks a).isCode || s.hasFailed a || !s.map.admitsCode v.image a

/-- The phase after an attempt: discovery goes on as long as addresses wait, unless the attempt has
stopped the survey. -/
def State.nextPhase (s : State) : Phase :=
  if s.phase = .stopped then .stopped
  else if s.agenda.isEmpty then .finalizing
  else .discovering

def State.halt (s : State) : State := { s with phase := .stopped }

def State.abandon (s : State) : State := { s with agenda := .empty, phase := .finalizing }

end Survey

end CodeSift
