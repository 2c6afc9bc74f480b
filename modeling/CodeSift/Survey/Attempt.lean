import CodeSift.Survey.Basic

/-!
# Attempts: decoding forward from an address

An attempt decodes one instruction after the other, marks its bytes, and follows what it refers
to, until an instruction ends the flow of control, known code is reached, or something stands in
the way.  `examine` tells these cases apart for one address without changing anything, so that
trying an address out (`probe`) and decoding from it (`attempt`) see the same thing.

Following a reference notes it in the index, labels its target, and puts the target on the agenda.
What guessed code refers to is a guess too.

A slot of a jump table has four bytes.  Where the map covers the first of them and the end of the
fourth is no address, the survey stops.
-/

namespace CodeSift

namespace Survey

/-! ## Looking at one address -/

/-- What stands in the way of the bytes behind the first one of an instruction, at the first such
byte. -/
def tailConflict (m : ByteMap) (tail : Span) : Option Conflict :=
  tail.addresses.findSome? fun b =>
    let f := m.marks b
    if f.isAnchored then some .swallowsAnchor
    else if f.kind != .unprocessed then some .overlap
    else none

/-- The bytes behind the first one of an instruction read at `a`. -/
def tailOf (a : Address) (i : Instruction) : Span := ⟨a + 1, i.stop⟩

/-- The instruction to be decoded at an address; none when one is known there already. -/
def examine (v : Survey) (m : ByteMap) (a : Address) : Except Conflict (Option Instruction) :=
  match m.kind a with
  | .instructionStart => .ok none
  | .instructionBody => .error .insideInstruction
  | .data => .error .overlap
  | .unprocessed =>
    match v.decoder (v.image.window a) a with
    | .error e => .error (.decodeFailure e)
    | .ok i =>
      match tailConflict m (tailOf a i) with
      | some k => .error k
      | none => .ok (some i)

/-! ## Trying an address out -/

/-- The instructions that have to decode before a guess is trusted. -/
def probeLength : Nat := 4

/-- Decodes at most `n` instructions from `a` on without changing anything; known code counts as
success unless it is the seed itself. -/
def probeFrom (v : Survey) (m : ByteMap) (seed : Address) : Nat → Address → Bool
  | 0, _ => true
  | n + 1, a =>
    match v.examine m a with
    | .error _ => false
    | .ok none => a != seed
    | .ok (some i) => i.isTerminator || probeFrom v m seed n i.stop

/-- A few instructions can be decoded from the address, or fewer up to the end of the flow. -/
def probe (v : Survey) (m : ByteMap) (seed : Address) : Bool := v.probeFrom m seed probeLength seed

/-! ## Following references -/

/-- Notes a reference to code and puts its target on the agenda, if code may start there. -/
def refer (v : Survey) (confidence : Confidence) (s : State) (r : CrossReference) : State :=
  if s.map.admitsCode v.image r.target then
    let known := (s.map.marks r.target).start
    { s with
      index := s.index.insert r
      map := if confidence.isSpeculative then s.map
        else s.map.mark r.target { labelled := true, resolved := known }
      agenda := if known || s.hasFailed r.target then s.agenda
        else s.agenda.push ⟨r.target, confidence⟩ }
  else s

/-- The confidence in what an instruction refers to: what guessed code refers to is a guess. -/
def confidenceFrom (suspicious : Bool) (confidence : Confidence) : Confidence :=
  if suspicious then .guess else confidence

def followBranch (v : Survey) (i : Instruction) (suspicious : Bool) (s : State) : State :=
  match i.branchTarget with
  | none => s
  | some target =>
    match i.flow with
    | .call =>
      v.refer (confidenceFrom suspicious .directCall) s ⟨.call, i.address, target⟩
    | .jump =>
      v.refer (confidenceFrom suspicious .directJump) s ⟨.jump, i.address, target⟩
    | _ => v.refer (confidenceFrom suspicious .directJump) s ⟨.branch, i.address, target⟩

def maxJumpTableSlots : Nat := 256

/-- Reads one slot of the table of a jump and follows it; none where the table ends. -/
def readSlot (v : Survey) (site : Address) (confidence : Confidence) (s : State) (slot : Address) :
    Option State :=
  -- A slot the map does not cover, in another section, is read but not marked.
  let bytes : Span := ⟨slot, slot + 4⟩
  if s.map.contains slot && !s.map.isUnprocessedSpan bytes then none
  else match v.image.word? slot with
    | none => none
    | some target =>
      if s.map.admitsCode v.image target then
        some <| v.refer confidence
          { s with
            map := s.map.markData bytes .pointerTable
            index := s.index.insert ⟨.tableEntry, slot, target⟩ }
          ⟨.jump, site, target⟩
      else none

/-- Follows one slot of the table of a jump; none where the table ends.  The survey stops where the
slot is covered and there is no address at its end. -/
def followSlot (v : Survey) (site : Address) (confidence : Confidence) (s : State)
    (slot : Address) : Option State :=
  if s.map.contains slot && (Address.addChecked? slot 4).isNone then some s.halt
  else v.readSlot site confidence s slot

/-- Follows the slots of the table of a jump from number `i` on, at most `n`.  Behind a slot that
stops the survey there is no further one: its address would be the end of that slot. -/
def followSlots (v : Survey) (site base : Address) (confidence : Confidence) :
    Nat → Nat → State → State
  | 0, _, s => s
  | n + 1, i, s =>
    match Address.addChecked? base (4 * i) with
    | none => s
    | some slot =>
      match v.followSlot site confidence s slot with
      | none => s
      | some s => followSlots v site base confidence n (i + 1) s

def followJumpTable (v : Survey) (i : Instruction) (suspicious : Bool) (s : State) : State :=
  match i.jumpTableBase with
  | none => s
  | some base =>
    if v.image.isMapped base then
      let s := { s with index := s.index.insert ⟨.jumpTable, i.address, base⟩ }
      let s := v.followSlots i.address base (confidenceFrom suspicious .computedJump)
        maxJumpTableSlots 0 s
      { s with stats := { s.stats with jumpTables := s.stats.jumpTables + 1 } }
    else s

def noteMemory (v : Survey) (i : Instruction) (s : State) : State :=
  match i.memoryReference with
  | none => s
  | some a =>
    if v.image.importSlots.contains a then
      { s with index := s.index.insert ⟨.importSlot, i.address, a⟩ }
    else if v.image.isReadable a then
      { s with index := s.index.insert ⟨.data, i.address, a⟩ }
    else s

def followImmediate (v : Survey) (i : Instruction) (s : State) : State :=
  match i.codePointer with
  | none => s
  | some target => v.refer .guess s ⟨.immediate, i.address, target⟩

def followReferences (v : Survey) (i : Instruction) (suspicious : Bool) (s : State) : State :=
  let s := v.followBranch i suspicious s
  let s := if i.flow == .jumpIndirect && v.settings.followJumpTables then
      v.followJumpTable i suspicious s
    else s
  let s := v.noteMemory i s
  if v.settings.followImmediatePointers then v.followImmediate i s else s

/-! ## Decoding -/

def markInstruction (m : ByteMap) (a : Address) (i : Instruction) (suspicious : Bool) : ByteMap :=
  (m.mark a { start := true, suspicious, resolved := (m.marks a).labelled }).markSpan (tailOf a i)
    { body := true }

/-- What an attempt is for: to discover code, following references, or only to decode. -/
inductive Purpose where
  | discovery
  | decoding
deriving DecidableEq, Repr, Inhabited

def accept (v : Survey) (purpose : Purpose) (suspicious : Bool) (s : State) (a : Address)
    (i : Instruction) : State :=
  let s := { s with
    map := markInstruction s.map a i suspicious
    stats := { s.stats with instructionsDecoded := s.stats.instructionsDecoded + 1 } }
  match purpose with
  | .discovery => v.followReferences i suspicious s
  | .decoding => s

/-- Decodes at most `fuel` instructions from `a` on.  Gives the state reached, and where and why
the attempt failed, if it did. -/
def attemptFrom (v : Survey) (purpose : Purpose) (suspicious : Bool) :
    Nat → Address → State → State × Option (Address × Conflict)
  | 0, _, s => (s, none)
  | fuel + 1, a, s =>
    match v.examine s.map a with
    | .error k => (s, some (a, k))
    | .ok none => (s, none)
    | .ok (some i) =>
      let s := v.accept purpose suspicious s a i
      if i.isTerminator then (s, none) else attemptFrom v purpose suspicious fuel i.stop s

/-- Decodes from an address.  Every instruction takes an unprocessed byte of the map, so there are
never more instructions than bytes. -/
def attempt (v : Survey) (purpose : Purpose) (confidence : Confidence) (s : State)
    (seed : Address) : State × Option Failure :=
  let s := { s with stats := { s.stats with attempts := s.stats.attempts + 1 } }
  let (s, failed) := v.attemptFrom purpose confidence.isSpeculative (s.map.size + 1) seed s
  (s, failed.map fun (cursor, kind) => ⟨seed, cursor, kind⟩)

/-- Gives an address up because trying it out failed. -/
def reject (s : State) (a : Address) : State :=
  { s with
    failedSeeds := a :: s.failedSeeds
    stats := { s.stats with rejectedSeeds := s.stats.rejectedSeeds + 1 } }

end Survey

end CodeSift
