import CodeSift.Review.Passes
import CodeSift.Survey.Attempt
import CodeSift.Survey.Recovery

/-!
# Carrying out a survey

`Survey.step` is one step of a survey.  Discovery takes one address from the agenda at a time; a
failed attempt is given up in a step of its own; when no address waits, one last step searches the
bytes that are left and decides them all.  A survey can be cancelled before any step; it then
skips the rest of discovery.  A survey that has stopped takes no step any more.

An address is taken from the agenda at most once, and each time costs at most two steps, so the
number of bytes bounds the number of steps.  `Survey.run` carries a survey out to its end, and
`Survey.trace` lists all its states.
-/

namespace CodeSift

namespace Survey

/-! ## The steps -/

/-- Takes an address from the agenda and decodes from there. -/
def discover (v : Survey) (cancelled : Bool) (s : State) : State :=
  if cancelled then
    { s.abandon with stats := { s.stats with cancelled := true } }
  else if v.settings.maxAttempts != 0 && v.settings.maxAttempts.toNat ≤ s.stats.attempts then
    s.abandon
  else match s.agenda.pop? with
    | none => { s with phase := .finalizing }
    | some (lead, agenda) =>
      let s := { s with agenda }
      if v.isSettled s lead.address then { s with phase := s.nextPhase }
      else if lead.confidence.isSpeculative && !v.probe s.map lead.address then
        let s := reject s lead.address
        { s with phase := s.nextPhase }
      else
        let (s, failure) := v.attempt .discovery lead.confidence s lead.address
        -- Only the jump that ends an attempt can stop the survey: no failed attempt has.
        match failure with
        | none => { s with phase := s.nextPhase }
        | some failure => { s with failure := some failure, phase := .recovering }

/-- Gives up the attempt that has failed; discovery ends when there were too many. -/
def recoverFailure (v : Survey) (s : State) : State :=
  match s.failure with
  | none => { s with phase := s.nextPhase }
  | some failure =>
    let s := v.recover { s with failure := none } failure
    if v.settings.maxRecoveries.toNat ≤ s.stats.recoveries then s.abandon
    else { s with phase := s.nextPhase }

/-- Decodes the code that a table points to, without following anything further. -/
def decodeTarget (v : Survey) (s : State) (target : Address) : State :=
  if v.isSettled s target then s
  else if !v.probe s.map target then reject s target
  else
    let (s, failure) := v.attempt .decoding .tableEntry s target
    match failure with
    | none => s
    | some failure => v.recover s failure

/-- Searches for tables of pointers, and decodes what they point to; none if the search fails. -/
def finalizeTables (v : Survey) (s : State) : Option State :=
  (PointerTables.detect v.image s.map s.index).map fun scan =>
    let s := { s with
      map := scan.map
      index := scan.index
      stats := { s.stats with addressTables := s.stats.addressTables + scan.tables.length } }
    scan.targets.foldl v.decodeTarget s

def finalizeStrings (v : Survey) (s : State) : State :=
  let scan := Strings.detect v.image s.map
  { s with
    map := scan.map
    stats := { s.stats with strings := s.stats.strings + scan.strings.length } }

def finalizeCode (v : Survey) (s : State) : State :=
  let review := CodeBlocks.review v.image v.decoder s.map s.index
  { s with
    map := review.map
    index := review.index
    stats := { s.stats with
      codeBlocksReclassified := s.stats.codeBlocksReclassified + review.blocksReclassified
      codeBytesReclassified := s.stats.codeBytesReclassified + review.bytesReclassified } }

def finalizeRest (s : State) : State :=
  let (map, filled) := Passes.backfill s.map
  { s with
    map
    stats := { s.stats with bytesBackfilled := s.stats.bytesBackfilled + filled } }

/-- Searches the bytes that are left, as far as the settings ask for it, and decides them all. -/
def finalize (v : Survey) (s : State) : State :=
  let s := { s with agenda := .empty }
  -- The tables come first: what they point to becomes code, which is no text any more.
  match if v.settings.detectAddressTables then v.finalizeTables s else some s with
  | none => s.halt
  | some s =>
    let s := if v.settings.detectStrings then v.finalizeStrings s else s
    let s := if v.settings.validateCode then v.finalizeCode s else s
    { finalizeRest s with phase := .done }

/-- One step of a survey, which may be cancelled right before it. -/
def step (v : Survey) (cancelled : Bool) (s : State) : State :=
  match s.phase with
  | .discovering => v.discover cancelled s
  | .recovering => v.recoverFailure s
  | .finalizing => v.finalize s
  | .done | .stopped => s

/-! ## Whole surveys -/

/-- A number of steps within which every survey over so many bytes ends. -/
def stepBound (bytes : Nat) : Nat := 2 * bytes + 2

/-- Takes at most `fuel` steps, of which `n` is the number of the first. -/
def runFrom (v : Survey) (cancelled : Nat → Bool) : Nat → Nat → State → State
  | 0, _, s => s
  | fuel + 1, n, s =>
    if s.phase.isOver then s else runFrom v cancelled fuel (n + 1) (v.step (cancelled n) s)

/-- The last state of a survey; `cancelled` says before which steps it counts as cancelled. -/
def run (v : Survey) (cancelled : Nat → Bool) : State :=
  v.runFrom cancelled (stepBound v.start.map.size) 0 v.start

/-- The states of a survey from `s` on, over at most `fuel` steps. -/
def traceFrom (v : Survey) (cancelled : Nat → Bool) : Nat → Nat → State → List State
  | 0, _, s => [s]
  | fuel + 1, n, s =>
    if s.phase.isOver then [s]
    else s :: traceFrom v cancelled fuel (n + 1) (v.step (cancelled n) s)

def trace (v : Survey) (cancelled : Nat → Bool) : List State :=
  v.traceFrom cancelled (stepBound v.start.map.size) 0 v.start

end Survey

end CodeSift
