import CodeSift.Survey.Basic

/-!
# Giving up a failed attempt

When decoding runs into something that is no code, the instructions that led there are doubtful.
`erasable` finds how far the doubt reaches.  Backward it goes over code to the last labelled
instruction, which something else refers to, but never past the start of the attempt and never
into an anchored instruction.  Forward it goes over code to the next label or anchor.

`Survey.recover` clears these bytes, drops the cross-references they make, and takes back what
only they referred to.
-/

namespace CodeSift

namespace ByteMap

/-- Walks back from `stop` over at most `n` bytes of code.  Gives where the doubt begins, and
whether an anchored instruction bounds it. -/
def walkBack (m : ByteMap) (cursor : Address) : Nat → Address → Address × Bool
  | 0, stop => (stop, false)
  | n + 1, stop =>
    let previous := stop - 1
    let f := m.marks previous
    if !f.isCode then (stop, false)
    -- The doubt begins behind the anchored instruction, which may itself run past the failure.
    else if f.start && f.isAnchored then (min (m.instructionStop previous) cursor, true)
    else if f.start && f.isLabel then (previous, false)
    else walkBack m cursor n previous

/-- The byte is code that the doubt about the instruction at `cursor` reaches. -/
def doubtReaches (m : ByteMap) (cursor a : Address) : Bool :=
  let f := m.marks a
  m.contains a && f.isCode && !f.isAnchored && !(a != cursor && f.start && f.isLabel)

/-- The bytes to give up after an attempt from `seed` failed at `cursor`, and whether an anchored
instruction bounds them. -/
def erasable (m : ByteMap) (seed cursor : Address) : Span × Bool :=
  let floor := min seed cursor
  let (start, anchored) := m.walkBack cursor (cursor.toNat - floor.toNat) cursor
  let stop := skipWhile (m.doubtReaches cursor) m.size cursor
  (⟨start, max stop start⟩, anchored)

end ByteMap

namespace Survey

/-- Takes back an address that nothing refers to any more: it waits no longer and has no label.
Instructions and anchors stay as they are. -/
def withdraw (s : State) (a : Address) : State :=
  let f := s.map.marks a
  if f.start || f.isAnchored || s.index.isReferenced a then s
  else { s with
    agenda := s.agenda.remove a
    map := s.map.unmark a { labelled := true } }

/-- The history with one more entry, of which only so many are kept. -/
def remember (limit : Nat) (history : List ErasedSpan) (e : ErasedSpan) : List ErasedSpan :=
  if limit = 0 then history
  else if limit ≤ history.length then history.tail ++ [e]
  else history ++ [e]

def recover (v : Survey) (s : State) (failure : Failure) : State :=
  let (span, anchored) := s.map.erasable failure.seed failure.cursor
  let removed := s.index.madeIn span
  let erased : ErasedSpan := ⟨span, failure, removed.length⟩
  let s := { s with
    failedSeeds := failure.seed :: s.failedSeeds
    index := s.index.eraseSites span
    map := s.map.clear span
    history := remember v.settings.eraseHistoryLimit.toNat s.history erased
    stats := { s.stats with
      recoveries := s.stats.recoveries + 1
      anchorConflicts := s.stats.anchorConflicts
        + (anchored || failure.kind == .swallowsAnchor).toNat
      bytesErased := s.stats.bytesErased + erased.size
      relationsErased := s.stats.relationsErased + removed.length } }
  -- The cross-references are gone by now, so `withdraw` sees only those of other code.
  removed.foldl (fun s r => withdraw s r.target) s

end Survey

end CodeSift
