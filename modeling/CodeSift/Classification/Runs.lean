import CodeSift.Classification.ByteMap

/-!
# Runs: stretches of like bytes

A list of addresses with values is coalesced into runs: maximal stretches of consecutive
addresses with one value.  The runs of a map by kind and data class are what a report shows; the
runs of its unprocessed bytes are what the searches for data start from.
-/

namespace CodeSift

/-- A stretch of consecutive addresses with one value. -/
structure Run (α : Type) where
  span : Span
  value : α
deriving DecidableEq, Repr, Inhabited

namespace Run

variable {α : Type}

/-- Puts an address in front of the runs of the addresses behind it. -/
def extend [DecidableEq α] (entry : Address × α) : List (Run α) → List (Run α)
  | [] => [⟨⟨entry.1, entry.1 + 1⟩, entry.2⟩]
  | run :: rest =>
    if entry.2 = run.value ∧ entry.1 + 1 = run.span.start then
      ⟨⟨entry.1, run.span.stop⟩, run.value⟩ :: rest
    else ⟨⟨entry.1, entry.1 + 1⟩, entry.2⟩ :: run :: rest

/-- The maximal runs of an ascending list of addresses with values. -/
def coalesce [DecidableEq α] (entries : List (Address × α)) : List (Run α) :=
  entries.foldr extend []

end Run

/-- What a run of a map is: its kind, the bodies of instructions counting as their starts, and
its data class. -/
structure RunClass where
  kind : ByteKind
  dataClass : DataClass
deriving DecidableEq, Repr, Inhabited

namespace ByteMap

def runClass (c : Cell) : RunClass := ⟨c.marks.kind.stretch, c.dataClass⟩

/-- The maximal runs of bytes of one kind and data class, ascending. -/
def runs (m : ByteMap) : List (Run RunClass) :=
  Run.coalesce (m.toList.map fun (a, c) => (a, runClass c))

def cellRuns (m : ByteMap) : List (Run Cell) := Run.coalesce m.toList

/-- The maximal runs of unprocessed bytes, ascending. -/
def unprocessedRuns (m : ByteMap) : List Span :=
  let untouched := m.toList.filter fun (_, c) => c.marks.kind == .unprocessed
  (Run.coalesce (untouched.map fun (a, _) => (a, ()))).map Run.span

end ByteMap

end CodeSift
