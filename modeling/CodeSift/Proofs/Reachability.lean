import CodeSift.Proofs.Steps

/-!
# The states of a survey

The states that a survey can come to are those reached from its first state by steps, each of which
may be cancelled or not.  Every one of them is *consistent*: its map is in order, a failed attempt
that waits to be given up is in doubt back to its seed, and in the last state every byte is decided.

`Stepped` says what one step can do to a consistent state, together with the address that it takes
from the agenda and the addresses from which it makes attempts; invariants of surveys are proved by
cases on it.  The first is that of the map: from one state to any later one it goes by changes
(`Reaches.consistent`), so whatever every change keeps, every survey keeps.
-/

namespace CodeSift

namespace Survey

variable {v : Survey} {s t : State} {taken : Option Address} {seeds : List Address}

/-- The second state comes after the first, some steps later. -/
inductive Reaches (v : Survey) (s : State) : State → Prop
  | refl : Reaches v s s
  | step {t : State} (cancelled : Bool) : Reaches v s t → Reaches v s (v.step cancelled t)

/-- The survey can come to the state. -/
def Reachable (v : Survey) (s : State) : Prop := v.Reaches v.start s

/-- The state after so many steps; `cancelled` says before which steps the survey counts as
cancelled. -/
def stateAt (v : Survey) (cancelled : Nat → Bool) : Nat → State
  | 0 => v.start
  | n + 1 => v.step (cancelled n) (v.stateAt cancelled n)

lemma reachable_stateAt (v : Survey) (cancelled : Nat → Bool) (n : Nat) :
    v.Reachable (v.stateAt cancelled n) := by
  induction n with
  | zero => exact .refl
  | succ n ih => exact .step (cancelled n) ih

lemma reaches_stateAt (v : Survey) (cancelled : Nat → Bool) (n k : Nat) :
    v.Reaches (v.stateAt cancelled n) (v.stateAt cancelled (n + k)) := by
  induction k with
  | zero => exact .refl
  | succ k ih => exact ih.step (cancelled (n + k))

/-- **What holds of every state of a survey.** -/
structure Consistent (v : Survey) (s : State) : Prop where
  sound : v.Sound s.map
  pending : s.phase = .recovering → ∃ f, s.failure = some f ∧ Doubtful s.map f
  decided : s.phase = .done → ∀ a, s.map.kind a ≠ .unprocessed

/-- A state whose map is in order and which is about to go on with discovery or to end it. -/
lemma consistent_of_proceeds (hs : v.Sound s.map) (h : s.Proceeds) : v.Consistent s :=
  ⟨hs, fun hphase => absurd hphase h.ne_recovering, fun hphase => absurd hphase h.ne_done⟩

lemma consistent_start (v : Survey) : v.Consistent v.start := by
  obtain ⟨map, agenda, hstart⟩ := exists_start_eq v
  exact consistent_of_proceeds (blank_start v).sound (Or.inl (by rw [hstart]))

/-! ## One step -/

/-- The address that a step takes from the agenda. -/
def taken? (v : Survey) (cancelled : Bool) (s : State) : Option Address :=
  match s.phase with
  | .discovering => (v.lead? cancelled s).map Lead.address
  | _ => none

/-- The addresses from which a step makes attempts, in order. -/
def attemptSeeds (v : Survey) (cancelled : Bool) (s : State) : List Address :=
  match s.phase with
  | .discovering => (v.seed? cancelled s).toList
  | .finalizing => v.finalSeeds s
  | _ => []

/-- **What a step does**, with the address it takes from the agenda and the addresses from which it
makes attempts. -/
inductive Stepped (v : Survey) (s : State) : Option Address → List Address → State → Prop
  | discovery {lead : Option Lead} {seed : Option Address} {t : State} :
      s.phase = .discovering → v.Discovery s lead seed t →
      Stepped v s (lead.map Lead.address) seed.toList t
  | recovery {f : Failure} {b : Address} {t : State} :
      s.phase = .recovering → s.failure = some f → v.Recovered s f b t →
      t.Proceeds → Stepped v s none [] t
  | finalization {seeds : List Address} {t : State} :
      s.phase = .finalizing → v.Finalized s seeds t → Stepped v s none seeds t
  | idle : s.phase.isOver = true → Stepped v s none [] s

/-- **Every step from a consistent state is one of these.** -/
lemma Consistent.stepped (hv : v.Proper) (h : v.Consistent s) (cancelled : Bool) :
    v.Stepped s (v.taken? cancelled s) (v.attemptSeeds cancelled s) (v.step cancelled s) := by
  unfold Survey.step taken? attemptSeeds
  cases hphase : s.phase with
  | discovering => exact .discovery hphase (discovery_discover hv h.sound cancelled)
  | recovering =>
    obtain ⟨f, hfailure, hdoubtful⟩ := h.pending hphase
    obtain ⟨b, hrecovered, hnext⟩ := recovered_recoverFailure hv h.sound hfailure hdoubtful
    exact .recovery hphase hfailure hrecovered hnext
  | finalizing => exact .finalization hphase (finalized_finalize hv h.sound)
  | done => exact .idle (by rw [hphase]; rfl)
  | stopped => exact .idle (by rw [hphase]; rfl)

/-! ## The map -/

/-- **One step** keeps a state consistent, and changes its map by changes. -/
lemma Stepped.consistent (hv : v.Proper) (h : v.Stepped s taken seeds t) (hs : v.Consistent s) :
    v.Consistent t ∧ v.Changes s.map t.map := by
  cases h with
  | discovery _ hdiscovery =>
    cases hdiscovery with
    | ended hmap _ _ _ _ _ hphase =>
      rw [hmap]
      exact ⟨consistent_of_proceeds (hmap ▸ hs.sound) (Or.inr (Or.inl hphase)), .refl⟩
    | refused _ htried _ hphase =>
      exact ⟨consistent_of_proceeds (htried.changes.sound hv hs.sound) hphase,
        htried.changes⟩
    | succeeded _ _ htried _ hphase =>
      exact ⟨consistent_of_proceeds (htried.changes.sound hv hs.sound) hphase,
        htried.changes⟩
    | @failed t lead rest f _ _ _ _ hfailing =>
      exact ⟨⟨hfailing.changes.sound hv hs.sound, fun _ => ⟨f, rfl, hfailing.doubtful⟩, nofun⟩,
        hfailing.changes⟩
  | recovery _ _ hrecovered hnext =>
    exact ⟨consistent_of_proceeds (hrecovered.changes.sound hv hs.sound) hnext, hrecovered.changes⟩
  | finalization _ hfinalized =>
    exact ⟨⟨hfinalized.changes.sound hv hs.sound,
      fun hphase => absurd hphase (ne_recovering_of_isOver hfinalized.phase), hfinalized.decided⟩,
      hfinalized.changes⟩
  | idle _ => exact ⟨hs, .refl⟩

/-- **Any number of steps** keep a state consistent, and change its map by changes. -/
lemma Reaches.consistent (hv : v.Proper) (h : v.Reaches s t) (hs : v.Consistent s) :
    v.Consistent t ∧ v.Changes s.map t.map := by
  induction h with
  | refl => exact ⟨hs, .refl⟩
  | step cancelled _ ih =>
    obtain ⟨hconsistent, hchanges⟩ := (ih.1.stepped hv cancelled).consistent hv ih.1
    exact ⟨hconsistent, ih.2.trans hchanges⟩

lemma Reachable.consistent (hv : v.Proper) (h : v.Reachable s) : v.Consistent s :=
  (Reaches.consistent hv h (consistent_start v)).1

lemma Reachable.changes (hv : v.Proper) (h : v.Reachable s) : v.Changes v.start.map s.map :=
  (Reaches.consistent hv h (consistent_start v)).2

/-! ## A small survey

Eleven bytes of code on which discovery fails once.  The entry calls `0x1006` and returns; the code
at `0x1006` comes to a jump back to `0x1007`, and behind it to a byte at which the decoder fails.
Giving up goes back to the label at `0x1007` and keeps the instruction in front of it. -/

/-- A call, a return, two instructions without effect, a jump back, and a byte that does not
decode. -/
def sampleFile : Array UInt8 := #[0xe8, 0x01, 0x00, 0x00, 0x00, 0xc3, 0x90, 0x90, 0x74, 0xfd, 0xc3]

/-- The bytes in memory. -/
def sampleImage : Image where
  layout := .flat 0x1000 0 11
  regions := [⟨0x1000, sampleFile, true, true⟩]

/-- The survey of the bytes, with the usual settings. -/
def sample : Survey := ⟨sampleImage, (Decoder.x86 .bits32 sampleImage.span).failingAt [0x100a], {}⟩

/-! ## A small survey with guesses

Thirty-nine bytes of code and data.  The entry jumps through a table of one slot to `0x1010`, where
two addresses are pushed; so two guesses wait when all sure leads have been followed.  What is
decoded from the first guess, at `0x101c`, is mostly letters, and the review turns it into data;
what is decoded from the second, at `0x1024`, is kept. -/

/-- A jump through a table, the table, two pushes and a return, and the code they point to. -/
def guessFile : Array UInt8 := #[
  0xff, 0x24, 0x85, 0x08, 0x10, 0x00, 0x00, 0xc3, 0x10, 0x10, 0x00, 0x00, 0x00, 0x00, 0x00, 0x00,
  0x68, 0x1c, 0x10, 0x00, 0x00, 0x68, 0x24, 0x10, 0x00, 0x00, 0xc3, 0xcc, 0x41, 0x41, 0x41, 0xc3,
  0xcc, 0xcc, 0xcc, 0xcc, 0x31, 0xc0, 0xc3]

/-- The bytes in memory. -/
def guessImage : Image where
  layout := .flat 0x1000 0 39
  regions := [⟨0x1000, guessFile, true, true⟩]

/-- The survey of the bytes, with the usual settings. -/
def guessing : Survey := ⟨guessImage, .x86 .bits32 guessImage.span, {}⟩

end Survey

end CodeSift
