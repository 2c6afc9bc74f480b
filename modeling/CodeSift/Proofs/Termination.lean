import CodeSift.Proofs.Stopping
import Mathlib.Data.List.Perm.Subperm

/-!
# Every survey ends

Giving up clears bytes, and an address may come to wait, be taken back and come to wait again, so no
single count goes down from step to step.  What does not come back are the addresses that discovery
takes from the agenda.  Once taken an address is *spent* (`Survey.Spent`): it does not wait, and it
is settled, if not yet then as soon as the failed attempt that is pending is given up.  Only open
addresses come to wait and only open addresses are tried, so a spent address stays spent
(`Stepped.spent`), and no address is taken twice or is the seed of two attempts.

All these addresses are executable, so there are at most as many as bytes.  Each address taken pays
for two steps, the one that takes it and the one that may give it up; two more steps end discovery
and the survey (`Stepped.toFinalizing`).  This bounds the number of steps, and shows that
`Survey.run`, which stops after so many, comes to an end (`survey_ends`).

That end need not be the one that a survey is carried out for.  Where an executable region ends
behind `0xfffffffc`, the survey may stop before it is done (`overrun_is_never_done`).
-/

namespace CodeSift

/-- The number of steps up to the last, when no address waits. -/
def Phase.toFinalizing : Phase → Nat
  | .discovering => 1
  | .recovering => 2
  | .finalizing | .done | .stopped => 0

namespace Survey

variable {v : Survey} {s t u : State} {x : Address} {taken : Option Address} {seeds : List Address}

/-! ## Spent addresses -/

/-- The next step may make attempts. -/
def State.Tries (s : State) : Prop := s.phase = .discovering ∨ s.phase = .finalizing

lemma State.Tries.not_isOver (h : s.Tries) : s.phase.isOver = false := by
  rcases h with h | h <;> rw [h] <;> rfl

/-- **The address is spent**: it does not wait, and it is settled or will be when the pending
attempt is given up. -/
structure Spent (v : Survey) (s : State) (x : Address) : Prop where
  waiting : s.agenda.contains x = false
  settled : s.Tries → v.isSettled s x = true
  pending {f : Failure} {b : Address} {u : State} :
    s.phase = .recovering → s.failure = some f → v.Recovered s f b u → v.isSettled u x = true

/-- Behind a step that takes an address and lets only open addresses come to wait, neither that
address nor any spent one waits. -/
lemma not_waiting_of_pop? {lead : Lead} {rest : Agenda} (hpop : s.agenda.pop? = some (lead, rest))
    (hphase : s.phase = .discovering)
    (hwaits : t.agenda.contains x = true →
      rest.contains x = true ∨ v.isSettled s x = false ∧ x ≠ lead.address)
    (hx : lead.address = x ∨ v.Spent s x) : t.agenda.contains x = false := by
  rw [Bool.eq_false_iff]
  intro hcontains
  rcases hwaits hcontains with hrest | ⟨hopen, hne⟩
  · rcases hx with rfl | hspent
    · rw [Agenda.not_contains_of_pop? hpop] at hrest
      cases hrest
    · have hwaiting := hspent.waiting
      rw [(Agenda.contains_of_pop? hpop x).mpr (Or.inr hrest)] at hwaiting
      cases hwaiting
  · rcases hx with rfl | hspent
    · exact hne rfl
    · rw [hspent.settled (Or.inl hphase)] at hopen
      cases hopen

/-- Behind a trial the address tried and all spent ones are settled. -/
lemma Tried.isSettled_of_spent {lead : Lead} {rest : Agenda}
    (h : v.Tried { s with agenda := rest } lead.address t) (hphase : s.phase = .discovering)
    (hx : lead.address = x ∨ v.Spent s x) : v.isSettled t x = true := by
  rcases hx with rfl | hspent
  · exact h.seed
  · exact h.isSettled (hspent.settled (Or.inl hphase))

lemma Tried.spent {lead : Lead} {rest : Agenda} (hpop : s.agenda.pop? = some (lead, rest))
    (h : v.Tried { s with agenda := rest } lead.address t) (hphase : s.phase = .discovering)
    (hnext : t.Proceeds) (hx : lead.address = x ∨ v.Spent s x) : v.Spent t x :=
  ⟨not_waiting_of_pop? hpop hphase h.waits hx, fun _ => h.isSettled_of_spent hphase hx,
    fun hrecovering => absurd hrecovering hnext.ne_recovering⟩

/-- **A step spends the address that it takes, and spent addresses stay spent.** -/
lemma Stepped.spent (h : v.Stepped s taken seeds t) (hx : taken = some x ∨ v.Spent s x) :
    v.Spent t x := by
  cases h with
  | discovery hphase hdiscovery =>
    cases hdiscovery with
    | ended hmap _ hagenda _ hfailed _ hended =>
      have hspent : v.Spent s x := hx.resolve_left nofun
      refine ⟨by rw [hagenda]; rfl, fun _ => ?_, fun hrecovering => ?_⟩
      · refine isSettled_mono (s := s) ?_ ?_ ?_ ?_ (hspent.settled (Or.inl hphase))
        · rw [hmap]
        · rw [hmap]
          exact id
        · rw [hmap]
          exact id
        · rw [hfailed]
          exact id
      · rw [hended] at hrecovering
        cases hrecovering
    | refused hpop htried _ hnext =>
      exact htried.spent hpop hphase hnext (hx.imp_left Option.some.inj)
    | succeeded hpop _ htried _ hnext =>
      exact htried.spent hpop hphase hnext (hx.imp_left Option.some.inj)
    | failed hpop _ _ hseed hfailing =>
      have hx := hx.imp_left Option.some.inj
      refine ⟨not_waiting_of_pop? hpop hphase (hseed ▸ hfailing.waits) hx, ?_, ?_⟩
      · rintro (hother | hother) <;> cases hother
      · -- whichever way the attempt is given up, that is a trial of its seed
        rintro f b u - hf hrecovered
        cases hf
        exact (hseed ▸ hfailing.tried hrecovered.of_pending).isSettled_of_spent hphase hx
  | recovery hphase hfailure hrecovered hnext =>
    have hspent : v.Spent s x := hx.resolve_left nofun
    refine ⟨?_, fun _ => hspent.pending hphase hfailure hrecovered,
      fun hrecovering => absurd hrecovering hnext.ne_recovering⟩
    rw [Bool.eq_false_iff]
    intro hcontains
    have hwaiting := hspent.waiting
    rw [hrecovered.waits hcontains] at hwaiting
    cases hwaiting
  | finalization _ hfinalized =>
    refine ⟨by rw [hfinalized.agenda]; rfl, fun htries => ?_,
      fun hrecovering => absurd hrecovering (ne_recovering_of_isOver hfinalized.phase)⟩
    have hover := htries.not_isOver
    rw [hfinalized.phase] at hover
    cases hover
  | idle => exact hx.resolve_left nofun

/-! ## What else a step does to the agenda and the counts -/

lemma isExecutable_of_open (h : v.isSettled s x = false) : v.image.isExecutable x = true :=
  (isSettled_eq_false_iff.mp h).2.2.1

/-- The address that a step takes waited before. -/
lemma Stepped.waiting_of_taken (h : v.Stepped s (some x) seeds t) : s.agenda.contains x = true := by
  generalize htaken : some x = taken at h
  cases h with
  | discovery _ hdiscovery =>
    cases hdiscovery with
    | ended => cases htaken
    | refused hpop => exact (Agenda.contains_of_pop? hpop x).mpr (Or.inl (Option.some.inj htaken))
    | succeeded hpop => exact (Agenda.contains_of_pop? hpop x).mpr (Or.inl (Option.some.inj htaken))
    | failed hpop => exact (Agenda.contains_of_pop? hpop x).mpr (Or.inl (Option.some.inj htaken))
  | recovery => cases htaken
  | finalization => cases htaken
  | idle => cases htaken

/-- The addresses that have come to wait are executable. -/
lemma Stepped.isExecutable (h : v.Stepped s taken seeds t) (hx : t.agenda.contains x = true) :
    s.agenda.contains x = true ∨ v.image.isExecutable x = true := by
  have hpopped : ∀ {lead : Lead} {rest : Agenda} {a : Address}, s.agenda.pop? = some (lead, rest) →
      rest.contains x = true ∨ v.isSettled s x = false ∧ x ≠ a →
      s.agenda.contains x = true ∨ v.image.isExecutable x = true := by
    intro lead rest a hpop hwaits
    rcases hwaits with hrest | ⟨hopen, -⟩
    · exact Or.inl ((Agenda.contains_of_pop? hpop x).mpr (Or.inr hrest))
    · exact Or.inr (isExecutable_of_open hopen)
  cases h with
  | discovery _ hdiscovery =>
    cases hdiscovery with
    | ended _ _ hagenda =>
      rw [hagenda] at hx
      cases hx
    | refused hpop htried => exact hpopped hpop (htried.waits hx)
    | succeeded hpop _ htried => exact hpopped hpop (htried.waits hx)
    | failed hpop _ _ _ hfailing => exact hpopped hpop (hfailing.waits hx)
  | recovery _ _ hrecovered => exact Or.inl (hrecovered.waits hx)
  | finalization _ hfinalized =>
    rw [hfinalized.agenda] at hx
    cases hx
  | idle => exact Or.inl hx

/-- **Attempts are counted.** -/
lemma Stepped.attempts (h : v.Stepped s taken seeds t) :
    t.stats.attempts = s.stats.attempts + seeds.length := by
  cases h with
  | discovery _ hdiscovery =>
    cases hdiscovery with
    | ended _ _ _ _ _ hattempts => exact hattempts
    | refused _ _ hattempts => exact hattempts
    | succeeded _ _ _ hattempts => exact hattempts
    | failed _ _ _ _ hfailing => exact hfailing.attempts
  | recovery _ _ hrecovered => exact hrecovered.attempts
  | finalization _ hfinalized => exact hfinalized.attempts
  | idle => rfl

/-- **Attempts are made from open addresses**, from none twice, and while none is pending. -/
lemma Stepped.opened (h : v.Stepped s taken seeds t) :
    seeds.Nodup ∧ ∀ x ∈ seeds, s.Tries ∧ v.isSettled s x = false := by
  cases h with
  | discovery hphase hdiscovery =>
    cases hdiscovery with
    | ended => exact ⟨List.nodup_nil, nofun⟩
    | refused => exact ⟨List.nodup_nil, nofun⟩
    | succeeded _ hopen =>
      refine ⟨List.pairwise_singleton _ _, fun x hx => ?_⟩
      rw [List.mem_singleton.mp hx]
      exact ⟨Or.inl hphase, hopen⟩
    | failed _ hopen =>
      refine ⟨List.pairwise_singleton _ _, fun x hx => ?_⟩
      rw [List.mem_singleton.mp hx]
      exact ⟨Or.inl hphase, hopen⟩
  | recovery => exact ⟨List.nodup_nil, nofun⟩
  | finalization hphase hfinalized =>
    exact ⟨hfinalized.nodup, fun x hx => ⟨Or.inr hphase, hfinalized.opened hx⟩⟩
  | idle => exact ⟨List.nodup_nil, nofun⟩

/-- Before the end, the seed of an attempt is the address that the step takes. -/
lemma Stepped.taken_of_mem_seeds (h : v.Stepped s taken seeds t) (hphase : t.phase.isOver = false)
    (hx : x ∈ seeds) : taken = some x := by
  cases h with
  | discovery _ hdiscovery =>
    cases hdiscovery with
    | ended => cases hx
    | refused => cases hx
    | succeeded => exact congrArg some (List.mem_singleton.mp hx).symm
    | failed => exact congrArg some (List.mem_singleton.mp hx).symm
  | recovery => cases hx
  | finalization _ hfinalized => exact absurd hfinalized.phase (Bool.eq_false_iff.mp hphase)
  | idle => cases hx

/-- At the end nothing waits. -/
lemma Stepped.agenda_eq_empty (h : v.Stepped s taken seeds t)
    (hs : s.phase = .done → s.agenda = .empty) (hphase : t.phase = .done) : t.agenda = .empty := by
  cases h with
  | discovery _ hdiscovery =>
    cases hdiscovery with
    | ended _ _ hagenda => exact hagenda
    | refused _ _ _ hnext => exact absurd hphase hnext.ne_done
    | succeeded _ _ _ _ hnext => exact absurd hphase hnext.ne_done
    | failed => cases hphase
  | recovery _ _ _ hnext => exact absurd hphase hnext.ne_done
  | finalization _ hfinalized => exact hfinalized.agenda
  | idle => exact hs hphase

/-! ## Counting steps -/

lemma State.Proceeds.toFinalizing_le (h : s.Proceeds) : s.phase.toFinalizing ≤ 1 := by
  rcases h with h | h | h <;> rw [h] <;> decide

/-- **A step that is not the last brings the end nearer**, unless it is paid for by the address that
it takes. -/
lemma Stepped.toFinalizing (h : v.Stepped s taken seeds t) (hphase : t.phase.isOver = false) :
    t.phase.toFinalizing + 1 ≤ s.phase.toFinalizing + 2 * taken.toList.length := by
  cases h with
  | discovery hdiscovering hdiscovery =>
    rw [hdiscovering]
    cases hdiscovery with
    | ended _ _ _ _ _ _ hended =>
      rw [hended]
      decide
    | refused _ _ _ hnext =>
      have hle := hnext.toFinalizing_le
      show t.phase.toFinalizing + 1 ≤ 1 + 2 * 1
      omega
    | succeeded _ _ _ _ hnext =>
      have hle := hnext.toFinalizing_le
      show t.phase.toFinalizing + 1 ≤ 1 + 2 * 1
      omega
    | failed =>
      show 2 + 1 ≤ 1 + 2 * 1
      omega
  | recovery hrecovering _ _ hnext =>
    rw [hrecovering]
    exact Nat.succ_le_succ hnext.toFinalizing_le
  | finalization _ hfinalized => exact absurd hfinalized.phase (Bool.eq_false_iff.mp hphase)
  | idle hover => exact absurd hover (Bool.eq_false_iff.mp hphase)

/-! ## Whole surveys -/

/-- The addresses that the first steps take from the agenda, in order. -/
def takenWithin (v : Survey) (cancelled : Nat → Bool) : Nat → List Address
  | 0 => []
  | n + 1 => v.takenWithin cancelled n ++ (v.taken? (cancelled n) (v.stateAt cancelled n)).toList

/-- The addresses from which the first steps make attempts, in order. -/
def seedsWithin (v : Survey) (cancelled : Nat → Bool) : Nat → List Address
  | 0 => []
  | n + 1 => v.seedsWithin cancelled n ++ v.attemptSeeds (cancelled n) (v.stateAt cancelled n)

lemma stepped_stateAt (hv : v.Proper) (cancelled : Nat → Bool) (n : Nat) :
    v.Stepped (v.stateAt cancelled n) (v.taken? (cancelled n) (v.stateAt cancelled n))
      (v.attemptSeeds (cancelled n) (v.stateAt cancelled n)) (v.stateAt cancelled (n + 1)) :=
  ((reachable_stateAt v cancelled n).consistent hv).stepped hv (cancelled n)

variable {cancelled : Nat → Bool}

/-- **No address is taken twice.** -/
lemma spent_takenWithin (hv : v.Proper) (n : Nat) :
    (v.takenWithin cancelled n).Nodup ∧
      ∀ x ∈ v.takenWithin cancelled n, v.Spent (v.stateAt cancelled n) x := by
  induction n with
  | zero => exact ⟨List.nodup_nil, nofun⟩
  | succ n ih =>
    obtain ⟨hnodup, hspent⟩ := ih
    have hstepped := stepped_stateAt hv cancelled n
    rw [takenWithin]
    generalize v.taken? (cancelled n) (v.stateAt cancelled n) = taken at hstepped
    refine ⟨?_, fun x hx => hstepped.spent ?_⟩
    · cases taken with
      | none => simpa using hnodup
      | some a =>
        refine List.nodup_append.mpr ⟨hnodup, List.pairwise_singleton _ a, ?_⟩
        rintro x hx y hy rfl
        obtain rfl := List.mem_singleton.mp hy
        have hwaiting := (hspent x hx).waiting
        rw [hstepped.waiting_of_taken] at hwaiting
        cases hwaiting
    · rcases List.mem_append.mp hx with hold | hnew
      · exact Or.inr (hspent x hold)
      · exact Or.inl (Option.mem_toList.mp hnew)

lemma isExecutable_of_waiting (hv : v.Proper) {n : Nat}
    (hx : (v.stateAt cancelled n).agenda.contains x = true) : v.image.isExecutable x = true := by
  induction n with
  | zero => exact (contains_start.mp hx).1
  | succ n ih =>
    rcases (stepped_stateAt hv cancelled n).isExecutable hx with hold | hexecutable
    · exact ih hold
    · exact hexecutable

lemma isExecutable_of_mem_takenWithin (hv : v.Proper) {n : Nat}
    (hx : x ∈ v.takenWithin cancelled n) : v.image.isExecutable x = true := by
  induction n with
  | zero => cases hx
  | succ n ih =>
    rcases List.mem_append.mp hx with hold | hnew
    · exact ih hold
    · have hstepped := stepped_stateAt hv cancelled n
      rw [Option.mem_toList.mp hnew] at hstepped
      exact isExecutable_of_waiting hv hstepped.waiting_of_taken

/-- The end is the end. -/
lemma step_of_isOver (h : s.phase.isOver = true) (c : Bool) : v.step c s = s := by
  unfold Survey.step
  cases hphase : s.phase <;> rw [hphase] at h <;> first | rfl | cases h

lemma not_isOver_of_succ {n : Nat} (h : (v.stateAt cancelled (n + 1)).phase.isOver = false) :
    (v.stateAt cancelled n).phase.isOver = false := by
  rw [Bool.eq_false_iff]
  intro hover
  rw [stateAt, step_of_isOver hover, hover] at h
  cases h

lemma stateAt_add_of_isOver {n : Nat} (h : (v.stateAt cancelled n).phase.isOver = true) (k : Nat) :
    v.stateAt cancelled (n + k) = v.stateAt cancelled n := by
  induction k with
  | zero => rfl
  | succ k ih => rw [← Nat.add_assoc, stateAt, ih, step_of_isOver h]

lemma mem_takenWithin_of_mem_seedsWithin (hv : v.Proper) {n : Nat}
    (hphase : (v.stateAt cancelled n).phase.isOver = false) (hx : x ∈ v.seedsWithin cancelled n) :
    x ∈ v.takenWithin cancelled n := by
  induction n with
  | zero => cases hx
  | succ n ih =>
    rw [takenWithin, List.mem_append]
    rcases List.mem_append.mp hx with hold | hnew
    · exact Or.inl (ih (not_isOver_of_succ hphase) hold)
    · exact Or.inr
        (Option.mem_toList.mpr ((stepped_stateAt hv cancelled n).taken_of_mem_seeds hphase hnew))

/-- **No address is the seed of two attempts.** -/
lemma nodup_seedsWithin (hv : v.Proper) (n : Nat) :
    (v.seedsWithin cancelled n).Nodup ∧
      ∀ x ∈ v.seedsWithin cancelled n, v.image.isExecutable x = true := by
  induction n with
  | zero => exact ⟨List.nodup_nil, nofun⟩
  | succ n ih =>
    obtain ⟨hnodup, hopened⟩ := (stepped_stateAt hv cancelled n).opened
    refine ⟨List.nodup_append.mpr ⟨ih.1, hnodup, ?_⟩, fun x hx => ?_⟩
    · rintro x hx y hy rfl
      -- an earlier seed was taken from the agenda, and is settled since
      obtain ⟨htries, hopen⟩ := hopened x hy
      have htaken := mem_takenWithin_of_mem_seedsWithin hv htries.not_isOver hx
      rw [((spent_takenWithin hv n).2 x htaken).settled htries] at hopen
      cases hopen
    · rcases List.mem_append.mp hx with hold | hnew
      · exact ih.2 x hold
      · exact isExecutable_of_open (hopened x hnew).2

lemma attempts_stateAt (hv : v.Proper) (n : Nat) :
    (v.stateAt cancelled n).stats.attempts = (v.seedsWithin cancelled n).length := by
  induction n with
  | zero =>
    obtain ⟨map, agenda, hstart⟩ := exists_start_eq v
    rw [stateAt, hstart]
    rfl
  | succ n ih => rw [(stepped_stateAt hv cancelled n).attempts, ih, seedsWithin, List.length_append]

lemma agenda_eq_empty_of_done (hv : v.Proper) {n : Nat}
    (h : (v.stateAt cancelled n).phase = .done) : (v.stateAt cancelled n).agenda = .empty := by
  induction n with
  | zero =>
    obtain ⟨map, agenda, hstart⟩ := exists_start_eq v
    rw [stateAt, hstart] at h
    cases h
  | succ n ih => exact (stepped_stateAt hv cancelled n).agenda_eq_empty ih h

/-- **The addresses taken pay for all steps but two.** -/
lemma add_toFinalizing_le (hv : v.Proper) {n : Nat}
    (h : (v.stateAt cancelled n).phase.isOver = false) :
    n + (v.stateAt cancelled n).phase.toFinalizing ≤
      2 * (v.takenWithin cancelled n).length + 1 := by
  induction n with
  | zero =>
    obtain ⟨map, agenda, hstart⟩ := exists_start_eq v
    rw [stateAt, hstart]
    exact Nat.le_refl 1
  | succ n ih =>
    have hbefore := ih (not_isOver_of_succ h)
    have hstep := (stepped_stateAt hv cancelled n).toFinalizing h
    rw [takenWithin, List.length_append]
    omega

/-- There are no more executable addresses than bytes. -/
lemma length_le_size {addresses : List Address} (hs : v.Sound s.map) (hnodup : addresses.Nodup)
    (hexecutable : ∀ x ∈ addresses, v.image.isExecutable x = true) :
    addresses.length ≤ s.map.size := by
  have hsubset : addresses ⊆ s.map.coverage.addresses :=
    fun x hx => Coverage.contains_iff.mp (hs.contains (hexecutable x hx))
  calc addresses.length
      ≤ s.map.coverage.addresses.length := (hnodup.subperm hsubset).length_le
    _ = s.map.coverage.size := s.map.coverage.length_addresses
    _ = s.map.size := s.map.size_cells.symm

lemma length_takenWithin_le (hv : v.Proper) (cancelled : Nat → Bool) (n : Nat) :
    (v.takenWithin cancelled n).length ≤ v.start.map.size :=
  length_le_size (consistent_start v).sound (spent_takenWithin hv n).1
    fun _ hx => isExecutable_of_mem_takenWithin hv hx

/-- **Within so many steps every survey is at its end.** -/
lemma isOver_stateAt (hv : v.Proper) :
    (v.stateAt cancelled (2 * v.start.map.size + 2)).phase.isOver = true := by
  by_contra hphase
  have hsteps := add_toFinalizing_le hv (Bool.eq_false_iff.mpr hphase)
  have htaken := length_takenWithin_le hv cancelled (2 * v.start.map.size + 2)
  omega

/-- Stopping at the end or going on makes no difference. -/
lemma runFrom_stateAt (v : Survey) (cancelled : Nat → Bool) (fuel n : Nat) :
    v.runFrom cancelled fuel n (v.stateAt cancelled n) = v.stateAt cancelled (n + fuel) := by
  induction fuel generalizing n with
  | zero => rfl
  | succ fuel ih =>
    unfold runFrom
    split
    · next hover => exact (stateAt_add_of_isOver hover _).symm
    · rw [← stateAt, ih, Nat.add_right_comm, Nat.add_assoc]

lemma run_eq_stateAt (v : Survey) (cancelled : Nat → Bool) :
    v.run cancelled = v.stateAt cancelled (stepBound v.start.map.size) := by
  have hrun := runFrom_stateAt v cancelled (stepBound v.start.map.size) 0
  rwa [Nat.zero_add] at hrun

lemma done_or_stopped (h : s.phase.isOver = true) : s.phase = .done ∨ s.phase = .stopped := by
  cases hphase : s.phase <;> rw [hphase] at h <;> simp_all [Phase.isOver]

/-- A survey that is carried out comes to its end, and stops only over regions that reach up
high. -/
lemma run_ends (hv : v.Proper) (cancelled : Nat → Bool) :
    ((v.run cancelled).phase = .done ∨
      (v.run cancelled).phase = .stopped ∧ ¬v.image.EndsBy 0xfffffffc) ∧
    v.Reachable (v.run cancelled) := by
  rw [run_eq_stateAt]
  have hreachable := reachable_stateAt v cancelled (2 * v.start.map.size + 2)
  have hover := done_or_stopped (@isOver_stateAt v cancelled hv)
  exact ⟨hover.imp_right fun hstopped => ⟨hstopped,
    fun hends => hreachable.ne_stopped hv hends hstopped⟩, hreachable⟩

/-- **Every survey ends, done or stopped.**  No address is taken from the agenda twice, and none is
the seed of two attempts, those of the last step included.  So there are at most as many attempts as
bytes, an end is reached within two steps for each byte and two more, and there nothing changes any
more.  A survey that is done has no address waiting.  One that has stopped did so at a covered slot
of a jump table without an address at its end, or in a search for tables in executable bytes up to
the highest address; where every executable region ends by `0xfffffffc`, a survey does not stop, and
is done. -/
theorem survey_ends {file : Array UInt8} {layout : Layout}
    (hload : Image.load file layout = .ok v.image) (hdecoder : v.decoder.Faithful)
    (cancelled : Nat → Bool) :
    (∀ n, (v.takenWithin cancelled n).Nodup ∧ (v.seedsWithin cancelled n).Nodup) ∧
    (∀ n, (v.stateAt cancelled n).stats.attempts = (v.seedsWithin cancelled n).length ∧
      (v.stateAt cancelled n).stats.attempts ≤ (v.stateAt cancelled n).map.size) ∧
    ((v.stateAt cancelled (2 * v.start.map.size + 2)).phase = .done ∨
      (v.stateAt cancelled (2 * v.start.map.size + 2)).phase = .stopped) ∧
    v.run cancelled = v.stateAt cancelled (2 * v.start.map.size + 2) ∧
    (∀ n, (v.stateAt cancelled n).phase = .done → (v.stateAt cancelled n).agenda = .empty ∧
      ∀ c, v.step c (v.stateAt cancelled n) = v.stateAt cancelled n) ∧
    (∀ n, (v.stateAt cancelled n).phase = .stopped →
      ((v.stateAt cancelled n).Overruns ∨
        v.settings.detectAddressTables = true ∧ ¬v.image.EndsBy 0xfffffffe) ∧
      ∀ c, v.step c (v.stateAt cancelled n) = v.stateAt cancelled n) ∧
    (v.image.EndsBy 0xfffffffc →
      (v.stateAt cancelled (2 * v.start.map.size + 2)).phase = .done) := by
  have hv : v.Proper := ⟨Image.placed_of_load hload, hdecoder⟩
  have hreach := reachable_stateAt v cancelled
  have hover := done_or_stopped (@isOver_stateAt v cancelled hv)
  refine ⟨fun n => ⟨(spent_takenWithin hv n).1, (nodup_seedsWithin hv n).1⟩,
    fun n => ⟨attempts_stateAt hv n, ?_⟩, hover, run_eq_stateAt v cancelled,
    fun n hdone => ⟨agenda_eq_empty_of_done hv hdone, step_of_isOver (by rw [hdone]; rfl)⟩,
    fun n hstopped => ⟨?_, step_of_isOver (by rw [hstopped]; rfl)⟩,
    fun hends => hover.resolve_right ((hreach _).ne_stopped hv hends)⟩
  · have hsound := ((hreach n).consistent hv).sound
    rw [attempts_stateAt hv n]
    exact length_le_size hsound (nodup_seedsWithin hv n).1 (nodup_seedsWithin hv n).2
  · by_cases hends : v.image.EndsBy 0xfffffffe
    · exact Or.inl ((hreach n).overruns hv hends hstopped)
    · exact ((hreach n).stuck hv hstopped).imp_right fun hsearch => ⟨hsearch.1, hends⟩

/-- The small survey takes two addresses, and both are seeds of attempts. -/
theorem survey_ends_sample :
    Image.load sampleFile sampleImage.layout = .ok sample.image ∧
      sample.takenWithin (fun _ => false) 4 = [0x1000, 0x1006] ∧
      (sample.takenWithin (fun _ => false) 4).Nodup ∧
      (sample.stateAt (fun _ => false) 24).phase = .done ∧
      (sample.stateAt (fun _ => false) 24).agenda = .empty := by
  have hload : Image.load sampleFile sampleImage.layout = .ok sample.image := by decide +kernel
  have htaken : sample.takenWithin (fun _ => false) 4 = [0x1000, 0x1006] := by decide +kernel
  have hsize : sample.start.map.size = 11 := by decide +kernel
  have hfaithful : sample.decoder.Faithful :=
    (Decoder.faithful_x86 .bits32 sampleImage.span).failingAt [0x100a]
  obtain ⟨hnodup, -, -, -, hlast, -, hdone⟩ := survey_ends hload hfaithful (fun _ => false)
  have hdone := hdone (by decide +kernel)
  rw [hsize] at hdone
  exact ⟨hload, htaken, (hnodup 4).1, hdone, (hlast 24 hdone).1⟩

/-- **A survey need not be done, however many steps it takes.**  The jump at the end of the address
space ends in front of `0xfffffffe`, and its survey has stopped after one step. -/
theorem overrun_is_never_done :
    Image.load (jumpFile 0xfc) (jumpLayout 0xfc) = .ok (jumpSurvey 0xfc).image ∧
      (jumpSurvey 0xfc).image.EndsBy 0xfffffffe ∧
      ∀ n, ((jumpSurvey 0xfc).stateAt (fun _ => false) n).phase ≠ .done := by
  have hstopped : ((jumpSurvey 0xfc).stateAt (fun _ => false) 1).phase = .stopped := by
    decide +kernel
  refine ⟨by decide +kernel, by decide +kernel, fun n => ?_⟩
  cases n with
  | zero => decide +kernel
  | succ n =>
    rw [Nat.add_comm, stateAt_add_of_isOver (by rw [hstopped]; rfl), hstopped]
    exact nofun

end Survey

end CodeSift
