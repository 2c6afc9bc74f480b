import CodeSift.Proofs.Noting
import CodeSift.Proofs.Termination

/-!
# How far the limits of a survey reach

Two settings limit discovery, one by attempts and one by failures.  Both are tested against counts,
and the counts move elsewhere: the attempts are counted when one is made, not when an address is
taken from the agenda, and the failures when one is given up, just before they are tested.

So an address that is taken but *refused*, because it is settled or does not stand up to being tried
out, costs nothing, and a survey takes as many addresses as it is allowed attempts and any number of
refused ones besides.  And the first failure is given up whatever the limit is, so that a limit of
zero has the same effect as a limit of one.  This is all that the limits let through
(`limits_hold_up_to_refusals`), and both do happen (`limits_are_overrun`).

The argument keeps accounts: as long as discovery lasts, the two counts are the numbers of attempts
made and of failures given up (`Budgeted`).  One step keeps the accounts (`Budgeted.step`), whatever
decoder and image it works on.
-/

namespace CodeSift

namespace Survey

variable {v : Survey} {s t : State} {a : Address} {i : Instruction} {suspicious : Bool}

/-! ## What is counted -/

/-- The two states have counted the same attempts and the same failures. -/
structure SameCounts (s t : State) : Prop where
  attempts : t.stats.attempts = s.stats.attempts
  recoveries : t.stats.recoveries = s.stats.recoveries

lemma SameCounts.trans {u : State} (h : SameCounts s t) (h' : SameCounts t u) : SameCounts s u :=
  ⟨h'.attempts.trans h.attempts, h'.recoveries.trans h.recoveries⟩

lemma sameCounts_refer (v : Survey) (confidence : Confidence) (s : State) (r : CrossReference) :
    SameCounts s (v.refer confidence s r) := by
  unfold refer
  split <;> exact ⟨rfl, rfl⟩

lemma Noted.sameCounts (h : v.Noted i suspicious s t) : SameCounts s t := by
  cases h with
  | code => exact sameCounts_refer v _ s _
  | place => exact ⟨rfl, rfl⟩
  | slot _ _ _ _ _ hslot =>
    obtain ⟨target, -, -, -, rfl⟩ := readSlot_eq_some hslot
    obtain ⟨hattempts, hrecoveries⟩ := sameCounts_refer v _ _ _
    exact ⟨hattempts, hrecoveries⟩
  | halted => exact ⟨rfl, rfl⟩
  | counted => exact ⟨rfl, rfl⟩

lemma sameCounts_accept (v : Survey) (purpose : Purpose) (suspicious : Bool) (s : State)
    (a : Address) (i : Instruction) : SameCounts s (v.accept purpose suspicious s a i) := by
  cases purpose with
  | decoding => exact ⟨rfl, rfl⟩
  | discovery =>
    have hnotes := notes_followReferences (v := v) i suspicious (s.layDown a i suspicious)
    rw [accept_discovery]
    generalize v.followReferences i suspicious (s.layDown a i suspicious) = t at hnotes
    induction hnotes with
    | refl => exact ⟨rfl, rfl⟩
    | tail _ hnoted ih => exact ih.trans hnoted.sameCounts

lemma sameCounts_attemptFrom (v : Survey) (purpose : Purpose) (suspicious : Bool) (fuel : Nat)
    (a : Address) (s : State) : SameCounts s (v.attemptFrom purpose suspicious fuel a s).1 := by
  induction fuel generalizing a s with
  | zero => exact ⟨rfl, rfl⟩
  | succ fuel ih =>
    unfold attemptFrom
    split
    · exact ⟨rfl, rfl⟩
    · exact ⟨rfl, rfl⟩
    · next i _ =>
      dsimp only
      split
      · exact sameCounts_accept v purpose suspicious s a i
      · exact (sameCounts_accept v purpose suspicious s a i).trans (ih _ _)

/-- **An attempt is counted once**, and no failure with it. -/
lemma sameCounts_attempt (v : Survey) (purpose : Purpose) (confidence : Confidence) (s : State)
    (a : Address) : SameCounts s.countAttempt (v.attempt purpose confidence s a).1 :=
  sameCounts_attemptFrom v purpose confidence.isSpeculative (s.map.size + 1) a s.countAttempt

/-- **Giving up is counted once**, and no attempt with it. -/
lemma counts_recover (v : Survey) (s : State) (f : Failure) :
    (v.recover s f).stats.attempts = s.stats.attempts ∧
      (v.recover s f).stats.recoveries = s.stats.recoveries + 1 := by
  unfold recover
  dsimp only
  rw [(withdrawn_foldl _ _).stats]
  exact ⟨rfl, rfl⟩

/-! ## Addresses that are tried and addresses that are refused -/

/-- The address that a step takes from the agenda and makes an attempt from. -/
def tried? (v : Survey) (cancelled : Bool) (s : State) : Option Address :=
  match s.phase with
  | .discovering => v.seed? cancelled s
  | _ => none

/-- The address that a step takes from the agenda and makes no attempt from: it is settled, or does
not stand up to being tried out. -/
def refused? (v : Survey) (cancelled : Bool) (s : State) : Option Address :=
  match s.phase with
  | .discovering => (v.lead? cancelled s).bind fun lead =>
      if v.isSettled s lead.address ||
        lead.confidence.isSpeculative && !v.probe s.map lead.address then
        some lead.address
      else none
  | _ => none

/-- An address that is taken is either tried or refused. -/
lemma length_taken? (v : Survey) (cancelled : Bool) (s : State) :
    (v.taken? cancelled s).toList.length =
      (v.tried? cancelled s).toList.length + (v.refused? cancelled s).toList.length := by
  unfold taken? tried? refused? seed?
  cases s.phase with
  | discovering =>
    cases v.lead? cancelled s with
    | none => rfl
    | some lead =>
      dsimp only [Option.map_some, Option.bind_some]
      split <;> rfl
  | recovering => rfl
  | finalizing => rfl
  | done => rfl
  | stopped => rfl

/-- **A step of discovery** counts the attempt that it makes, and no failure. -/
lemma counts_discover (v : Survey) (cancelled : Bool) (s : State) :
    (v.discover cancelled s).stats.attempts =
      s.stats.attempts + (v.seed? cancelled s).toList.length ∧
      (v.discover cancelled s).stats.recoveries = s.stats.recoveries ∧
      ((v.discover cancelled s).phase = .recovering → (v.discover cancelled s).failure ≠ none) := by
  unfold discover seed? lead? isOver
  cases cancelled with
  | true => exact ⟨rfl, rfl, nofun⟩
  | false =>
    rw [Bool.false_or, if_neg Bool.false_ne_true]
    split
    · exact ⟨rfl, rfl, nofun⟩
    · cases s.agenda.pop? with
      | none => exact ⟨rfl, rfl, nofun⟩
      | some popped =>
        obtain ⟨lead, rest⟩ := popped
        have hsettled : v.isSettled { s with agenda := rest } lead.address =
          v.isSettled s lead.address := rfl
        dsimp only [Option.map_some, Option.bind_some]
        rw [hsettled]
        cases v.isSettled s lead.address with
        | true => exact ⟨rfl, rfl, fun hphase => absurd hphase (proceeds_nextPhase _).ne_recovering⟩
        | false =>
          rw [Bool.false_or, if_neg Bool.false_ne_true]
          split
          · exact ⟨rfl, rfl, fun hphase => absurd hphase (proceeds_nextPhase _).ne_recovering⟩
          · have hcounts :=
              sameCounts_attempt v .discovery lead.confidence { s with agenda := rest } lead.address
            cases (v.attempt .discovery lead.confidence { s with agenda := rest }
              lead.address).2 with
            | none =>
              exact ⟨hcounts.attempts, hcounts.recoveries,
                fun hphase => absurd hphase (proceeds_nextPhase _).ne_recovering⟩
            | some f => exact ⟨hcounts.attempts, hcounts.recoveries, fun _ => nofun⟩

/-! ## Keeping accounts -/

/-- The addresses that the first steps take from the agenda and make attempts from, in order. -/
def triedWithin (v : Survey) (cancelled : Nat → Bool) : Nat → List Address
  | 0 => []
  | n + 1 => v.triedWithin cancelled n ++ (v.tried? (cancelled n) (v.stateAt cancelled n)).toList

/-- The addresses that the first steps take from the agenda and refuse, in order. -/
def refusedWithin (v : Survey) (cancelled : Nat → Bool) : Nat → List Address
  | 0 => []
  | n + 1 =>
    v.refusedWithin cancelled n ++ (v.refused? (cancelled n) (v.stateAt cancelled n)).toList

/-- How many of the first steps are taken in the phase. -/
def stepsIn (v : Survey) (cancelled : Nat → Bool) (phase : Phase) : Nat → Nat
  | 0 => 0
  | n + 1 => v.stepsIn cancelled phase n + (decide ((v.stateAt cancelled n).phase = phase)).toNat

variable {cancelled : Nat → Bool} {n : Nat}

/-- **Every address taken is tried or refused.** -/
lemma length_takenWithin (v : Survey) (cancelled : Nat → Bool) (n : Nat) :
    (v.takenWithin cancelled n).length =
      (v.triedWithin cancelled n).length + (v.refusedWithin cancelled n).length := by
  induction n with
  | zero => rfl
  | succ n ih =>
    have hstep := length_taken? v (cancelled n) (v.stateAt cancelled n)
    simp only [takenWithin, triedWithin, refusedWithin, List.length_append]
    omega

/-- Discovery goes on, or goes on as soon as the pending attempt is given up. -/
def State.Discovers (s : State) : Prop := s.phase = .discovering ∨ s.phase = .recovering

/-- **The accounts of a survey** after `n` steps.  While discovery lasts, the counts of the state
are the numbers of attempts and of failures given up, and the limit on failures leaves room for one
more. -/
structure Budgeted (v : Survey) (cancelled : Nat → Bool) (n : Nat) : Prop where
  tried : v.settings.maxAttempts ≠ 0 →
    (v.triedWithin cancelled n).length ≤ v.settings.maxAttempts.toNat
  recovered : v.stepsIn cancelled .recovering n ≤ max 1 v.settings.maxRecoveries.toNat
  attempts : (v.stateAt cancelled n).Discovers →
    (v.stateAt cancelled n).stats.attempts = (v.triedWithin cancelled n).length
  recoveries : (v.stateAt cancelled n).Discovers →
    (v.stateAt cancelled n).stats.recoveries = v.stepsIn cancelled .recovering n ∧
      v.stepsIn cancelled .recovering n < max 1 v.settings.maxRecoveries.toNat
  pending : (v.stateAt cancelled n).phase = .recovering → (v.stateAt cancelled n).failure ≠ none

lemma budgeted_zero (v : Survey) (cancelled : Nat → Bool) : v.Budgeted cancelled 0 := by
  obtain ⟨map, agenda, hstart⟩ := exists_start_eq v
  have hstate : v.stateAt cancelled 0 = { map, agenda } := hstart
  have hroom : 0 < max 1 v.settings.maxRecoveries.toNat := by omega
  refine ⟨fun _ => Nat.zero_le _, Nat.zero_le _,
    fun _ => ?_, fun _ => ⟨?_, hroom⟩, fun hphase => ?_⟩
  · rw [hstate]
    rfl
  · rw [hstate]
    rfl
  · rw [hstate] at hphase
    cases hphase

/-- An attempt is only made while the limit leaves room for it. -/
lemma attempts_lt_of_seed? {c : Bool} (hseed : v.seed? c s = some a)
    (hlimit : v.settings.maxAttempts ≠ 0) : s.stats.attempts < v.settings.maxAttempts.toNat := by
  by_contra hfull
  have hover : v.isOver c s = true := by
    rw [isOver, bne_iff_ne.mpr hlimit, decide_eq_true (Nat.not_lt.mp hfull),
      Bool.and_self, Bool.or_true]
  rw [seed?, lead?, if_pos hover] at hseed
  cases hseed

namespace Budgeted

/-- A step of discovery keeps the accounts. -/
lemma discover (h : v.Budgeted cancelled n)
    (hphase : (v.stateAt cancelled n).phase = .discovering) : v.Budgeted cancelled (n + 1) := by
  have hattempts := h.attempts (Or.inl hphase)
  obtain ⟨hrecoveries, hroom⟩ := h.recoveries (Or.inl hphase)
  obtain ⟨hcounted, hsame, hpending⟩ := counts_discover v (cancelled n) (v.stateAt cancelled n)
  have hstate : v.stateAt cancelled (n + 1) = v.discover (cancelled n) (v.stateAt cancelled n) := by
    rw [stateAt, Survey.step, hphase]
  have htried : v.triedWithin cancelled (n + 1) =
      v.triedWithin cancelled n ++ (v.seed? (cancelled n) (v.stateAt cancelled n)).toList := by
    rw [triedWithin, tried?, hphase]
  have hsteps : v.stepsIn cancelled .recovering (n + 1) = v.stepsIn cancelled .recovering n := by
    rw [stepsIn, hphase]
    rfl
  constructor
  case tried =>
    intro hlimit
    rw [htried, List.length_append]
    cases hseed : v.seed? (cancelled n) (v.stateAt cancelled n) with
    | none => exact h.tried hlimit
    | some a =>
      have hlt := attempts_lt_of_seed? hseed hlimit
      rw [Option.toList_some, List.length_singleton]
      omega
  case recovered =>
    rw [hsteps]
    exact h.recovered
  case attempts =>
    intro _
    rw [hstate, hcounted, htried, List.length_append, hattempts]
  case recoveries =>
    intro _
    rw [hstate, hsame, hsteps]
    exact ⟨hrecoveries, hroom⟩
  case pending =>
    rw [hstate]
    exact hpending

/-- Giving up a failed attempt keeps the accounts. -/
lemma recoverFailure (h : v.Budgeted cancelled n)
    (hphase : (v.stateAt cancelled n).phase = .recovering) : v.Budgeted cancelled (n + 1) := by
  have hattempts := h.attempts (Or.inr hphase)
  obtain ⟨hrecoveries, hroom⟩ := h.recoveries (Or.inr hphase)
  obtain ⟨f, hf⟩ := Option.ne_none_iff_exists'.mp (h.pending hphase)
  have hcounted := counts_recover v { v.stateAt cancelled n with failure := none } f
  have hstate : v.stateAt cancelled (n + 1) = v.recoverFailure (v.stateAt cancelled n) := by
    rw [stateAt, Survey.step, hphase]
  have htried : v.triedWithin cancelled (n + 1) = v.triedWithin cancelled n := by
    rw [triedWithin, tried?, hphase]
    exact List.append_nil _
  have hsteps : v.stepsIn cancelled .recovering (n + 1) =
      v.stepsIn cancelled .recovering n + 1 := by
    rw [stepsIn, hphase]
    rfl
  rw [Survey.recoverFailure, hf] at hstate
  dsimp only at hstate
  generalize v.recover { v.stateAt cancelled n with failure := none } f = u at hcounted hstate
  have hstats : (v.stateAt cancelled (n + 1)).stats = u.stats := by
    rw [hstate]
    split <;> rfl
  have hproceeds : (v.stateAt cancelled (n + 1)).Proceeds := by
    rw [hstate]
    split
    · exact Or.inr (Or.inl rfl)
    · exact proceeds_nextPhase u
  -- discovery goes on only when the failure just counted stays below the limit
  have hbelow : (v.stateAt cancelled (n + 1)).Discovers →
      u.stats.recoveries < v.settings.maxRecoveries.toNat := by
    intro hdiscovers
    by_contra hfull
    rw [hstate, if_pos (Nat.not_lt.mp hfull)] at hdiscovers
    rcases hdiscovers with hended | hended <;> cases hended
  constructor
  case tried =>
    rw [htried]
    exact h.tried
  case recovered =>
    rw [hsteps]
    exact hroom
  case attempts =>
    intro _
    rw [hstats, hcounted.1, htried]
    exact hattempts
  case recoveries =>
    intro hdiscovers
    have hlt := hbelow hdiscovers
    have hcount : u.stats.recoveries = v.stepsIn cancelled .recovering n + 1 := by
      rw [hcounted.2, ← hrecoveries]
    rw [hstats, hsteps]
    omega
  case pending => exact fun hrecovering => absurd hrecovering hproceeds.ne_recovering

/-- The steps behind discovery keep the accounts. -/
lemma ended (h : v.Budgeted cancelled n)
    (hended : (v.stateAt cancelled (n + 1)).phase.isOver = true)
    (hphase : ¬(v.stateAt cancelled n).Discovers) : v.Budgeted cancelled (n + 1) := by
  rw [State.Discovers, not_or] at hphase
  have htried : v.triedWithin cancelled (n + 1) = v.triedWithin cancelled n := by
    rw [triedWithin, tried?]
    split
    · next hdiscovering => exact absurd hdiscovering hphase.1
    · exact List.append_nil _
  have hsteps : v.stepsIn cancelled .recovering (n + 1) = v.stepsIn cancelled .recovering n := by
    rw [stepsIn, decide_eq_false hphase.2]
    rfl
  have hover : ¬(v.stateAt cancelled (n + 1)).Discovers := by
    rintro (hdiscovering | hrecovering)
    · rw [hdiscovering] at hended
      cases hended
    · exact ne_recovering_of_isOver hended hrecovering
  constructor
  case tried =>
    rw [htried]
    exact h.tried
  case recovered =>
    rw [hsteps]
    exact h.recovered
  case attempts => exact fun hdiscovers => absurd hdiscovers hover
  case recoveries => exact fun hdiscovers => absurd hdiscovers hover
  case pending => exact fun hrecovering => absurd (Or.inr hrecovering) hover

lemma idle (h : v.Budgeted cancelled n) (hover : (v.stateAt cancelled n).phase.isOver = true) :
    v.Budgeted cancelled (n + 1) := by
  refine h.ended ?_ ?_
  · rw [stateAt, step_of_isOver hover]
    exact hover
  · rintro (hdiscovering | hrecovering)
    · rw [hdiscovering] at hover
      cases hover
    · exact ne_recovering_of_isOver hover hrecovering

/-- **One step keeps the accounts.** -/
lemma step (h : v.Budgeted cancelled n) : v.Budgeted cancelled (n + 1) := by
  cases hphase : (v.stateAt cancelled n).phase with
  | discovering => exact h.discover hphase
  | recovering => exact h.recoverFailure hphase
  | finalizing =>
    refine h.ended ?_ ?_
    · rw [stateAt, Survey.step, hphase]
      exact isOver_finalize v _
    · rw [State.Discovers, hphase]
      rintro (hdiscovers | hdiscovers) <;> cases hdiscovers
  | done => exact h.idle (by rw [hphase]; rfl)
  | stopped => exact h.idle (by rw [hphase]; rfl)

end Budgeted

/-- **All through a survey the accounts are kept.** -/
lemma budgeted (v : Survey) (cancelled : Nat → Bool) (n : Nat) : v.Budgeted cancelled n := by
  induction n with
  | zero => exact budgeted_zero v cancelled
  | succ n ih => exact ih.step

/-! ## What the limits bound -/

/-- **The limits bound attempts, and failures but the first.**  The addresses that a survey takes
from the agenda are those from which it makes an attempt, never more than the limit, and those that
it refuses, which no limit counts.  It gives up no more failed attempts than their limit, or one
when that is zero. -/
theorem limits_hold_up_to_refusals (v : Survey) (cancelled : Nat → Bool) (n : Nat) :
    (v.takenWithin cancelled n).length =
      (v.triedWithin cancelled n).length + (v.refusedWithin cancelled n).length ∧
    (v.settings.maxAttempts ≠ 0 →
      (v.triedWithin cancelled n).length ≤ v.settings.maxAttempts.toNat) ∧
    v.stepsIn cancelled .recovering n ≤ max 1 v.settings.maxRecoveries.toNat := by
  have haccounts := budgeted v cancelled n
  exact ⟨length_takenWithin v cancelled n, haccounts.tried, haccounts.recovered⟩

/-! ## Two small surveys

In the first, two calls lead to the instruction behind the first call and to a return.  The
instruction is decoded together with the entry, so its address is refused when it is taken.  In the
second, nothing can be decoded. -/

/-- A call to the next instruction, a call over the return behind it, and two returns. -/
def stairsFile : Array UInt8 :=
  #[0xe8, 0x00, 0x00, 0x00, 0x00, 0xe8, 0x01, 0x00, 0x00, 0x00, 0xc3, 0xc3]

/-- The survey of the calls, with two attempts. -/
def stairs : Survey :=
  .ofImage ⟨.flat 0x1000 0 12, [⟨0x1000, stairsFile, true, true⟩]⟩ { maxAttempts := 2 }

/-- The survey of half an instruction, with no failure. -/
def broken : Survey :=
  .ofImage ⟨.flat 0x1000 0 2, [⟨0x1000, #[0x0f, 0xff], true, true⟩]⟩ { maxRecoveries := 0 }

/-- **Neither limit is kept to the letter.**  With two attempts three addresses are taken, and with
no failure allowed one is given up. -/
theorem limits_are_overrun :
    Image.load stairsFile (.flat 0x1000 0 12) = .ok stairs.image ∧ stairs.settings.maxAttempts = 2 ∧
      stairs.takenWithin (fun _ => false) 3 = [0x1000, 0x1005, 0x100b] ∧
      Image.load #[0x0f, 0xff] (.flat 0x1000 0 2) = .ok broken.image ∧
        broken.settings.maxRecoveries = 0 ∧
      broken.stepsIn (fun _ => false) .recovering 2 = 1 := by
  decide +kernel

/-- The first survey makes as many attempts as it may; the address too many is the one that it
refuses. -/
theorem limits_hold_up_to_refusals_stairs :
    (stairs.takenWithin (fun _ => false) 3).length =
        (stairs.triedWithin (fun _ => false) 3).length +
          (stairs.refusedWithin (fun _ => false) 3).length ∧
      stairs.triedWithin (fun _ => false) 3 = [0x1000, 0x100b] ∧
      stairs.refusedWithin (fun _ => false) 3 = [0x1005] ∧
        (stairs.triedWithin (fun _ => false) 3).length ≤ 2 := by
  obtain ⟨hlength, htried, -⟩ := limits_hold_up_to_refusals stairs (fun _ => false) 3
  exact ⟨hlength, by decide +kernel, by decide +kernel, htried (by decide +kernel)⟩

end Survey

end CodeSift
