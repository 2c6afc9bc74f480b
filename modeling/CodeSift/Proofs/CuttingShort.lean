import CodeSift.Proofs.Agreement
import CodeSift.Proofs.Confirmed
import CodeSift.Proofs.Termination

/-!
# Cutting a survey short only loses confirmed code

Two surveys of one image that differ in where discovery stops go the same way until the first of
them stops (`stateAt_limited`).  What they do afterwards differs: the longer one goes on decoding,
failing and giving up, and each of them searches for data what it finds undecided.

None of this matters for the code that is confirmed at the point where they part.  In the shorter
survey no lead waits any more, so that confirmed code is settled there.  In the longer one more may
be confirmed, but what is confirmed stays: giving up clears bytes that were undecided before the
attempt, and a review turns suspicious instructions into data only (`maintained_isConfirmed`).
-/

namespace CodeSift

namespace Survey

variable {v : Survey} {s t : State} {a b : Address} {i : Instruction} {suspicious : Bool}

/-! ## Confirmed code stays -/

lemma isConfirmed_congr {f g : Marks} (hstart : f.start = g.start)
    (hsuspicious : f.suspicious = g.suspicious) : f.isConfirmed = g.isConfirmed := by
  unfold Marks.isConfirmed
  rw [hstart, hsuspicious]

lemma isConfirmed_refer (v : Survey) (confidence : Confidence) (s : State) (r : CrossReference)
    (a : Address) :
    ((v.refer confidence s r).map.marks a).isConfirmed = (s.map.marks a).isConfirmed := by
  unfold refer
  split
  · dsimp only
    split
    · rfl
    · rw [ByteMap.marks_mark]
      split
      · exact isConfirmed_congr (Bool.or_false _) (Bool.or_false _)
      · rfl
  · rfl

/-- Noting what an instruction names confirms nothing, and unsettles nothing. -/
lemma Noted.isConfirmed_eq (h : v.Noted i suspicious s t) (a : Address) :
    (t.map.marks a).isConfirmed = (s.map.marks a).isConfirmed := by
  cases h with
  | code => exact isConfirmed_refer v _ s _ a
  | place => rfl
  | slot _ _ _ _ _ hslot =>
    obtain ⟨target, -, -, -, rfl⟩ := readSlot_eq_some hslot
    obtain ⟨-, hstart, -, hsuspicious⟩ := sameLabels_markData s.map _ _ a
    exact (isConfirmed_refer v _ _ _ a).trans (isConfirmed_congr hstart hsuspicious)
  | halted => rfl
  | counted => rfl

lemma grown_isConfirmed (hv : v.Proper) (suspicious : Bool) (a : Address) :
    v.Grown suspicious fun s => (s.map.marks a).isConfirmed = true where
  counted _ h := h
  laid {s b i} _ hexamine h := by
    have hstart := (Bool.and_eq_true _ _ ▸ h).1
    have hne : a ≠ b := by
      rintro rfl
      obtain ⟨hfresh, -, -⟩ := ByteMap.kind_eq_unprocessed_iff.mp (examine_eq_some hexamine).1
      rw [hfresh] at hstart
      cases hstart
    rw [← h]
    refine isConfirmed_congr ?_ ?_
    · rw [start_markInstruction hexamine hv, decide_eq_false hne, Bool.or_false]
    · rw [suspicious_markInstruction hexamine hv, decide_eq_false hne,
        Bool.false_and, Bool.or_false]
  noted _ _ hnoted h := (hnoted.isConfirmed_eq a).trans h

lemma Attempted.isConfirmed {purpose : Purpose} {lead : Lead} {failure : Option Failure}
    (hv : v.Proper) (hmade : v.Attempted s purpose lead t failure)
    (h : (s.map.marks a).isConfirmed = true) : (t.map.marks a).isConfirmed = true := by
  refine hmade.grown (P := fun s => (s.map.marks a).isConfirmed = true) hv
    (grown_isConfirmed hv _ a) ?_
  intro s₁ hmap _ _
  rw [hmap, h]

/-- **What is confirmed stays confirmed.** -/
lemma maintained_isConfirmed (hv : v.Proper) (a : Address) :
    v.Maintained fun s => (s.map.marks a).isConfirmed = true where
  frame h hmap _ _ := by
    rw [hmap]
    exact h
  attempt hmade h := hmade.isConfirmed hv h
  recover {s t purpose lead f} hmade h := by
    -- an instruction stood there before the attempt, so the byte is not in doubt
    have hout : a ∉ t.doubt f := by
      intro hmem
      obtain ⟨hfresh, -, -⟩ := ByteMap.kind_eq_unprocessed_iff.mp ((hmade.doubt hv).2.2 a hmem)
      rw [Marks.isConfirmed, hfresh] at h
      cases h
    have hsame := Cell.congr_of_unlabelled (fun c => c.marks.isConfirmed)
      (fun c => isConfirmed_congr c.start_unlabelled c.suspicious_unlabelled)
      (unlabelled_recover_of_not_mem v hout)
    exact hsame.trans (hmade.isConfirmed hv h)
  tables _ hscan h :=
    ((undisturbed_of_guesses hv (fills_noteTables hv hscan).guesses).confirmed a).trans h
  strings {s} _ h :=
    ((undisturbed_of_guesses hv (fills_finalizeStrings v s).guesses).confirmed a).trans h
  code {s} hsound _ h := by
    rw [(map_finalizeCode v s).1]
    exact ((undisturbed_review hv hsound s.index).confirmed a).trans h
  rest {s} _ h := ((undisturbed_of_guesses hv (fills_finalizeRest s).guesses).confirmed a).trans h

/-! ## Surveys with other limits -/

variable {attempts recoveries : UInt64}

/-- The survey with other limits on attempts and on failures. -/
def limited (v : Survey) (attempts recoveries : UInt64) : Survey :=
  { v with settings := { v.settings with maxAttempts := attempts, maxRecoveries := recoveries } }

lemma agrees_limited (v : Survey) (attempts recoveries : UInt64) :
    v.Agrees (v.limited attempts recoveries) :=
  ⟨rfl, fun _ => Iff.rfl, rfl, rfl⟩

/-! ## Where two surveys part -/

/-- In the second state discovery is over, and nothing else has happened since the first. -/
structure StopsAt (s t : State) : Prop where
  map : t.map = s.map
  phase : t.phase = .finalizing
  agenda : t.agenda = .empty

lemma stopsAt_discover {cancelled : Bool} (h : v.isOver cancelled s = true) :
    StopsAt s (v.discover cancelled s) := by
  unfold discover
  split
  · exact ⟨rfl, rfl, rfl⟩
  · next hcancelled =>
    have hlimit : (v.settings.maxAttempts != 0 && v.settings.maxAttempts.toNat ≤ s.stats.attempts) =
        true := by
      rw [isOver, Bool.or_eq_true] at h
      exact h.resolve_left hcancelled
    rw [if_pos hlimit]
    exact ⟨rfl, rfl, rfl⟩

/-- What discovery does while it goes on depends neither on limits nor on being cancelled. -/
lemma discover_limited {cancelled cancelled' : Bool} (h : v.isOver cancelled s = false)
    (h' : (v.limited attempts recoveries).isOver cancelled' s = false) :
    (v.limited attempts recoveries).discover cancelled' s = v.discover cancelled s := by
  rw [isOver, Bool.or_eq_false_iff] at h h'
  obtain ⟨rfl, hlimit⟩ := h
  obtain ⟨rfl, hlimit'⟩ := h'
  have hagrees := agrees_limited v attempts recoveries
  unfold discover
  simp only [hlimit, hlimit', Bool.false_eq_true, if_false, hagrees.isSettled, hagrees.probe,
    hagrees.attempt]

/-- A survey is over before one with looser limits is. -/
lemma isOver_limited {cancelled cancelled' : Bool}
    (hattempts : v.settings.maxAttempts = 0 ∨ attempts ≠ 0 ∧ attempts ≤ v.settings.maxAttempts)
    (hcancelled : cancelled = true → cancelled' = true) (h : v.isOver cancelled s = true) :
    (v.limited attempts recoveries).isOver cancelled' s = true := by
  rw [isOver, Bool.or_eq_true, Bool.and_eq_true, bne_iff_ne, decide_eq_true_eq] at h ⊢
  rcases h with h | ⟨hlimit, hle⟩
  · exact Or.inl (hcancelled h)
  · obtain ⟨hnonzero, hsmaller⟩ := hattempts.resolve_left hlimit
    rw [UInt64.le_iff_toNat_le] at hsmaller
    exact Or.inr ⟨hnonzero, Nat.le_trans hsmaller hle⟩

/-- Giving up, with either limit, leads to the same state, or the stricter limit ends discovery
there. -/
lemma recoverFailure_limited (hrecoveries : recoveries ≤ v.settings.maxRecoveries) (s : State) :
    (v.limited attempts recoveries).recoverFailure s = v.recoverFailure s ∨
      StopsAt (v.recoverFailure s) ((v.limited attempts recoveries).recoverFailure s) ∧
        (v.recoverFailure s).Proceeds := by
  have hrecover := (agrees_limited v attempts recoveries).recover
  have hlimit : (v.limited attempts recoveries).settings.maxRecoveries = recoveries := rfl
  rw [UInt64.le_iff_toNat_le] at hrecoveries
  unfold recoverFailure
  split
  · exact Or.inl rfl
  · next f _ =>
    dsimp only
    rw [hrecover, hlimit]
    generalize v.recover { s with failure := none } f = u
    by_cases hshort : recoveries.toNat ≤ u.stats.recoveries
    · rw [if_pos hshort]
      split
      · exact Or.inl rfl
      · exact Or.inr ⟨⟨rfl, rfl, rfl⟩, proceeds_nextPhase u⟩
    · rw [if_neg hshort, if_neg fun hle => hshort (Nat.le_trans hrecoveries hle)]
      exact Or.inl rfl

section Parting

variable {earlier cancelled : Nat → Bool}
  (hattempts : v.settings.maxAttempts = 0 ∨ attempts ≠ 0 ∧ attempts ≤ v.settings.maxAttempts)
  (hrecoveries : recoveries ≤ v.settings.maxRecoveries)
  (hcancelled : ∀ n, cancelled n = true → earlier n = true)
include hattempts hrecoveries hcancelled

/-- **One step from a common state** is the same step, or the shorter survey stops where the longer
one is or arrives. -/
lemma step_limited (n : Nat) :
    (v.limited attempts recoveries).step (earlier n) (v.stateAt cancelled n) =
      v.stateAt cancelled (n + 1) ∨
      ∃ k, n ≤ k ∧ k ≤ n + 1 ∧ (v.stateAt cancelled k).phase ≠ .recovering ∧
        StopsAt (v.stateAt cancelled k)
          ((v.limited attempts recoveries).step (earlier n) (v.stateAt cancelled n)) := by
  have hnext : v.stateAt cancelled (n + 1) = v.step (cancelled n) (v.stateAt cancelled n) := rfl
  generalize hs : v.stateAt cancelled n = s at hnext
  unfold step at hnext ⊢
  cases hphase : s.phase with
  | discovering =>
    rw [hphase] at hnext
    dsimp only at hnext ⊢
    by_cases hshort : (v.limited attempts recoveries).isOver (earlier n) s = true
    · refine Or.inr ⟨n, Nat.le_refl n, Nat.le_succ n, ?_, ?_⟩
      · rw [hs, hphase]
        exact nofun
      · rw [hs]
        exact stopsAt_discover hshort
    · have hlong : v.isOver (cancelled n) s = false :=
        Bool.eq_false_iff.mpr fun hlong => hshort (isOver_limited hattempts (hcancelled n) hlong)
      rw [hnext]
      exact Or.inl (discover_limited hlong (Bool.eq_false_iff.mpr hshort))
  | recovering =>
    rw [hphase] at hnext
    dsimp only at hnext ⊢
    rw [hnext]
    rcases recoverFailure_limited hrecoveries s with hsame | ⟨hstops, hproceeds⟩
    · exact Or.inl hsame
    · refine Or.inr ⟨n + 1, Nat.le_succ n, Nat.le_refl _, ?_, ?_⟩
      · rw [hnext]
        exact hproceeds.ne_recovering
      · rw [hnext]
        exact hstops
  | finalizing =>
    rw [hphase] at hnext
    rw [hnext]
    exact Or.inl ((agrees_limited v attempts recoveries).finalize s)
  | done =>
    rw [hphase] at hnext
    rw [hnext]
    exact Or.inl rfl
  | stopped =>
    rw [hphase] at hnext
    rw [hnext]
    exact Or.inl rfl

/-- **Two surveys go the same way until the shorter one stops.** -/
lemma stateAt_limited (n : Nat) :
    (v.limited attempts recoveries).stateAt earlier n = v.stateAt cancelled n ∨
      ∃ j k, j ≤ n ∧ k ≤ n ∧ (v.stateAt cancelled k).phase ≠ .recovering ∧
        StopsAt (v.stateAt cancelled k) ((v.limited attempts recoveries).stateAt earlier j) := by
  induction n with
  | zero => exact Or.inl rfl
  | succ n ih =>
    rcases ih with hsame | ⟨j, k, hj, hk, hparted⟩
    · have hstep := step_limited hattempts hrecoveries hcancelled n
      rw [← hsame] at hstep
      rcases hstep with hnext | ⟨k, -, hk, hparted⟩
      · exact Or.inl hnext
      · exact Or.inr ⟨n + 1, k, Nat.le_refl _, hk, hparted⟩
    · exact Or.inr ⟨j, k, Nat.le_succ_of_le hj, Nat.le_succ_of_le hk, hparted⟩

/-- **What is confirmed at the end of the shorter survey is confirmed at the end of the longer
one.** -/
lemma isConfirmed_run_limited (hv : v.Proper) {a : Address}
    (ha : (((v.limited attempts recoveries).run earlier).map.marks a).isConfirmed = true) :
    ((v.run cancelled).map.marks a).isConfirmed = true := by
  have hv' : (v.limited attempts recoveries).Proper := ⟨hv.placed, hv.faithful⟩
  have hstart : (v.limited attempts recoveries).start = v.start := rfl
  rw [run_eq_stateAt, hstart] at ha
  rw [run_eq_stateAt]
  generalize stepBound v.start.map.size = n at ha
  rcases stateAt_limited hattempts hrecoveries hcancelled n with
    hsame | ⟨j, k, hj, hk, hphase, hstops⟩
  · rw [← hsame]
    exact ha
  · obtain ⟨later, rfl⟩ := Nat.exists_eq_add_of_le hj
    -- in the shorter survey nothing waits, so its confirmed code is what it was where they part
    have hagenda : ((v.limited attempts recoveries).stateAt earlier j).agenda.Speculative := by
      rw [hstops.agenda]
      exact Agenda.speculative_empty
    have hsettled :=
      (reachable_stateAt _ earlier j).settled hv' (by rw [hstops.phase]; exact nofun) hagenda
      (reaches_stateAt _ earlier j later)
    rw [hsettled.undisturbed.confirmed, hstops.map] at ha
    obtain ⟨rest, hrest⟩ := Nat.exists_eq_add_of_le hk
    have hreaches := reaches_stateAt v cancelled k rest
    rw [← hrest] at hreaches
    exact (maintained_isConfirmed hv a).reaches hv ((reachable_stateAt v cancelled k).consistent hv)
      hphase ha hreaches

end Parting

/-- **Cutting a survey short only loses confirmed code.**  Take two surveys of one image that differ
only in where discovery ends: the one has stricter limits, or is cancelled earlier, or both.  Both
come to their ends, and stop only over regions that reach up to the last addresses.  Every
instruction that is confirmed when the first has ended is confirmed when the other has ended, and it
is the same instruction, of the same length. -/
theorem cutting_short_loses_only {file : Array UInt8} {layout : Layout}
    (hload : Image.load file layout = .ok v.image) (hdecoder : v.decoder.Faithful)
    {earlier cancelled : Nat → Bool}
    (hattempts : v.settings.maxAttempts = 0 ∨ attempts ≠ 0 ∧ attempts ≤ v.settings.maxAttempts)
    (hrecoveries : recoveries ≤ v.settings.maxRecoveries)
    (hcancelled : ∀ n, cancelled n = true → earlier n = true) :
    (((v.limited attempts recoveries).run earlier).phase = .done ∨
      ((v.limited attempts recoveries).run earlier).phase = .stopped ∧ ¬v.image.EndsBy 0xfffffffc) ∧
    ((v.run cancelled).phase = .done ∨
      (v.run cancelled).phase = .stopped ∧ ¬v.image.EndsBy 0xfffffffc) ∧
    ∀ a ∈ ((v.limited attempts recoveries).run earlier).map.confirmedStarts,
      a ∈ (v.run cancelled).map.confirmedStarts ∧
      ∃ i, v.Stands ((v.limited attempts recoveries).run earlier).map a i ∧
        v.Stands (v.run cancelled).map a i := by
  have hv : v.Proper := ⟨Image.placed_of_load hload, hdecoder⟩
  have hv' : (v.limited attempts recoveries).Proper := ⟨hv.placed, hv.faithful⟩
  obtain ⟨hends', hreachable'⟩ := run_ends hv' earlier
  obtain ⟨hends, hreachable⟩ := run_ends hv cancelled
  refine ⟨hends', hends, fun a ha => ?_⟩
  obtain ⟨hstart, hconfirmed⟩ := List.mem_filter.mp ha
  have hlater := isConfirmed_run_limited hattempts hrecoveries hcancelled hv hconfirmed
  obtain ⟨i, hi⟩ := (hreachable'.consistent hv').sound.tiled.starts (ByteMap.mem_starts.mp hstart)
  refine ⟨?_, i, ⟨hi.reads, hi.start, hi.body, hi.ends⟩, ?_⟩
  · exact List.mem_filter.mpr ⟨ByteMap.mem_starts.mpr (Bool.and_eq_true _ _ ▸ hlater).1, hlater⟩
  · exact stands_of_isConfirmed (hreachable.consistent hv).sound hi.reads hlater

/-- The small survey with guesses, cut short after one attempt, has found the jump at its entry and
not what it leads to; the whole survey has found both. -/
theorem cutting_short_loses_only_guessing :
    0x1000 ∈ ((guessing.limited 1 0).run fun _ => false).map.confirmedStarts ∧
      0x1010 ∉ ((guessing.limited 1 0).run fun _ => false).map.confirmedStarts ∧
      0x1010 ∈ (guessing.run fun _ => false).map.confirmedStarts ∧
      0x1000 ∈ (guessing.run fun _ => false).map.confirmedStarts := by
  have hload : Image.load guessFile guessImage.layout = .ok guessing.image := by decide +kernel
  have hentry : (0x1000 : Address) ∈
      ((guessing.limited 1 0).run fun _ => false).map.confirmedStarts := by
    decide +kernel
  have hlost : (0x1010 : Address) ∉
      ((guessing.limited 1 0).run fun _ => false).map.confirmedStarts := by
    decide +kernel
  have hfound : (0x1010 : Address) ∈ (guessing.run fun _ => false).map.confirmedStarts := by
    decide +kernel
  exact ⟨hentry, hlost, hfound,
    ((cutting_short_loses_only hload (Decoder.faithful_x86 .bits32 guessImage.span)
    (Or.inl rfl) (by decide) fun _ => id).2.2 0x1000 hentry).1⟩

end Survey

end CodeSift
