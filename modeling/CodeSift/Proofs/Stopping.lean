import CodeSift.Proofs.Reachability

/-!
# Surveys that stop

Addresses have 32 bits, and at many places of a survey a number is added to one.  This file says
which of these sums may fail to be an address.

Most of them cannot.  The byte behind a covered byte has an address, and so has the end of a word
that is read, of a table that is counted and of a string that is recognised; `SumsFit` lists these
sums with the conditions under which they are formed, for every map that covers the executable bytes
of an image.

Two can, and there the survey stops (`Stuck`).  The search for tables looks for the next address in
steps, and has none behind the highest; it fails only if executable bytes reach up to that address.
A slot of a jump table is tested before anything is read from it, and the base of the table is what
some instruction says.  So the end of a slot may be no address although the slot itself is covered
(`State.Overruns`), as soon as an executable region ends behind `0xfffffffc`
(`slot_end_is_no_address`).
-/

namespace CodeSift

variable {image : Image} {m : ByteMap} {a limit : Address}

/-! ## Where executable bytes end -/

/-- Every executable region ends at the address or in front of it. -/
def Image.EndsBy (image : Image) (limit : Address) : Prop :=
  ∀ r ∈ image.executableSpans, r.stop ≤ limit

instance (image : Image) (limit : Address) : Decidable (image.EndsBy limit) :=
  List.decidableBAll _ _

lemma Image.EndsBy.mono {limit' : Address} (h : image.EndsBy limit) (hle : limit ≤ limit') :
    image.EndsBy limit' := fun r hr => UInt32.le_trans (h r hr) hle

/-- What is covered lies in front of the end. -/
lemma Image.EndsBy.lt_of_contains (h : image.EndsBy limit)
    (hcoverage : m.coverage = (ByteMap.ofImage image).coverage) (ha : m.contains a = true) :
    a.toNat < limit.toNat := by
  rw [ByteMap.contains_congr hcoverage, ByteMap.contains, ByteMap.coverage_ofImage,
    Coverage.contains_ofSpans] at ha
  obtain ⟨r, hr, hmem⟩ := ha
  have hstop := UInt32.le_iff_toNat_le.mp (h r hr)
  have hin := (Span.mem_iff.mp hmem).2
  omega

lemma Image.EndsBy.leavesRoom (h : image.EndsBy 0xfffffffe)
    (hcoverage : m.coverage = (ByteMap.ofImage image).coverage) : m.LeavesRoom := by
  refine Bool.eq_false_iff.mpr fun hcontains => ?_
  exact absurd (h.lt_of_contains hcoverage hcontains) (by decide)

/-! ## Sums that fit -/

/-- **The sums of a survey that are addresses**, each with the condition under which it is formed.

* `examined`: the byte behind an undecided one, where an instruction is tried out or decoded.
* `slot`: the end of a slot whose word is read, in a jump table or in a table of pointers.
* `table`: the end of a table of pointers with as many slots as are counted.
* `search`: every address at which the search for tables looks next.
* `text`: the end of a string that is recognised somewhere in an undecided run.
* `erased`, `instruction`: the next byte on the way to the end of a span in doubt, or of an
  instruction.
* `run`: the byte behind one that a run is made longer by. -/
structure SumsFit (image : Image) (m : ByteMap) : Prop where
  examined {a : Address} : m.kind a = .unprocessed → a.toNat + 1 < 2 ^ 32
  slot {slot target : Address} : image.word? slot = some target → slot.toNat + 4 < 2 ^ 32
  table (start limit : Address) :
    start.toNat + 4 * PointerTables.length image m start limit < 2 ^ 32
  search (index : ReferenceIndex) : ∃ scan, PointerTables.detect image m index = some scan
  text {a limit : Address} {found : Strings.Match} :
    Strings.match? (Strings.bytesOf image ⟨a, limit⟩) = some found → a.toNat + found.size < 2 ^ 32
  erased {cursor a : Address} : m.doubtReaches cursor a = true → a.toNat + 1 < 2 ^ 32
  instruction {a : Address} : (m.contains a && (m.marks a).body) = true → a.toNat + 1 < 2 ^ 32
  run {a : Address} : m.contains a = true → a.toNat + 1 < 2 ^ 32

lemma PointerTables.add_length_lt (hplaced : image.Placed) (m : ByteMap) (start limit : Address) :
    start.toNat + 4 * length image m start limit < 2 ^ 32 := by
  have hstart := start.toNat_lt
  have hlimit := limit.toNat_lt
  by_cases hpos : 0 < length image m start limit
  · have hends := (toNat_stop_tableSpan hplaced hpos).2
    omega
  · omega

/-- Nothing is added to an address behind which there is none. -/
lemma sumsFit_of_endsBy (hplaced : image.Placed) (hends : image.EndsBy 0xfffffffe)
    (hcoverage : m.coverage = (ByteMap.ofImage image).coverage) : SumsFit image m := by
  have hcovered : ∀ {a : Address}, m.contains a = true → a.toNat + 1 < 2 ^ 32 := by
    intro a ha
    have hlt : a.toNat < 2 ^ 32 - 2 := hends.lt_of_contains hcoverage ha
    omega
  constructor
  case examined => exact fun hkind => hcovered (ByteMap.contains_of_unprocessed hkind)
  case slot =>
    intro slot target hword
    have hfour := Image.four_le_length_window hword
    have hwindow := Image.add_length_window_lt hplaced slot
    omega
  case table => exact PointerTables.add_length_lt hplaced m
  case search => exact PointerTables.exists_detect hplaced (hends.leavesRoom hcoverage).decided
  case text =>
    intro a limit found hfound
    have hbound := limit.toNat_lt
    have hstop := Strings.toNat_stop_span hfound
    omega
  case erased =>
    intro cursor a ha
    simp only [ByteMap.doubtReaches, Bool.and_eq_true] at ha
    exact hcovered ha.1.1.1
  case instruction => exact fun ha => hcovered (Bool.and_eq_true_iff.mp ha).1
  case run => exact hcovered

/-! ## Why a survey stops -/

namespace Survey

variable {v : Survey} {s : State}

/-- **Why a survey has stopped**: at the end of a slot of a jump table, or in the search for
tables. -/
def Stuck (v : Survey) (s : State) : Prop :=
  s.Overruns ∨ v.settings.detectAddressTables = true ∧ v.tables? s = none

lemma phase_attempt (hv : v.Proper) (hs : v.Sound s.map) {purpose : Purpose}
    {confidence : Confidence} {t : State} {failure : Option Failure}
    (hopen : v.isSettled s a = false) (h : v.attempt purpose confidence s a = (t, failure)) :
    t.phase = s.phase ∨ failure = none ∧ t.phase = .stopped ∧ t.Overruns := by
  cases failure with
  | none =>
    obtain ⟨path, c, hswept, -⟩ := swept_attempt hv hs (body_of_isSettled hopen) h
    exact hswept.phase.imp_right fun hstops => ⟨rfl, hstops.2⟩
  | some f =>
    -- an attempt that stops the survey has read an indirect jump, and ends with it
    obtain ⟨-, -, -, path, hswept, hnoJump⟩ :=
      swept_of_attempt_failed hv hs (body_of_isSettled hopen) h
    rcases hswept.phase with hsame | ⟨⟨i, hi, hflow⟩, -⟩
    · exact Or.inl hsame
    · exact absurd hflow (hnoJump i hi)

lemma nextPhase_ne_stopped (h : s.phase ≠ .stopped) : s.nextPhase ≠ .stopped := by
  rw [State.nextPhase, if_neg h]
  split <;> exact nofun

/-- **Discovery stops at slots only.** -/
lemma overruns_of_discover (hv : v.Proper) (hs : v.Sound s.map) (hphase : s.phase = .discovering)
    {cancelled : Bool} {t : State} (ht : v.discover cancelled s = t)
    (hstopped : t.phase = .stopped) :
    t.Overruns := by
  have hgoes : s.phase ≠ .stopped := by
    rw [hphase]
    exact nofun
  unfold discover at ht
  split at ht
  · subst ht
    cases hstopped
  split at ht
  · subst ht
    cases hstopped
  split at ht
  · subst ht
    cases hstopped
  next lead rest hpop =>
  dsimp only at ht
  split at ht
  · subst ht
    exact absurd hstopped (nextPhase_ne_stopped (s := { s with agenda := rest }) hgoes)
  next hsettled =>
  split at ht
  · subst ht
    exact absurd hstopped
      (nextPhase_ne_stopped (s := reject { s with agenda := rest } lead.address) hgoes)
  have hopen : v.isSettled { s with agenda := rest } lead.address = false :=
    Bool.eq_false_iff.mpr hsettled
  rcases hattempt : v.attempt .discovery lead.confidence { s with agenda := rest } lead.address with
    ⟨u, failure⟩
  rw [hattempt] at ht
  cases failure with
  | some f =>
    subst ht
    cases hstopped
  | none =>
    subst ht
    rcases phase_attempt hv (s := { s with agenda := rest }) hs hopen hattempt with
      hsame | ⟨-, -, hover⟩
    · refine absurd hstopped (nextPhase_ne_stopped (s := u) ?_)
      rw [hsame]
      exact hgoes
    · exact hover

/-- Giving up does not stop a survey. -/
lemma recoverFailure_ne_stopped (hphase : s.phase = .recovering) :
    (v.recoverFailure s).phase ≠ .stopped := by
  have hgoes : s.phase ≠ .stopped := by
    rw [hphase]
    exact nofun
  unfold recoverFailure
  split
  · exact nextPhase_ne_stopped hgoes
  · next f _ =>
    dsimp only
    split
    · exact nofun
    · refine nextPhase_ne_stopped (s := v.recover { s with failure := none } f) ?_
      rw [phase_recover]
      exact hgoes

/-- **What one step stops at.** -/
lemma stuck_of_step (hv : v.Proper) (hs : v.Sound s.map) (hstuck : s.phase = .stopped → v.Stuck s)
    {cancelled : Bool} (h : (v.step cancelled s).phase = .stopped) :
    v.Stuck (v.step cancelled s) := by
  cases hphase : s.phase with
  | discovering =>
    have hstep : v.step cancelled s = v.discover cancelled s := by rw [Survey.step, hphase]
    rw [hstep] at h ⊢
    exact Or.inl (overruns_of_discover hv hs hphase rfl h)
  | recovering =>
    rw [Survey.step, hphase] at h
    exact absurd h (recoverFailure_ne_stopped hphase)
  | finalizing =>
    have hstep : v.step cancelled s = v.finalize s := by rw [Survey.step, hphase]
    rw [hstep] at h ⊢
    rcases finalize_cases v s with
      ⟨htables, hnone, -, hfinal⟩ | ⟨scan, -, -, -, hfinal⟩ | ⟨-, -, hfinal⟩
    · rw [hfinal]
      exact Or.inr ⟨htables, hnone⟩
    · rw [hfinal] at h
      cases h
    · rw [hfinal] at h
      cases h
  | done =>
    rw [Survey.step, hphase] at h
    rw [hphase] at h
    cases h
  | stopped =>
    rw [Survey.step, hphase]
    exact hstuck hphase

/-- **Whenever a survey has stopped**, it is at the end of a slot or in the search for tables. -/
lemma Reachable.stuck (hv : v.Proper) (hs : v.Reachable s) (hstopped : s.phase = .stopped) :
    v.Stuck s := by
  induction hs with
  | refl =>
    obtain ⟨map, agenda, hstart⟩ := exists_start_eq v
    rw [hstart] at hstopped
    cases hstopped
  | step cancelled hreach ih =>
    exact stuck_of_step hv (Reachable.consistent hv hreach).sound ih hstopped

lemma Reachable.coverage (hv : v.Proper) (hs : v.Reachable s) :
    s.map.coverage = (ByteMap.ofImage v.image).coverage := (hs.consistent hv).sound.coverage

/-- In front of the highest address the search for tables does not fail. -/
lemma Reachable.overruns (hv : v.Proper) (hends : v.image.EndsBy 0xfffffffe) (hs : v.Reachable s)
    (hstopped : s.phase = .stopped) : s.Overruns := by
  rcases hs.stuck hv hstopped with hover | ⟨-, hnone⟩
  · exact hover
  · obtain ⟨scan, hscan⟩ :=
      PointerTables.exists_detect hv.placed (hends.leavesRoom (hs.coverage hv)).decided s.index
    rw [tables?, hscan] at hnone
    cases hnone

/-- **A survey does not stop** as long as no slot that ends behind the last address is covered. -/
lemma Reachable.ne_stopped (hv : v.Proper) (hends : v.image.EndsBy 0xfffffffc)
    (hs : v.Reachable s) : s.phase ≠ .stopped := by
  intro hstopped
  obtain ⟨-, -, -, -, -, slot, -, hcontains, hover⟩ :=
    hs.overruns hv (hends.mono (by decide)) hstopped
  have hlt : slot.toNat < 2 ^ 32 - 4 := hends.lt_of_contains (hs.coverage hv) hcontains
  omega

/-- **The only sum of a survey that may fail to be an address is the end of a slot** of a jump
table.  Let no executable region end at the highest address.  Then all other sums fit, in every map
that covers the executable bytes, and the maps of a survey do; wherever a survey has stopped, a slot
of a jump table that it knows is covered and has no address at its end; and it never stops if every
executable region ends by `0xfffffffc`. -/
theorem sums_fit_up_to_slot_ends {file : Array UInt8} {layout : Layout}
    (hload : Image.load file layout = .ok v.image) (hdecoder : v.decoder.Faithful)
    (hends : v.image.EndsBy 0xfffffffe) :
    (∀ m : ByteMap, m.coverage = (ByteMap.ofImage v.image).coverage → SumsFit v.image m) ∧
    (∀ s, v.Reachable s → s.map.coverage = (ByteMap.ofImage v.image).coverage ∧
      (s.phase = .stopped → s.Overruns)) ∧
    (v.image.EndsBy 0xfffffffc → ∀ s, v.Reachable s → s.phase ≠ .stopped) := by
  have hv : v.Proper := ⟨Image.placed_of_load hload, hdecoder⟩
  exact ⟨fun m => sumsFit_of_endsBy hv.placed hends,
    fun s hs => ⟨hs.coverage hv, hs.overruns hv hends⟩, fun hshort s hs => hs.ne_stopped hv hshort⟩

/-! ## A jump at the end of the address space

One indirect jump, whose table begins at its own last byte.  The surveys differ in where it lies. -/

/-- A jump through the table at `0xffffff00 + low`. -/
def jumpFile (low : UInt8) : Array UInt8 := #[0xff, 0x24, 0x85, low, 0xff, 0xff, 0xff]

/-- The last byte of the jump is where its table begins. -/
def jumpLayout (low : UInt8) : Layout := .flat (0xfffffefa + low.toUInt32) 0 7

/-- The survey of the jump. -/
def jumpSurvey (low : UInt8) : Survey :=
  .ofImage ⟨jumpLayout low, [⟨0xfffffefa + low.toUInt32, jumpFile low, true, true⟩]⟩ {}

/-- **The end of a slot may be no address.**  The jump ends two addresses in front of the highest
one, the first slot of its table is its last byte, and the survey stops there. -/
theorem slot_end_is_no_address :
    Image.load (jumpFile 0xfc) (jumpLayout 0xfc) = .ok (jumpSurvey 0xfc).image ∧
      (jumpSurvey 0xfc).image.EndsBy 0xfffffffe ∧
      ((jumpSurvey 0xfc).stateAt (fun _ => false) 1).map.contains 0xfffffffc = true ∧
      2 ^ 32 ≤ (0xfffffffc : Address).toNat + 4 ∧
      ((jumpSurvey 0xfc).stateAt (fun _ => false) 1).phase = .stopped := by
  refine ⟨by decide +kernel, by decide +kernel, by decide +kernel, by decide, by decide +kernel⟩

/-- The survey that stops knows the table whose slot it was; one byte further down no survey
stops. -/
theorem sums_fit_up_to_slot_ends_jump :
    ((jumpSurvey 0xfc).stateAt (fun _ => false) 1).Overruns ∧
      ((jumpSurvey 0xfb).stateAt (fun _ => false) 1).phase ≠ .stopped := by
  have hfaithful : ∀ low, (jumpSurvey low).decoder.Faithful := fun low => Decoder.faithful_x86 _ _
  have hupper : Image.load (jumpFile 0xfc) (jumpLayout 0xfc) = .ok (jumpSurvey 0xfc).image := by
    decide +kernel
  have hlower : Image.load (jumpFile 0xfb) (jumpLayout 0xfb) = .ok (jumpSurvey 0xfb).image := by
    decide +kernel
  obtain ⟨-, hstops, -⟩ := sums_fit_up_to_slot_ends hupper (hfaithful 0xfc) (by decide +kernel)
  obtain ⟨-, -, hnever⟩ := sums_fit_up_to_slot_ends hlower (hfaithful 0xfb) (by decide +kernel)
  exact ⟨(hstops _ (reachable_stateAt _ _ 1)).2 (by decide +kernel),
    hnever (by decide +kernel) _ (reachable_stateAt _ _ 1)⟩

end Survey

end CodeSift
