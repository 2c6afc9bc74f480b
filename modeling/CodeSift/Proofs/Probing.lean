import CodeSift.Proofs.Attempts
import CodeSift.Proofs.Reachability

/-!
# Trying out and decoding

Before a guess is followed it is tried out: a few instructions are decoded from it and nothing is
changed.  An attempt from the same address changes the map as it goes, lays down instructions,
labels bytes, and puts addresses on the agenda.  Still the two see the same thing.  Trying an
address out fails exactly if an attempt from it, for whatever purpose and with whatever confidence,
fails before it has decoded as many instructions as are tried (`probe_predicts_attempt`).

What the attempt changes lies behind it.  An instruction takes the bytes up to its end, and
following its references makes data only if it is an indirect jump, which ends the attempt.  So from
the end of the instruction on, both maps have the same code, data and anchors (`agreesFrom_accept`),
and looking at an address only sees what lies from there on (`examine_congr`).

This needs instructions that do not end before they start (`Survey.Forward`).  An attempt that steps
back may run into an instruction that it has laid down itself, and trying out would not
(`stepping_back_is_not_foreseen`).  Whoever decodes from the front of the given bytes never steps
back (`Proper.forward`).
-/

namespace CodeSift

/-- From the address on, both maps have the same bytes for code, for data and for anchors. -/
def ByteMap.AgreesFrom (m m' : ByteMap) (a : Address) : Prop :=
  ∀ b : Address, a.toNat ≤ b.toNat →
    m'.kind b = m.kind b ∧ (m'.marks b).isAnchored = (m.marks b).isAnchored

namespace ByteMap

variable {m m' m'' : ByteMap} {a b : Address}

lemma AgreesFrom.refl (m : ByteMap) (a : Address) : m.AgreesFrom m a := fun _ _ => ⟨rfl, rfl⟩

lemma AgreesFrom.trans (h : m.AgreesFrom m' a) (h' : m'.AgreesFrom m'' b)
    (hab : a.toNat ≤ b.toNat) : m.AgreesFrom m'' b := by
  intro c hc
  obtain ⟨hkind, hanchored⟩ := h c (Nat.le_trans hab hc)
  obtain ⟨hkind', hanchored'⟩ := h' c hc
  exact ⟨hkind'.trans hkind, hanchored'.trans hanchored⟩

end ByteMap

namespace Survey

variable {v : Survey} {s : State} {m m' : ByteMap} {a b : Address} {i : Instruction}
  {purpose : Purpose} {suspicious : Bool}

/-- No instruction ends before it starts. -/
def Forward (v : Survey) : Prop := ∀ a i, v.Reads a i → a.toNat ≤ i.stop.toNat

lemma Proper.forward (hv : v.Proper) : v.Forward :=
  fun _ _ hreads => Nat.le_of_lt (hv.lt_stop hreads)

/-! ## Looking at one address -/

/-- **Looking at an address** sees only what lies from there on. -/
lemma examine_congr (h : m.AgreesFrom m' a) : v.examine m' a = v.examine m a := by
  unfold examine
  rw [(h a (Nat.le_refl _)).1]
  cases hkind : m.kind a with
  | instructionStart => rfl
  | instructionBody => rfl
  | data => rfl
  | unprocessed =>
    have hsucc := Coverage.toNat_succ_of_contains (ByteMap.contains_of_unprocessed hkind)
    have htail : ∀ i, tailConflict m' (tailOf a i) = tailConflict m (tailOf a i) := by
      intro i
      rw [tailConflict, tailConflict, ← List.head?_filterMap, ← List.head?_filterMap]
      refine congrArg List.head? (List.filterMap_congr fun b hb => ?_)
      have hle : (a + 1).toNat ≤ b.toNat := (Span.mem_iff.mp (Span.mem_addresses.mp hb)).1
      obtain ⟨hkindb, hanchored⟩ := h b (by omega)
      unfold ByteMap.kind at hkindb
      dsimp only
      rw [hkindb, hanchored]
    simp only [htail]

/-! ## Accepting an instruction that goes on -/

/-- Following the references of anything but an indirect jump makes no data. -/
lemma follows_of_not_jumpIndirect (hflow : i.flow ≠ .jumpIndirect) :
    v.Follows true i.address s (v.followReferences i suspicious s) := by
  have htable : (i.flow == .jumpIndirect && v.settings.followJumpTables) = false := by
    rw [beq_eq_false_iff_ne.mpr hflow, Bool.false_and]
  have hbranch : v.Follows true i.address s (v.followBranch i suspicious s) :=
    follows_followBranch i suspicious
  have hmemory := hbranch.trans (follows_noteMemory i)
  unfold followReferences
  dsimp only
  rw [htable]
  split
  · exact hmemory.trans (follows_followImmediate i)
  · exact hmemory

lemma follows_accept_of_goes_on (hgoes : i.isTerminator = false) :
    v.Follows true i.address (s.layDown a i suspicious) (v.accept purpose suspicious s a i) := by
  cases purpose with
  | discovery =>
    rw [accept_discovery]
    exact follows_of_not_jumpIndirect (flow_ne_jumpIndirect_of_isTerminator hgoes)
  | decoding => exact .refl v true _ _

lemma Follows.agreesFrom {site : Address} {t : State} (h : v.Follows true site s t) (a : Address) :
    s.map.AgreesFrom t.map a := by
  intro b _
  constructor
  · rw [ByteMap.kind, Marks.kind, h.keeps.start, h.keeps.body, (h.untouched rfl b).1]
    rfl
  · rw [Marks.isAnchored, h.keeps.entry, h.keeps.anchor]
    rfl

/-- Laying an instruction down changes nothing behind it. -/
lemma agreesFrom_layDown (hlt : a.toNat < i.stop.toNat) :
    s.map.AgreesFrom (s.layDown a i suspicious).map i.stop := by
  intro b hb
  have hne : b ≠ a := by
    rintro rfl
    omega
  have hout : b ∉ tailOf a i := by
    intro hmem
    have hinside : b.toNat < i.stop.toNat := (Span.mem_iff.mp hmem).2
    omega
  have hcell : (s.layDown a i suspicious).map.cell b = s.map.cell b := by
    rw [State.layDown, markInstruction, ByteMap.cell_markSpan, if_neg (fun h => hout h.1),
      ByteMap.cell_mark, if_neg (fun h => hne h.1)]
  unfold ByteMap.kind ByteMap.marks
  rw [hcell]
  exact ⟨rfl, rfl⟩

lemma start_layDown (hcontains : s.map.contains a = true) :
    ((s.layDown a i suspicious).map.marks a).start = true := by
  have hfirst : ∀ f : Marks, (s.map.mark a f).marks a = s.map.marks a ||| f := by
    intro f
    rw [ByteMap.marks_mark, if_pos ⟨rfl, hcontains⟩]
  unfold ByteMap.marks at hfirst ⊢
  rw [State.layDown, markInstruction, ByteMap.cell_markSpan]
  split <;> simp [Cell.mark, hfirst]

section GoesOn

variable (hgoes : i.isTerminator = false)
include hgoes

/-- **What an attempt changes lies behind it.** -/
lemma agreesFrom_accept (hlt : a.toNat < i.stop.toNat) :
    s.map.AgreesFrom (v.accept purpose suspicious s a i).map i.stop :=
  (agreesFrom_layDown hlt).trans ((follows_accept_of_goes_on hgoes).agreesFrom i.stop)
    (Nat.le_refl _)

lemma coverage_accept : (v.accept purpose suspicious s a i).map.coverage = s.map.coverage := by
  rw [(follows_accept_of_goes_on hgoes).keeps.coverage, State.layDown, markInstruction]
  simp

lemma decoded_accept :
    (v.accept purpose suspicious s a i).stats.instructionsDecoded =
      s.stats.instructionsDecoded + 1 :=
  (follows_accept_of_goes_on hgoes).decoded

/-- An instruction that is laid down is known. -/
lemma examine_accept_self (hcontains : s.map.contains a = true) :
    v.examine (v.accept purpose suspicious s a i).map a = .ok none := by
  have hstart : ((v.accept purpose suspicious s a i).map.marks a).start = true := by
    rw [(follows_accept_of_goes_on hgoes).keeps.start, start_layDown hcontains]
  rw [examine, ByteMap.kind, Marks.kind, if_pos hstart]

end GoesOn

/-! ## Trying out -/

/-- Trying out an instruction without bytes never gets anywhere, and never fails. -/
lemma probeFrom_of_stop_eq {seed : Address} (h : v.examine m a = .ok (some i)) (hstop : i.stop = a)
    (n : Nat) : v.probeFrom m seed n a = true := by
  induction n with
  | zero => rfl
  | succ n ih =>
    rw [probeFrom, h]
    dsimp only
    rw [hstop, ih, Bool.or_true]

/-- A failed attempt has decoded no fewer instructions than were decoded before. -/
lemma decoded_le_of_attemptFrom {fuel : Nat} {f : Address × Conflict}
    (h : (v.attemptFrom purpose suspicious fuel a s).2 = some f) :
    s.stats.instructionsDecoded ≤
      (v.attemptFrom purpose suspicious fuel a s).1.stats.instructionsDecoded := by
  induction fuel generalizing a s with
  | zero => cases h
  | succ fuel ih =>
    rw [attemptFrom] at h ⊢
    split at h
    · exact Nat.le_refl _
    · cases h
    · next i hsome =>
      dsimp only at h ⊢
      split at h
      · cases h
      · next hgoes =>
        have hrest := ih h
        rw [decoded_accept (Bool.eq_false_iff.mpr hgoes)] at hrest
        rw [if_neg hgoes]
        omega

/-- **Trying out and decoding, from any address on the way.**  The map tried out may lack what the
attempt has changed behind the address, and the fuel of the attempt lasts for the bytes in front of
it. -/
lemma probeFrom_eq_false_iff (hforward : v.Forward) {seed : Address}
    (hseed : m.kind seed = .unprocessed) {n fuel : Nat} (hagrees : m.AgreesFrom s.map a)
    (hfuel : s.map.countFrom a < fuel) :
    v.probeFrom m seed n a = false ↔
      ∃ f, (v.attemptFrom purpose suspicious fuel a s).2 = some f ∧
        (v.attemptFrom purpose suspicious fuel a s).1.stats.instructionsDecoded <
          s.stats.instructionsDecoded + n := by
  induction n generalizing fuel a s with
  | zero =>
    constructor
    · intro h
      cases h
    · rintro ⟨f, hf, hlt⟩
      have hle := decoded_le_of_attemptFrom hf
      omega
  | succ n ih =>
    obtain ⟨fuel, rfl⟩ := Nat.exists_eq_succ_of_ne_zero (Nat.ne_zero_of_lt hfuel)
    have hexamine : v.examine s.map a = v.examine m a := examine_congr hagrees
    rw [probeFrom, attemptFrom, hexamine]
    cases hresult : v.examine m a with
    | error k => simp
    | ok found =>
      cases found with
      | none =>
        -- known code is not the seed, which is undecided
        have hne : a ≠ seed := by
          rintro rfl
          have hstart := start_of_examine_eq_none hresult
          rw [(ByteMap.kind_eq_unprocessed_iff.mp hseed).1] at hstart
          cases hstart
        simp [hne]
      | some i =>
        dsimp only
        cases hgoes : i.isTerminator with
        | true => simp
        | false =>
          obtain ⟨hkind, hreads, -⟩ := examine_eq_some (hexamine.trans hresult)
          have hcontains := ByteMap.contains_of_unprocessed hkind
          rw [Bool.false_or, if_neg Bool.false_ne_true]
          rcases Nat.lt_or_eq_of_le (hforward a i hreads) with hlt | heq
          · have hcount := ByteMap.countFrom_lt hcontains hlt
            have hahead : m.AgreesFrom (v.accept purpose suspicious s a i).map i.stop :=
              hagrees.trans (agreesFrom_accept hgoes hlt) (Nat.le_of_lt hlt)
            have hlasts : (v.accept purpose suspicious s a i).map.countFrom i.stop < fuel := by
              rw [ByteMap.countFrom_congr (coverage_accept hgoes)]
              omega
            have hrest := ih hahead hlasts
            rw [decoded_accept hgoes, Nat.add_assoc, Nat.add_comm 1 n] at hrest
            exact hrest
          · -- an instruction without bytes is known once it is laid down, and that ends the attempt
            have hstop : i.stop = a := (UInt32.toNat_inj.mp heq).symm
            have hpos := ByteMap.countFrom_pos hcontains
            obtain ⟨fuel, rfl⟩ := Nat.exists_eq_succ_of_ne_zero (show fuel ≠ 0 by omega)
            rw [hstop, probeFrom_of_stop_eq hresult hstop, attemptFrom,
              examine_accept_self hgoes hcontains]
            simp

/-- **Trying an address out predicts the attempt.**  From an undecided address of any state, trying
out fails exactly if an attempt fails and has decoded fewer instructions than are tried. -/
theorem probe_predicts_attempt (v : Survey) (hforward : v.Forward) (purpose : Purpose)
    (confidence : Confidence) (s : State) {a : Address} (hopen : s.map.kind a = .unprocessed) :
    v.probe s.map a = false ↔
      ∃ f, (v.attempt purpose confidence s a).2 = some f ∧
        (v.attempt purpose confidence s a).1.stats.instructionsDecoded <
          s.stats.instructionsDecoded + probeLength := by
  have hlasts : s.countAttempt.map.countFrom a < s.map.size + 1 :=
    Nat.lt_succ_of_le (s.map.countFrom_le a)
  have hattempt : v.attempt purpose confidence s a =
      ((v.attemptFrom purpose confidence.isSpeculative (s.map.size + 1) a s.countAttempt).1,
        (v.attemptFrom purpose confidence.isSpeculative (s.map.size + 1) a s.countAttempt).2.map
          fun p => ⟨a, p.1, p.2⟩) := rfl
  have hfrom := @probeFrom_eq_false_iff v s.countAttempt s.map a purpose confidence.isSpeculative
    hforward a hopen probeLength _ (.refl s.map a) hlasts
  rw [probe, hfrom, hattempt]
  constructor
  · rintro ⟨f, hf, hlt⟩
    exact ⟨⟨a, f.1, f.2⟩, Option.map_eq_some_iff.mpr ⟨f, hf, rfl⟩, hlt⟩
  · rintro ⟨f, hf, hlt⟩
    obtain ⟨p, hp, -⟩ := Option.map_eq_some_iff.mp hf
    exact ⟨p, hp, hlt⟩

/-! ## A slide

Four instructions of one byte each in front of bytes that are too few for one: from the first of
them the tried instructions decode, from the second they do not. -/

/-- Four instructions that do nothing, and half an instruction. -/
def slideFile : Array UInt8 := #[0x90, 0x90, 0x90, 0x90, 0x0f, 0xff]

/-- The survey of the slide. -/
def slide : Survey := .ofImage ⟨.flat 0x1000 0 6, [⟨0x1000, slideFile, true, true⟩]⟩ {}

/-- Attempts from the first two instructions both fail, and only the one from the second is
foreseen. -/
theorem probe_predicts_attempt_slide :
    slide.start.map.kind 0x1000 = .unprocessed ∧ slide.start.map.kind 0x1001 = .unprocessed ∧
      (slide.attempt .discovery .entry slide.start 0x1000).2 =
        some ⟨0x1000, 0x1004, .decodeFailure .endOfRegion⟩ ∧
      slide.probe slide.start.map 0x1000 = true ∧
      4 ≤ (slide.attempt .discovery .entry slide.start 0x1000).1.stats.instructionsDecoded ∧
      slide.probe slide.start.map 0x1001 = false ∧
      ∃ f, (slide.attempt .decoding .guess slide.start 0x1001).2 = some f ∧
        (slide.attempt .decoding .guess slide.start 0x1001).1.stats.instructionsDecoded < 4 := by
  have hload : Image.load slideFile (.flat 0x1000 0 6) = .ok slide.image := by decide +kernel
  have hforward : slide.Forward :=
    Proper.forward ⟨Image.placed_of_load hload, Decoder.faithful_x86 _ _⟩
  have hfirst : slide.start.map.kind 0x1000 = .unprocessed := by decide +kernel
  have hsecond : slide.start.map.kind 0x1001 = .unprocessed := by decide +kernel
  have htried : slide.probe slide.start.map 0x1000 = true := by decide +kernel
  have hrefused : slide.probe slide.start.map 0x1001 = false := by decide +kernel
  have hfailed : (slide.attempt .discovery .entry slide.start 0x1000).2 =
      some ⟨0x1000, 0x1004, .decodeFailure .endOfRegion⟩ := by decide +kernel
  have hnone : slide.start.stats.instructionsDecoded = 0 := by decide +kernel
  have hprobe := probe_predicts_attempt slide hforward .discovery .entry slide.start hfirst
  have hprobe' := probe_predicts_attempt slide hforward .decoding .guess slide.start hsecond
  rw [hnone, Nat.zero_add] at hprobe hprobe'
  refine ⟨hfirst, hsecond, hfailed, htried, ?_, hrefused, hprobe'.mp hrefused⟩
  by_contra hlt
  rw [hprobe.mpr ⟨_, hfailed, Nat.not_le.mp hlt⟩] at htried
  cases htried

/-- The same bytes with a decoder that steps back: at one address it reads an instruction that ends
two bytes before, and from there one over four bytes. -/
def steppingBack : Survey where
  image := slide.image
  decoder _ a := .ok
    { (default : Instruction) with
      address := if a = 0x1002 then 0x1000 else a
      length := if a = 0x1002 then 0 else if a = 0x1000 then 4 else 1 }
  settings := {}

/-- **Not every decoder lets attempts be foreseen.**  Where the decoder steps back, the attempt runs
into its own first instruction, which trying out does not see: the address is undecided in the first
state and stands up to being tried out, and the attempt from it fails behind one instruction. -/
theorem stepping_back_is_not_foreseen :
    steppingBack.Reachable steppingBack.start ∧ steppingBack.start.map.kind 0x1002 = .unprocessed ∧
      (steppingBack.attempt .discovery .guess steppingBack.start 0x1002).2 =
        some ⟨0x1002, 0x1000, .overlap⟩ ∧
      ¬(steppingBack.probe steppingBack.start.map 0x1002 = false ↔
        ∃ f, (steppingBack.attempt .discovery .guess steppingBack.start 0x1002).2 = some f ∧
          (steppingBack.attempt .discovery .guess steppingBack.start
              0x1002).1.stats.instructionsDecoded <
            steppingBack.start.stats.instructionsDecoded + probeLength) := by
  have hopen : steppingBack.start.map.kind 0x1002 = .unprocessed := by decide +kernel
  have htried : steppingBack.probe steppingBack.start.map 0x1002 = true := by decide +kernel
  have hfailed : (steppingBack.attempt .discovery .guess steppingBack.start 0x1002).2 =
      some ⟨0x1002, 0x1000, .overlap⟩ := by
    decide +kernel
  have hsoon :
      (steppingBack.attempt .discovery .guess steppingBack.start 0x1002).1.stats.instructionsDecoded
        < steppingBack.start.stats.instructionsDecoded + probeLength := by
    decide +kernel
  refine ⟨.refl, hopen, hfailed, fun hforeseen => ?_⟩
  rw [hforeseen.mpr ⟨_, hfailed, hsoon⟩] at htried
  cases htried

end Survey

end CodeSift
