import CodeSift.Proofs.Agenda
import CodeSift.Proofs.CrossReferences
import CodeSift.Proofs.Tiling

/-!
# What following references can do

Following the references of one instruction labels bytes, makes data of the tables behind indirect
jumps, adds relations to the index, and puts addresses on the agenda.  `Survey.Follows` bounds all
this once, for one reference as for all of them together: no code changes, no relation is lost, the
new relations are made at the instruction or at data, and the addresses that come to wait were open
before, that is, not settled.  When the instruction is no indirect jump, no byte becomes data
either, and the survey goes on: it stops only at a covered slot of a jump table that has no address
at its end (`State.Overruns`).

An address stays settled as long as code, data and failed seeds stay (`isSettled_mono`), which is
why the bound composes (`Follows.trans`).
-/

namespace CodeSift

namespace Survey

variable {v : Survey} {s t u : State} {a site : Address} {i : Instruction} {quiet : Bool}

/-! ## Settled addresses -/

lemma isSettled_iff :
    v.isSettled s a = true ↔ (s.map.marks a).isCode = true ∨ a ∈ s.failedSeeds ∨
      v.image.isExecutable a = false ∨ s.map.contains a = false ∨ (s.map.marks a).data = true := by
  unfold isSettled State.hasFailed ByteMap.admitsCode Marks.isCode
  cases (s.map.marks a).start <;> cases (s.map.marks a).body <;> cases (s.map.marks a).data <;>
    cases v.image.isExecutable a <;> cases s.map.contains a <;> simp

lemma isSettled_eq_false_iff :
    v.isSettled s a = false ↔ (s.map.marks a).isCode = false ∧ a ∉ s.failedSeeds ∧
      v.image.isExecutable a = true ∧ s.map.contains a = true ∧ (s.map.marks a).data = false := by
  rw [← Bool.not_eq_true, isSettled_iff]
  simp only [not_or, Bool.not_eq_true, Bool.not_eq_false]

/-- **What is settled stays settled** as long as its code, its data and its failure stay. -/
lemma isSettled_mono (hcoverage : t.map.coverage = s.map.coverage)
    (hcode : (s.map.marks a).isCode = true → (t.map.marks a).isCode = true)
    (hdata : (s.map.marks a).data = true → (t.map.marks a).data = true)
    (hfailed : a ∈ s.failedSeeds → a ∈ t.failedSeeds) (h : v.isSettled s a = true) :
    v.isSettled t a = true := by
  rw [isSettled_iff] at h ⊢
  rw [ByteMap.contains_congr hcoverage]
  rcases h with h | h | h | h | h
  · exact Or.inl (hcode h)
  · exact Or.inr (Or.inl (hfailed h))
  · exact Or.inr (Or.inr (Or.inl h))
  · exact Or.inr (Or.inr (Or.inr (Or.inl h)))
  · exact Or.inr (Or.inr (Or.inr (Or.inr (hdata h))))

/-! ## The bound -/

/-- A slot of a known jump table is covered, and there is no address at its end. -/
def State.Overruns (s : State) : Prop :=
  ∃ r ∈ s.index, r.cls = .jumpTable ∧ ∃ i < maxJumpTableSlots, ∃ slot : Address,
    slot.toNat = r.target.toNat + 4 * i ∧ s.map.contains slot = true ∧ 2 ^ 32 ≤ slot.toNat + 4

lemma State.Overruns.mono (h : s.Overruns) (hcoverage : t.map.coverage = s.map.coverage)
    (hrelations : ∀ r ∈ s.index, r ∈ t.index) : t.Overruns := by
  obtain ⟨r, hr, hcls, i, hi, slot, hplace, hcontains, hover⟩ := h
  rw [← ByteMap.contains_congr hcoverage] at hcontains
  exact ⟨r, hrelations r hr, hcls, i, hi, slot, hplace, hcontains, hover⟩

/-- What following the references of an instruction at `site` may do to a state; it is `quiet` when
no byte becomes data. -/
structure Follows (v : Survey) (quiet : Bool) (site : Address) (s t : State) : Prop where
  keeps : s.map.Keeps t.map
  untouched : quiet = true → ∀ a, (t.map.marks a).data = (s.map.marks a).data ∧
    t.map.dataClass a = s.map.dataClass a
  relations {r : CrossReference} : r ∈ s.index → r ∈ t.index
  paired : s.index.Paired → t.index.Paired
  sites {r : CrossReference} : r ∈ t.index → r.isForward = true →
    r ∈ s.index ∨ r.site = site ∨ quiet = false ∧ (t.map.marks r.site).data = true
  waits {a : Address} : t.agenda.contains a = true →
    s.agenda.contains a = true ∨ v.isSettled s a = false
  failedSeeds : t.failedSeeds = s.failedSeeds
  history : t.history = s.history
  attempts : t.stats.attempts = s.stats.attempts
  decoded : t.stats.instructionsDecoded = s.stats.instructionsDecoded
  phase : t.phase = s.phase ∨ quiet = false ∧ t.phase = .stopped ∧ t.Overruns

namespace Follows

lemma refl (v : Survey) (quiet : Bool) (site : Address) (s : State) : v.Follows quiet site s s where
  keeps := .refl s.map
  untouched _ _ := ⟨rfl, rfl⟩
  relations := id
  paired := id
  sites hr _ := Or.inl hr
  waits := Or.inl
  failedSeeds := rfl
  history := rfl
  attempts := rfl
  decoded := rfl
  phase := Or.inl rfl

lemma isSettled (h : v.Follows quiet site s t) (hs : v.isSettled s a = true) :
    v.isSettled t a = true :=
  isSettled_mono h.keeps.coverage (by rw [h.keeps.isCode]; exact id) h.keeps.data
    (by rw [h.failedSeeds]; exact id) hs

lemma trans (h : v.Follows quiet site s t) (h' : v.Follows quiet site t u) :
    v.Follows quiet site s u where
  keeps := h.keeps.trans h'.keeps
  untouched hquiet a := by
    obtain ⟨hdata, hclass⟩ := h.untouched hquiet a
    obtain ⟨hdata', hclass'⟩ := h'.untouched hquiet a
    exact ⟨hdata'.trans hdata, hclass'.trans hclass⟩
  relations hr := h'.relations (h.relations hr)
  paired hs := h'.paired (h.paired hs)
  sites hr hforward := by
    rcases h'.sites hr hforward with hold | hnew
    · rcases h.sites hold hforward with hold | hsite | ⟨hquiet, hdata⟩
      · exact Or.inl hold
      · exact Or.inr (Or.inl hsite)
      · exact Or.inr (Or.inr ⟨hquiet, h'.keeps.data hdata⟩)
    · exact Or.inr hnew
  waits {a} ha := by
    rcases h'.waits ha with hold | hopen
    · exact h.waits hold
    · refine Or.inr (Bool.eq_false_iff.mpr fun hsettled => ?_)
      rw [h.isSettled hsettled] at hopen
      cases hopen
  failedSeeds := h'.failedSeeds.trans h.failedSeeds
  history := h'.history.trans h.history
  attempts := h'.attempts.trans h.attempts
  decoded := h'.decoded.trans h.decoded
  phase := by
    rcases h'.phase with hsame' | hstops'
    · rcases h.phase with hsame | ⟨hquiet, hstopped, hover⟩
      · exact Or.inl (hsame'.trans hsame)
      · exact Or.inr ⟨hquiet, hsame'.trans hstopped, hover.mono h'.keeps.coverage
          fun _ => h'.relations⟩
    · exact Or.inr hstops'

end Follows

/-! ## One reference -/

/-- A relation is added to the index. -/
lemma follows_insert {r : CrossReference} (hsite : r.site = site)
    (hpartner : r.partner.isForward = false) :
    v.Follows quiet site s { s with index := s.index.insert r } where
  keeps := .refl s.map
  untouched _ _ := ⟨rfl, rfl⟩
  relations hr := ReferenceIndex.mem_insert.mpr (Or.inr (Or.inr hr))
  paired hs := hs.insert r
  sites hr hforward := by
    rcases ReferenceIndex.mem_insert.mp hr with rfl | rfl | hold
    · rw [hpartner] at hforward
      cases hforward
    · exact Or.inr (Or.inl hsite)
    · exact Or.inl hold
  waits := Or.inl
  failedSeeds := rfl
  history := rfl
  attempts := rfl
  decoded := rfl
  phase := Or.inl rfl

/-- A reference to code is noted, and its target comes to wait if it is open. -/
lemma follows_refer (confidence : Confidence) {r : CrossReference} (hsite : r.site = site)
    (hpartner : r.partner.isForward = false) : v.Follows quiet site s (v.refer confidence s r) := by
  unfold refer
  split
  case isFalse => exact .refl v quiet site s
  case isTrue hadmits =>
    refine (follows_insert hsite hpartner).trans ?_
    constructor
    case keeps =>
      dsimp only
      split
      · exact .refl _
      · exact ByteMap.keeps_mark _ _ _ _
    case untouched =>
      intro _ a
      dsimp only
      split
      · exact ⟨rfl, rfl⟩
      · refine ⟨?_, ByteMap.dataClass_mark _ _ _ _⟩
        rw [ByteMap.marks_mark]
        split <;> simp
    case waits =>
      intro a ha
      dsimp only at ha
      split at ha
      · exact Or.inl ha
      · next hopen =>
        rcases Agenda.contains_push.mp ha with rfl | hold
        · refine Or.inr (isSettled_eq_false_iff.mpr ?_)
          obtain ⟨hexecutable, hcontains, hdata, hbody⟩ := ByteMap.admitsCode_iff.mp hadmits
          simp only [State.hasFailed, Bool.or_eq_true, not_or, Bool.not_eq_true,
            List.contains_eq_mem, decide_eq_false_iff_not] at hopen
          refine ⟨?_, hopen.2, hexecutable, hcontains, hdata⟩
          rw [Marks.isCode_eq_false_iff]
          refine ⟨hopen.1, Bool.eq_false_iff.mpr fun hbodyTrue => ?_⟩
          rw [hopen.1] at hbody
          exact Bool.false_ne_true (hbody hbodyTrue)
        · exact Or.inl hold
    case relations => exact id
    case paired => exact id
    case sites => exact fun hr _ => Or.inl hr
    case phase => exact Or.inl rfl
    all_goals rfl

lemma follows_followBranch (i : Instruction) (suspicious : Bool) :
    v.Follows quiet i.address s (v.followBranch i suspicious s) := by
  unfold followBranch
  split
  · exact .refl v quiet _ s
  · split <;> exact follows_refer _ rfl rfl

lemma follows_noteMemory (i : Instruction) : v.Follows quiet i.address s (v.noteMemory i s) := by
  unfold noteMemory
  split
  · exact .refl v quiet _ s
  · split
    · exact follows_insert rfl rfl
    · split
      · exact follows_insert rfl rfl
      · exact .refl v quiet _ s

lemma follows_followImmediate (i : Instruction) :
    v.Follows quiet i.address s (v.followImmediate i s) := by
  unfold followImmediate
  split
  · exact .refl v quiet _ s
  · exact follows_refer _ rfl rfl

/-! ## Tables behind jumps -/

lemma Sound.keeps {m m' : ByteMap} (hv : v.Proper) (h : v.Sound m) (hkeeps : m.Keeps m') :
    v.Sound m' :=
  (Change.keep hkeeps).sound hv h

/-- An executable address is covered. -/
lemma Sound.contains {m : ByteMap} (h : v.Sound m) (ha : v.image.isExecutable a = true) :
    m.contains a = true := by
  rw [ByteMap.contains_congr h.coverage]
  exact ByteMap.contains_ofImage_of_isExecutable ha

/-- A word that is read does not wrap around the address space. -/
lemma toNat_add_four_of_word? (hv : v.Proper) {slot : Address} {target : UInt32}
    (h : v.image.word? slot = some target) : (slot + 4).toNat = slot.toNat + 4 := by
  have hfour := Image.four_le_length_window h
  have hwindow := Image.add_length_window_lt hv.placed slot
  exact @Address.toNat_add_ofNat slot 4 (by omega)

/-- The bytes of a slot that is followed are no code: they are undecided, or the slot does not lie
in executable bytes at all. -/
lemma isCode_eq_false_of_slot (hv : v.Proper) {m : ByteMap} (hm : v.Sound m) {slot b : Address}
    {target : UInt32} (hslot : ¬(m.contains slot && !m.isUnprocessedSpan ⟨slot, slot + 4⟩) = true)
    (hword : v.image.word? slot = some target) (hb : b ∈ (⟨slot, slot + 4⟩ : Span)) :
    (m.marks b).isCode = false := by
  by_cases hcontains : m.contains slot = true
  · rw [hcontains, Bool.true_and, Bool.not_eq_true, Bool.not_eq_false'] at hslot
    have hkind := ByteMap.unprocessed_of_isUnprocessedSpan hslot hb
    obtain ⟨hstart, hbody, -⟩ := ByteMap.kind_eq_unprocessed_iff.mp hkind
    exact Marks.isCode_eq_false_iff.mpr ⟨hstart, hbody⟩
  · have hforeign : v.image.isExecutable slot = false := by
      rw [Bool.eq_false_iff]
      exact fun hexecutable => hcontains (hm.contains hexecutable)
    have hfour := Image.four_le_length_window hword
    have hstop := toNat_add_four_of_word? hv hword
    obtain ⟨hle, hlt⟩ := Span.mem_iff.mp hb
    have hsame : v.image.isExecutable b = v.image.isExecutable slot := by
      refine Image.isExecutable_of_mem_window hv.placed hle ?_
      change b.toNat < (slot + 4).toNat at hlt
      omega
    rw [Bool.eq_false_iff]
    intro hcode
    rw [hm.tiled.executable hcode, hforeign] at hsame
    cases hsame

lemma follows_readSlot (hv : v.Proper) (hs : v.Sound s.map) {confidence : Confidence}
    {slot : Address} (h : v.readSlot site confidence s slot = some t) :
    v.Follows false site s t := by
  unfold readSlot at h
  dsimp only at h
  split at h
  · cases h
  · next hslot =>
    split at h
    · cases h
    · next target hword =>
      split at h
      · cases h
        have hcode : ∀ b ∈ (⟨slot, slot + 4⟩ : Span), (s.map.marks b).isCode = false :=
          fun b hb => isCode_eq_false_of_slot hv hs hslot hword hb
        have hkeeps := ByteMap.keeps_markData .pointerTable hcode
        refine Follows.trans (t := { s with
          map := s.map.markData ⟨slot, slot + 4⟩ .pointerTable
          index := s.index.insert ⟨.tableEntry, slot, target⟩ }) ?_
            (follows_refer confidence rfl rfl)
        -- the slot itself has become data, unless it is not covered and reads as data anyway
        have hdata : ((s.map.markData ⟨slot, slot + 4⟩ .pointerTable).marks slot).data = true := by
          rw [ByteMap.marks_markData]
          by_cases hcontains : s.map.contains slot = true
          · have hmem : slot ∈ (⟨slot, slot + 4⟩ : Span) := by
              have hstop := toNat_add_four_of_word? hv hword
              rw [Span.mem_iff]
              exact ⟨Nat.le_refl _, by change slot.toNat < (slot + 4).toNat; omega⟩
            rw [if_pos ⟨hmem, hcontains⟩]
            simp
          · rw [if_neg (fun h => hcontains h.2)]
            unfold ByteMap.marks
            rw [ByteMap.cell_of_not_contains (Bool.eq_false_iff.mpr hcontains)]
            rfl
        refine ⟨hkeeps, fun hquiet => absurd hquiet Bool.false_ne_true,
          fun hr => ReferenceIndex.mem_insert.mpr (Or.inr (Or.inr hr)), fun hp => hp.insert _,
          fun hr hforward => ?_, Or.inl, rfl, rfl, rfl, rfl, Or.inl rfl⟩
        rcases ReferenceIndex.mem_insert.mp hr with rfl | rfl | hold
        · cases hforward
        · exact Or.inr (Or.inr ⟨rfl, hdata⟩)
        · exact Or.inl hold
      · cases h

/-- A slot that stops the survey. -/
lemma follows_halt {base slot : Address} {k : Nat} (hknown : ⟨.jumpTable, site, base⟩ ∈ s.index)
    (hk : k < maxJumpTableSlots) (hplace : slot.toNat = base.toNat + 4 * k)
    (hcontains : s.map.contains slot = true) (hover : 2 ^ 32 ≤ slot.toNat + 4) :
    v.Follows false site s s.halt :=
  { Follows.refl v false site s with
    phase := Or.inr ⟨rfl, rfl, ⟨.jumpTable, site, base⟩, hknown, rfl, k, hk, slot, hplace,
      hcontains, hover⟩ }

lemma follows_followSlot (hv : v.Proper) (hs : v.Sound s.map) {confidence : Confidence}
    {base slot : Address} {k : Nat} (hknown : ⟨.jumpTable, site, base⟩ ∈ s.index)
    (hk : k < maxJumpTableSlots) (hplace : slot.toNat = base.toNat + 4 * k)
    (h : v.followSlot site confidence s slot = some t) : v.Follows false site s t := by
  unfold followSlot at h
  split at h
  · next hover =>
    cases h
    rw [Bool.and_eq_true, Option.isNone_iff_eq_none, Address.addChecked?_eq_none] at hover
    exact follows_halt hknown hk hplace hover.1 hover.2
  · exact follows_readSlot hv hs h

lemma follows_followSlots (hv : v.Proper) (hs : v.Sound s.map) {base : Address}
    (hknown : ⟨.jumpTable, site, base⟩ ∈ s.index) (confidence : Confidence) {n k : Nat}
    (hk : k + n ≤ maxJumpTableSlots) :
    v.Follows false site s (v.followSlots site base confidence n k s) := by
  induction n generalizing k s with
  | zero => exact .refl v false site s
  | succ n ih =>
    unfold followSlots
    split
    · exact .refl v false site s
    · next slot hplace =>
      split
      · exact .refl v false site s
      · next t hslot =>
        have hfollows := follows_followSlot hv hs hknown (by omega)
          (Address.addChecked?_eq_some.mp hplace) hslot
        exact hfollows.trans
          (ih (hs.keeps hv hfollows.keeps) (hfollows.relations hknown) (by omega))

lemma follows_followJumpTable (hv : v.Proper) (hs : v.Sound s.map) (i : Instruction)
    (suspicious : Bool) : v.Follows false i.address s (v.followJumpTable i suspicious s) := by
  unfold followJumpTable
  split
  · exact .refl v false _ s
  · next base _ =>
    split
    · have hinsert : v.Follows false i.address s
          { s with index := s.index.insert ⟨.jumpTable, i.address, base⟩ } := follows_insert rfl rfl
      have hknown : ⟨.jumpTable, i.address, base⟩ ∈ s.index.insert ⟨.jumpTable, i.address, base⟩ :=
        ReferenceIndex.mem_insert.mpr (Or.inr (Or.inl rfl))
      have hslots := hinsert.trans (follows_followSlots hv (hs.keeps hv hinsert.keeps) hknown
        (confidenceFrom suspicious .computedJump) (n := maxJumpTableSlots) (k := 0) (Nat.le_refl _))
      exact { hslots with }
    · exact .refl v false _ s

/-! ## All references of an instruction -/

/-- **Following all references of an instruction** stays within the bound; only an indirect jump
makes data. -/
lemma follows_followReferences (hv : v.Proper) (hs : v.Sound s.map) (i : Instruction)
    (suspicious : Bool) :
    v.Follows (i.flow != .jumpIndirect) i.address s (v.followReferences i suspicious s) := by
  unfold followReferences
  dsimp only
  have hbranch : v.Follows (i.flow != .jumpIndirect) i.address s (v.followBranch i suspicious s) :=
    follows_followBranch i suspicious
  have htable : v.Follows (i.flow != .jumpIndirect) i.address s
      (if i.flow == .jumpIndirect && v.settings.followJumpTables then
        v.followJumpTable i suspicious (v.followBranch i suspicious s)
      else v.followBranch i suspicious s) := by
    split
    · next hjump =>
      have hloud : (i.flow != .jumpIndirect) = false := by
        rw [Bool.and_eq_true] at hjump
        rw [bne, hjump.1]
        rfl
      rw [hloud] at hbranch ⊢
      exact hbranch.trans (follows_followJumpTable hv (hs.keeps hv hbranch.keeps) i suspicious)
    · exact hbranch
  have hmemory := htable.trans (follows_noteMemory i)
  split
  · exact hmemory.trans (follows_followImmediate i)
  · exact hmemory

end Survey

end CodeSift
