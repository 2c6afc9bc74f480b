import CodeSift.Proofs.Labels

/-!
# Confirmed code is settled before any guess is decoded

An instruction is *confirmed* when it was not reached through a guess.  The agenda hands out the
surest lead first, and guessed code refers to guesses only; so once a guess is taken from the
agenda, only guesses wait, and every attempt that follows is a guess.

Such an attempt leaves all code as it is, and the instructions it adds are suspicious.  Giving it up
clears bytes that it decoded itself and takes no label that sure code has set, the searches for data
fill bytes that were undecided, and a review turns suspicious instructions into data.  None of them
touches a confirmed instruction, and none of them makes one (`Survey.Undisturbed`): which code is
confirmed is decided when the first guess is taken (`confirmed_code_is_settled`).
-/

namespace CodeSift

/-- An instruction starts here that was not reached through a guess. -/
def Marks.isConfirmed (f : Marks) : Bool := f.start && !f.suspicious

/-- The addresses at which a confirmed instruction starts, ascending. -/
def ByteMap.confirmedStarts (m : ByteMap) : List Address :=
  m.starts.filter fun a => (m.marks a).isConfirmed

lemma ByteMap.confirmedStarts_eq (m : ByteMap) :
    m.confirmedStarts = m.coverage.addresses.filter fun a => (m.marks a).isConfirmed := by
  unfold confirmedStarts
  rw [starts_eq, List.filter_filter]
  refine List.filter_congr fun a _ => ?_
  unfold Marks.isConfirmed
  cases (m.marks a).start <;> simp

namespace Survey

variable {v : Survey} {s t : State} {m m' m'' : ByteMap} {a b : Address}
  {i : Instruction} {f : Failure} {purpose : Purpose} {lead : Lead}

/-! ## Code that is left alone -/

/-- **No confirmed instruction comes, goes or changes.** -/
structure Undisturbed (v : Survey) (m m' : ByteMap) : Prop where
  confirmed (a : Address) : (m'.marks a).isConfirmed = (m.marks a).isConfirmed
  bytes {a b : Address} {i : Instruction} : v.Stands m a i → (m.marks a).isConfirmed = true →
    b ∈ (⟨a, i.stop⟩ : Span) → m'.cell b = m.cell b

/-- What an address reads as decides which instruction stands there. -/
lemma stands_of_isConfirmed (hm : v.Sound m) (hreads : v.Reads a i)
    (ha : (m.marks a).isConfirmed = true) : v.Stands m a i := by
  rw [Marks.isConfirmed, Bool.and_eq_true] at ha
  obtain ⟨j, hj⟩ := hm.tiled.starts ha.1
  have hsame : j = i := Except.ok.inj (hj.reads.symm.trans hreads)
  rwa [hsame] at hj

namespace Undisturbed

lemma refl (v : Survey) (m : ByteMap) : v.Undisturbed m m := ⟨fun _ => rfl, fun _ _ _ => rfl⟩

lemma trans (h : v.Undisturbed m m') (hm' : v.Sound m') (h' : v.Undisturbed m' m'') :
    v.Undisturbed m m'' where
  confirmed a := (h'.confirmed a).trans (h.confirmed a)
  bytes {a b i} hi ha hb := by
    have hconfirmed := (h.confirmed a).trans ha
    exact (h'.bytes (stands_of_isConfirmed hm' hi.reads hconfirmed) hconfirmed hb).trans
      (h.bytes hi ha hb)

/-- The lists of confirmed instructions are the same. -/
lemma confirmedStarts_eq (h : v.Undisturbed m m') (hcoverage : m'.coverage = m.coverage) :
    m'.confirmedStarts = m.confirmedStarts := by
  rw [ByteMap.confirmedStarts_eq, ByteMap.confirmedStarts_eq, hcoverage]
  exact List.filter_congr fun a _ => h.confirmed a

end Undisturbed

/-- Guesses disturb no confirmed code. -/
lemma undisturbed_of_guesses (hv : v.Proper) (h : m.Guesses m') : v.Undisturbed m m' where
  confirmed a := by
    by_cases hcode : (m.marks a).isCode = true
    · rw [h.marks_eq hcode]
    · have hold := Bool.eq_false_iff.mpr hcode
      rw [Marks.isConfirmed, Marks.isConfirmed, (Marks.isCode_eq_false_iff.mp hold).1]
      cases hstart : (m'.marks a).start with
      | false => rfl
      | true => rw [h.guessed hold hstart]; rfl
  bytes hi _ hb := by
    obtain ⟨hle, hlt⟩ := Span.mem_mk.mp hb
    exact h.kept (hi.isCode hv hle hlt)

/-- **Giving up a guess** clears bytes that it decoded itself, and leaves a map with guesses. -/
lemma Attempted.guesses_recover (hv : v.Proper) (h : v.Attempted s purpose lead t (some f))
    (hlead : lead.confidence.isSpeculative = true) (hsourced : v.Sourced t.map t.index)
    {stage : Bool} (hlabelling : Labelling stage t) : s.map.Guesses (v.recover t f).map := by
  obtain ⟨hguesses, -⟩ := h.guesses hv hlead
  obtain ⟨-, hsever, hfresh⟩ := h.doubt hv
  have hcell : ∀ b ∉ t.doubt f, (v.recover t f).map.cell b = t.map.cell b := fun b hb =>
    hlabelling.cell_recover hsourced hsever (fun a ha => h.suspicious_of_mem_doubt hv hlead ha) hb
  constructor
  case kept =>
    intro b hb
    have hout : b ∉ t.doubt f := by
      intro hmem
      rw [ByteMap.isCode_of_unprocessed (hfresh b hmem)] at hb
      cases hb
    rw [hcell b hout, hguesses.kept hb]
  case guessed =>
    intro b hb hstart
    by_cases hmem : b ∈ t.doubt f
    · -- a byte in doubt is cleared
      have hsame := Cell.congr_of_unlabelled (fun c => c.marks.start) Cell.start_unlabelled
        (unlabelled_recover v t f b)
      have hclear := congrArg Marks.start (hsever.marks_clear b)
      rw [if_pos hmem] at hclear
      rw [ByteMap.marks, hsame, ← ByteMap.marks, hclear] at hstart
      cases hstart
    · unfold ByteMap.marks at hstart ⊢
      rw [hcell b hmem] at hstart ⊢
      exact hguesses.guessed hb hstart

/-- **A review disturbs no confirmed code**, for all that starts in a block is suspicious. -/
lemma undisturbed_review (hv : v.Proper) (hm : v.Sound m) (index : ReferenceIndex) :
    v.Undisturbed m (CodeBlocks.review v.image v.decoder m index).map := by
  have hblocks : ∀ {a b : Address} {i : Instruction}, v.Stands m a i → b ∈ (⟨a, i.stop⟩ : Span) →
      (∃ s ∈ CodeBlocks.guilty v m, b ∈ s) → (m.marks a).isConfirmed = false := by
    intro a b i hi hb hguilty
    simp [Marks.isConfirmed, CodeBlocks.suspicious_of_mem_guilty hv hm.laid hi hb hguilty]
  constructor
  case confirmed =>
    intro a
    have hcell := CodeBlocks.cell_review hv hm.laid index a
    unfold ByteMap.marks
    rw [hcell]
    split
    · next hguilty =>
      show false = (m.marks a).isConfirmed
      cases hconfirmed : (m.marks a).isConfirmed with
      | false => rfl
      | true =>
        obtain ⟨i, hi⟩ := hm.tiled.starts (Bool.and_eq_true _ _ ▸ hconfirmed).1
        have hmem : a ∈ (⟨a, i.stop⟩ : Span) := Span.mem_mk.mpr ⟨Nat.le_refl _, hv.lt_stop hi.reads⟩
        rw [hblocks hi hmem hguilty] at hconfirmed
        cases hconfirmed
    · rfl
  case bytes =>
    intro a b i hi ha hb
    rw [CodeBlocks.cell_review hv hm.laid, if_neg]
    intro hguilty
    rw [hblocks hi hb hguilty] at ha
    cases ha

/-! ## Whole surveys -/

/-- Compared with an earlier map no confirmed instruction has come, gone or changed, and none will:
only guesses wait. -/
structure Settled (v : Survey) (m : ByteMap) (s : State) : Prop where
  undisturbed : v.Undisturbed m s.map
  agenda : s.agenda.Speculative
  accounted : v.Accounted s

/-- **Confirmed code is left alone as long as only guesses wait**, and only guesses come to wait. -/
lemma maintained_settled (hv : v.Proper) (m : ByteMap) : v.Maintained (v.Settled m) where
  frame h hmap hindex hleads :=
    ⟨hmap ▸ h.undisturbed, fun l hl => h.agenda l (hleads l hl),
      (maintained_accounted hv).frame h.accounted hmap hindex hleads⟩
  attempt := by
    rintro s t purpose lead failure hmade h
    have hlead := hmade.isSpeculative h.agenda
    obtain ⟨hguesses, hagenda⟩ := hmade.guesses hv hlead
    exact ⟨h.undisturbed.trans hmade.sound (undisturbed_of_guesses hv hguesses), hagenda,
      (maintained_accounted hv).attempt hmade h.accounted⟩
  recover := by
    rintro s t purpose lead f hmade h
    have hlead := hmade.isSpeculative h.agenda
    obtain ⟨-, hagenda⟩ := hmade.guesses hv hlead
    obtain ⟨hsourced, stage, hlabelling⟩ := (maintained_accounted hv).attempt hmade h.accounted
    have hguesses := hmade.guesses_recover hv hlead hsourced hlabelling
    exact ⟨h.undisturbed.trans hmade.sound (undisturbed_of_guesses hv hguesses),
      fun l hl => hagenda l (leads_recover hl), (maintained_accounted hv).recover hmade h.accounted⟩
  tables hsound hscan h :=
    ⟨h.undisturbed.trans hsound (undisturbed_of_guesses hv (fills_noteTables hv hscan).guesses),
      h.agenda, (maintained_accounted hv).tables hsound hscan h.accounted⟩
  strings {s} hsound h := by
    refine ⟨h.undisturbed.trans hsound
      (undisturbed_of_guesses hv (fills_finalizeStrings v s).guesses), ?_,
      (maintained_accounted hv).strings hsound h.accounted⟩
    rw [(reviewed_finalizeStrings v s).agenda]
    exact h.agenda
  code {s} hsound hempty h := by
    refine ⟨?_, ?_, (maintained_accounted hv).code hsound hempty h.accounted⟩
    · rw [(map_finalizeCode v s).1]
      exact h.undisturbed.trans hsound (undisturbed_review hv hsound s.index)
    · rw [(reviewed_finalizeCode hv hsound).agenda]
      exact h.agenda
  rest {s} hsound h := by
    refine ⟨h.undisturbed.trans hsound (undisturbed_of_guesses hv (fills_finalizeRest s).guesses),
      ?_, (maintained_accounted hv).rest hsound h.accounted⟩
    rw [(reviewed_finalizeRest v s).agenda]
    exact h.agenda

/-- From a state on in which only guesses wait, confirmed code is settled. -/
lemma Reachable.settled (hv : v.Proper) (hs : v.Reachable s) (hphase : s.phase ≠ .recovering)
    (hagenda : s.agenda.Speculative) (ht : v.Reaches s t) : v.Settled s.map t :=
  (maintained_settled hv s.map).reaches hv (hs.consistent hv) hphase
    ⟨.refl v s.map, hagenda, hs.accounted hv⟩ ht

/-! ## The leads of attempts -/

/-- The leads from which a step makes attempts, in order.  In the last step the leads are the
addresses to which tables point. -/
def attemptLeads (v : Survey) (cancelled : Bool) (s : State) : List Lead :=
  match s.phase with
  | .discovering => (v.lead? cancelled s).toList.filter fun lead =>
      !(v.isSettled s lead.address || lead.confidence.isSpeculative && !v.probe s.map lead.address)
  | .finalizing => (v.finalSeeds s).map fun a => ⟨a, .tableEntry⟩
  | _ => []

/-- They lead to the addresses from which the step makes attempts. -/
lemma address_attemptLeads (v : Survey) (cancelled : Bool) (s : State) :
    (v.attemptLeads cancelled s).map Lead.address = v.attemptSeeds cancelled s := by
  unfold attemptLeads attemptSeeds
  cases s.phase with
  | discovering =>
    unfold seed?
    cases v.lead? cancelled s with
    | none => rfl
    | some lead =>
      simp only [Option.toList_some, Option.bind_some, List.filter_cons, List.filter_nil]
      generalize (v.isSettled s lead.address ||
        lead.confidence.isSpeculative && !v.probe s.map lead.address) = refused
      cases refused <;> rfl
  | recovering => rfl
  | finalizing => exact (List.map_map).trans (List.map_id _)
  | done => rfl
  | stopped => rfl

/-- The lead that is taken is the first one that waits. -/
lemma exists_pop?_of_lead? {cancelled : Bool} (h : v.lead? cancelled s = some lead) :
    ∃ rest, s.agenda.pop? = some (lead, rest) := by
  unfold Survey.lead? at h
  split at h
  · cases h
  · obtain ⟨⟨first, rest⟩, hpop, rfl⟩ := Option.map_eq_some_iff.mp h
    exact ⟨rest, hpop⟩

lemma Settled.lead? {cancelled : Bool} (h : v.Settled m s)
    (hlead : v.lead? cancelled s = some lead) : lead.confidence.isSpeculative = true := by
  obtain ⟨rest, hpop⟩ := exists_pop?_of_lead? hlead
  exact (Occasion.taken hpop).isSpeculative h.agenda

lemma Settled.attemptLeads {cancelled : Bool} (h : v.Settled m s)
    (hlead : lead ∈ v.attemptLeads cancelled s) : lead.confidence.isSpeculative = true := by
  unfold Survey.attemptLeads at hlead
  split at hlead
  · exact h.lead? (Option.mem_toList.mp (List.mem_filter.mp hlead).1)
  · obtain ⟨a, -, rfl⟩ := List.mem_map.mp hlead
    rfl
  · cases hlead

/-- **Confirmed code is settled before any guess is decoded, and never changes afterwards.**  When a
step takes a guess from the agenda, then from that state on, up to the last one, every lead that is
taken and every lead of an attempt is a guess; the confirmed instructions are always the same; and
each of them stands as it did, with all its bytes unchanged. -/
theorem confirmed_code_is_settled {file : Array UInt8} {layout : Layout}
    (hload : Image.load file layout = .ok v.image) (hdecoder : v.decoder.Faithful)
    (hs : v.Reachable s) {cancelled : Bool} (hphase : s.phase = .discovering)
    (hlead : v.lead? cancelled s = some lead) (hguess : lead.confidence.isSpeculative = true)
    (ht : v.Reaches s t) :
    (∀ later l, t.phase = .discovering → v.lead? later t = some l →
      l.confidence.isSpeculative = true) ∧
    (∀ later, (v.attemptLeads later t).map Lead.address = v.attemptSeeds later t ∧
      ∀ l ∈ v.attemptLeads later t, l.confidence.isSpeculative = true) ∧
    t.map.confirmedStarts = s.map.confirmedStarts ∧
    ∀ a ∈ s.map.confirmedStarts, ∃ i, v.Stands s.map a i ∧ v.Stands t.map a i ∧
      ∀ b ∈ (⟨a, i.stop⟩ : Span), t.map.cell b = s.map.cell b := by
  have hv : v.Proper := ⟨Image.placed_of_load hload, hdecoder⟩
  have hconsistent := hs.consistent hv
  obtain ⟨rest, hpop⟩ := exists_pop?_of_lead? hlead
  have hsettled :=
    hs.settled hv (by rw [hphase]; exact nofun) (Agenda.speculative_of_pop? hpop hguess) ht
  obtain ⟨htconsistent, hchanges⟩ := ht.consistent hv hconsistent
  refine ⟨fun later l _ hl => hsettled.lead? hl,
    fun later => ⟨address_attemptLeads v later t, fun l hl => hsettled.attemptLeads hl⟩,
    hsettled.undisturbed.confirmedStarts_eq hchanges.coverage, fun a ha => ?_⟩
  have hconfirmed := (List.mem_filter.mp ha).2
  obtain ⟨i, hi⟩ := hconsistent.sound.tiled.starts (ByteMap.mem_starts.mp (List.mem_filter.mp ha).1)
  refine ⟨i, hi, ?_, fun b hb => hsettled.undisturbed.bytes hi hconfirmed hb⟩
  exact stands_of_isConfirmed htconsistent.sound hi.reads
    ((hsettled.undisturbed.confirmed a).trans hconfirmed)

/-- In the small survey with guesses, the third step takes a guess.  From there to the last state
the confirmed instructions are the same, the jump at the entry among them. -/
theorem confirmed_code_is_settled_guessing :
    guessing.lead? false (guessing.stateAt (fun _ => false) 2) = some ⟨0x101c, .guess⟩ ∧
      (guessing.stateAt (fun _ => false) 5).phase = .done ∧
      0x1000 ∈ (guessing.stateAt (fun _ => false) 2).map.confirmedStarts ∧
      (guessing.stateAt (fun _ => false) 5).map.confirmedStarts =
        (guessing.stateAt (fun _ => false) 2).map.confirmedStarts := by
  have hload : Image.load guessFile guessImage.layout = .ok guessing.image := by decide +kernel
  have hphase : (guessing.stateAt (fun _ => false) 2).phase = .discovering := by decide +kernel
  have hlead : guessing.lead? false (guessing.stateAt (fun _ => false) 2) =
      some ⟨0x101c, .guess⟩ := by
    decide +kernel
  have hdone : (guessing.stateAt (fun _ => false) 5).phase = .done := by decide +kernel
  have hmem : (0x1000 : Address) ∈ (guessing.stateAt (fun _ => false) 2).map.confirmedStarts := by
    decide +kernel
  have hreaches : guessing.Reaches (guessing.stateAt (fun _ => false) 2)
      (guessing.stateAt (fun _ => false) 5) :=
    reaches_stateAt guessing (fun _ => false) 2 3
  exact ⟨hlead, hdone, hmem,
    (confirmed_code_is_settled hload (Decoder.faithful_x86 .bits32 guessImage.span)
    (reachable_stateAt guessing (fun _ => false) 2) hphase hlead rfl hreaches).2.2.1⟩

end Survey

end CodeSift
