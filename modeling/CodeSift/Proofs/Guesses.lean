import CodeSift.Proofs.Upkeep

/-!
# Attempts that are guesses

An attempt from a lead that is a guess leaves all code as it is, and the instructions it adds are
suspicious (`ByteMap.Guesses`).  What these name is noted as a guess, so when only guesses waited
before the attempt, only guesses wait after it.

The agenda hands out the surest lead first.  So as soon as one guess is taken from it, only guesses
wait, and from then on every attempt is a guess.
-/

namespace CodeSift

open Survey

/-! ## Adding guesses -/

/-- The second map has the code of the first, and whatever starts in it besides is suspicious. -/
structure ByteMap.Guesses (m m' : ByteMap) : Prop where
  kept {b : Address} : (m.marks b).isCode = true → m'.cell b = m.cell b
  guessed {b : Address} : (m.marks b).isCode = false → (m'.marks b).start = true →
    (m'.marks b).suspicious = true

namespace ByteMap

variable {v : Survey} {m m' m'' : ByteMap} {a b : Address} {i : Instruction}

namespace Guesses

lemma refl (m : ByteMap) : m.Guesses m where
  kept _ := rfl
  guessed hcode hstart := by
    rw [(Marks.isCode_eq_false_iff.mp hcode).1] at hstart
    cases hstart

lemma marks_eq (h : m.Guesses m') (hb : (m.marks b).isCode = true) : m'.marks b = m.marks b :=
  congrArg Cell.marks (h.kept hb)

lemma trans (h : m.Guesses m') (h' : m'.Guesses m'') : m.Guesses m'' where
  kept hb := (h'.kept (by rw [h.marks_eq hb, hb])).trans (h.kept hb)
  guessed {b} hb hstart := by
    by_cases hcode : (m'.marks b).isCode = true
    · -- the guess was added first, and the second time it was kept
      rw [h'.marks_eq hcode] at hstart ⊢
      exact h.guessed hb hstart
    · exact h'.guessed (Bool.eq_false_iff.mpr hcode) hstart

/-- Laying down a suspicious instruction adds a guess. -/
lemma markInstruction (hv : v.Proper) (h : v.examine m a = .ok (some i)) :
    m.Guesses (markInstruction m a i true) := by
  obtain ⟨hkind, -, htail⟩ := examine_eq_some h
  have hfresh : ∀ b, b = a ∨ b ∈ tailOf a i → (m.marks b).isCode = false := by
    intro b hb
    rcases hb with rfl | hb
    · exact isCode_of_unprocessed hkind
    · exact isCode_of_unprocessed (htail b hb).1
  constructor
  case kept =>
    intro b hb
    have hout : ¬(b = a ∨ b ∈ tailOf a i) := by
      intro hmem
      rw [hfresh b hmem] at hb
      cases hb
    rw [not_or] at hout
    rw [cell_markInstruction h hv, if_neg hout.1, if_neg hout.2]
  case guessed =>
    intro b hb hstart
    rw [start_markInstruction h hv, (Marks.isCode_eq_false_iff.mp hb).1, Bool.false_or,
      decide_eq_true_eq] at hstart
    unfold marks
    rw [cell_markInstruction h hv, if_pos hstart]
    exact Bool.or_true _

/-- Making data of bytes that are no code adds nothing. -/
lemma markData {s : Span} (cls : DataClass) (h : ∀ a ∈ s, (m.marks a).isCode = false) :
    m.Guesses (m.markData s cls) where
  kept {b} hb := by
    rw [cell_markData, if_neg]
    rintro ⟨hmem, -⟩
    rw [h b hmem] at hb
    cases hb
  guessed {b} hb hstart := by
    rw [(keeps_markData cls h).start, (Marks.isCode_eq_false_iff.mp hb).1] at hstart
    cases hstart

end Guesses

/-- Filling a map adds nothing. -/
lemma Fills.guesses (h : m.Fills m') : m.Guesses m' where
  kept {b} hb := by
    refine h.cell_eq fun hkind => ?_
    rw [isCode_of_unprocessed hkind] at hb
    cases hb
  guessed {b} hb hstart := by
    rw [h.keeps.start, (Marks.isCode_eq_false_iff.mp hb).1] at hstart
    cases hstart

end ByteMap

namespace Survey

variable {v : Survey} {s t : State} {m m' m'' : ByteMap} {a b : Address}
  {i : Instruction} {f : Failure} {purpose : Purpose} {lead : Lead}

/-! ## Attempts that are guesses -/

/-- A reference that is a guess leaves the map alone, and lets a guess wait. -/
lemma speculative_refer {confidence : Confidence} (hconfidence : confidence.isSpeculative = true)
    (r : CrossReference) :
    (v.refer confidence s r).map = s.map ∧
      (s.agenda.Speculative → (v.refer confidence s r).agenda.Speculative) := by
  unfold refer
  simp only [hconfidence, if_true]
  split
  · refine ⟨rfl, fun hagenda => ?_⟩
    dsimp only
    split
    · exact hagenda
    · exact hagenda.push hconfidence
  · exact ⟨rfl, id⟩

/-- **What guessed code names is noted as a guess**, and only bytes that are no code become data. -/
lemma Noted.guesses (hv : v.Proper) (hs : v.Sound s.map) (h : v.Noted i true s t) :
    s.map.Guesses t.map ∧ (s.agenda.Speculative → t.agenda.Speculative) := by
  cases h with
  | @code cls r _ _ hconfidence =>
    obtain ⟨hmap, hagenda⟩ := speculative_refer (v := v) (s := s) (hconfidence rfl)
      ⟨cls, i.address, r⟩
    rw [hmap]
    exact ⟨.refl _, hagenda⟩
  | place _ => exact ⟨.refl _, id⟩
  | slot _ _ _ _ hconfidence hslot =>
    obtain ⟨target, hfree, hword, -, rfl⟩ := readSlot_eq_some hslot
    obtain ⟨hmap, hagenda⟩ := @speculative_refer v _ _ (hconfidence rfl) ⟨.jump, i.address, target⟩
    rw [hmap]
    exact ⟨.markData _ fun b hb => isCode_eq_false_of_slot hv hs hfree hword hb, hagenda⟩
  | halted => exact ⟨.refl _, id⟩
  | counted _ => exact ⟨.refl _, id⟩

lemma grown_guesses (hv : v.Proper) (m : ByteMap) :
    v.Grown true fun s => m.Guesses s.map ∧ s.agenda.Speculative where
  counted _ h := h
  laid _ hexamine h := ⟨h.1.trans (.markInstruction hv hexamine), h.2⟩
  noted hs _ hnoted h := by
    obtain ⟨hguesses, hagenda⟩ := hnoted.guesses hv hs
    exact ⟨h.1.trans hguesses, hagenda h.2⟩

/-- While only guesses wait, the leads of attempts are guesses. -/
lemma Occasion.isSpeculative {s₁ : State} (h : Occasion s purpose lead s₁)
    (hagenda : s.agenda.Speculative) : lead.confidence.isSpeculative = true := by
  cases h with
  | taken hpop =>
    refine hagenda lead ?_
    show lead ∈ s.agenda.leads.toList
    rw [Agenda.leads_of_pop? hpop]
    exact List.mem_cons_self
  | pointed a _ => rfl

lemma Attempted.isSpeculative {failure : Option Failure} (h : v.Attempted s purpose lead t failure)
    (hagenda : s.agenda.Speculative) : lead.confidence.isSpeculative = true := by
  obtain ⟨s₁, hoccasion, -⟩ := h.made
  exact hoccasion.isSpeculative hagenda

/-- **From a guess on, only guesses wait.** -/
lemma Occasion.speculative {s₁ : State} (h : Occasion s purpose lead s₁)
    (hlead : lead.confidence.isSpeculative = true) : s₁.agenda.Speculative := by
  cases h with
  | taken hpop =>
    exact fun l hl => Agenda.speculative_of_pop? hpop hlead l (Agenda.mem_of_mem_rest hpop hl)
  | pointed a hempty =>
    rw [hempty]
    exact Agenda.speculative_empty

/-- **An attempt from a guess adds guesses.** -/
lemma Attempted.guesses {failure : Option Failure} (hv : v.Proper)
    (h : v.Attempted s purpose lead t failure) (hlead : lead.confidence.isSpeculative = true) :
    s.map.Guesses t.map ∧ t.agenda.Speculative := by
  obtain ⟨s₁, hoccasion, hattempt⟩ := h.made
  obtain ⟨hmap, -, -⟩ := hoccasion.same
  have hgrown : v.Grown lead.confidence.isSpeculative
      fun t => s.map.Guesses t.map ∧ t.agenda.Speculative := by
    rw [hlead]
    exact grown_guesses hv s.map
  exact hgrown.attempt hv (hmap ▸ h.sound) ⟨hmap ▸ .refl _, hoccasion.speculative hlead⟩ hattempt

end Survey

end CodeSift
