import CodeSift.Proofs.Guesses
import CodeSift.Proofs.Warrants

/-!
# Every label is vouched for

A byte gets a label when sure code refers to it, and loses it when an attempt is given up and
nothing refers to the byte any more.  So a label at a byte where no instruction starts, and which is
no anchor, is *vouched for*: a relation to the byte is in the index, and what makes it is not
guessed code (`State.Vouched`).

Guessed code does not matter for labels because it comes last.  As long as something may still be
found surely, there is no guessed code at all; afterwards no label is set any more.  These are the
two stages of `Survey.Labelling`.  In the first, whatever refers to a byte vouches for it, and
giving up an attempt looks for exactly that.  In the second, the relations that go are made by
guessed code and vouch for nothing, so no label goes at all (`Labelling.cell_recover`).
-/

namespace CodeSift

namespace Survey

variable {v : Survey} {m m' : ByteMap} {x : ReferenceIndex} {r : CrossReference} {a b : Address}
  {i : Instruction} {s s₁ t : State} {f : Failure} {purpose : Purpose} {lead : Lead}
  {guessing : Bool}

/-! ## Where relations are made -/

lemma Warranted.partner_isForward (h : v.Warranted m x r) : r.partner.isForward = false := by
  cases h with
  | code _ _ hnames => cases hnames <;> rfl
  | place _ _ hnames => cases hnames <;> rfl
  | tableJump => rfl
  | tableEntry => rfl

/-- A relation that is made in code is made where an instruction starts. -/
lemma Warranted.start_of_isCode (h : v.Warranted m x r) (hcode : (m.marks r.site).isCode = true) :
    (m.marks r.site).start = true := by
  cases h with
  | code hstart => exact hstart
  | place hstart => exact hstart
  | tableJump hstart => exact hstart
  | tableEntry _ hslot =>
    rw [isCode_of_isSlot hslot] at hcode
    cases hcode

/-- A relation is made at a byte that is decided. -/
lemma Warranted.kind_site (h : v.Warranted m x r) : m.kind r.site ≠ .unprocessed := by
  intro hkind
  obtain ⟨hfresh, -, -⟩ := ByteMap.kind_eq_unprocessed_iff.mp hkind
  have hstart : (m.marks r.site).start = true → False := by simp [hfresh]
  cases h with
  | code hsite => exact hstart hsite
  | place hsite => exact hstart hsite
  | tableJump hsite => exact hstart hsite
  | @tableEntry slot _ _ hslot =>
    obtain ⟨hdata, -⟩ :=
      hslot slot (Nat.le_refl _) (by omega) (ByteMap.contains_of_unprocessed hkind)
    rw [hkind] at hdata
    cases hdata

/-! ## Labels -/

/-- There is a reason for a label at the byte: an instruction starts there, or it is an anchor, or a
relation leads to it that is not made by guessed code. -/
def State.Vouched (s : State) (b : Address) : Prop :=
  (s.map.marks b).start = true ∨ (s.map.marks b).isAnchored = true ∨
    ∃ r ∈ s.index, r.isForward = true ∧ r.target = b ∧ (s.map.marks r.site).suspicious = false

/-- The reason stays when the instruction, the anchor and the relation stay. -/
lemma State.Vouched.mono (h : s.Vouched b)
    (hstart : (s.map.marks b).start = true → (t.map.marks b).start = true)
    (hanchored : (t.map.marks b).isAnchored = (s.map.marks b).isAnchored)
    (hrelations : ∀ r ∈ s.index, r.isForward = true → (s.map.marks r.site).suspicious = false →
      r ∈ t.index ∧ (t.map.marks r.site).suspicious = false) : t.Vouched b := by
  rcases h with hold | hold | ⟨r, hr, hforward, htarget, hsure⟩
  · exact Or.inl (hstart hold)
  · exact Or.inr (Or.inl (hanchored.trans hold))
  · obtain ⟨hstays, hsure'⟩ := hrelations r hr hforward hsure
    exact Or.inr (Or.inr ⟨r, hstays, hforward, htarget, hsure'⟩)

/-- **Every label is vouched for.**  Before guesses are made no code is suspicious, and afterwards
only guesses wait. -/
structure Labelling (guessing : Bool) (s : State) : Prop where
  mirrored : s.index.Mirrored
  labels {b : Address} : (s.map.marks b).labelled = true → s.Vouched b
  sure : guessing = false → ∀ a, (s.map.marks a).suspicious = false
  agenda : guessing = true → s.agenda.Speculative

/-! ## Changes that do not concern labels -/

/-- The marks that matter for labels are the same. -/
def SameLabels (m m' : ByteMap) : Prop := ∀ a,
  (m'.marks a).labelled = (m.marks a).labelled ∧ (m'.marks a).start = (m.marks a).start ∧
    (m'.marks a).isAnchored = (m.marks a).isAnchored ∧
      (m'.marks a).suspicious = (m.marks a).suspicious

lemma sameLabels_refl (m : ByteMap) : SameLabels m m := fun _ => ⟨rfl, rfl, rfl, rfl⟩

lemma sameLabels_markData (m : ByteMap) (span : Span) (cls : DataClass) :
    SameLabels m (m.markData span cls) := by
  intro a
  rw [ByteMap.marks_markData]
  split <;> simp [Marks.isAnchored]

lemma sameLabels_of_fills (h : m.Fills m') : SameLabels m m' := by
  intro a
  unfold ByteMap.marks
  rcases h.cell a with hsame | ⟨-, cls, -, hdata⟩
  · rw [hsame]
    exact ⟨rfl, rfl, rfl, rfl⟩
  · rw [hdata]
    simp [Cell.asData, Marks.isAnchored]

/-- Relations may be added, and guesses may come to wait. -/
lemma Labelling.grow (h : Labelling guessing s) (hmarks : SameLabels s.map t.map)
    (hmirrored : t.index.Mirrored) (hindex : ∀ r ∈ s.index, r ∈ t.index)
    (hagenda : guessing = true → t.agenda.Speculative) : Labelling guessing t where
  mirrored := hmirrored
  labels {b} hb := by
    obtain ⟨hlabelled, hstart, hanchored, -⟩ := hmarks b
    refine (h.labels (hlabelled.symm.trans hb)).mono hstart.trans hanchored fun r hr _ hsure => ?_
    exact ⟨hindex r hr, (hmarks r.site).2.2.2.trans hsure⟩
  sure hguessing a := (hmarks a).2.2.2.trans (h.sure hguessing a)
  agenda := hagenda

lemma Labelling.insert (h : Labelling guessing s) (hmarks : SameLabels s.map m)
    (r : CrossReference) : Labelling guessing { s with map := m, index := s.index.insert r } :=
  h.grow hmarks (h.mirrored.insert r) (fun _ hq => ReferenceIndex.mem_insert_of_mem r hq) h.agenda

lemma Labelling.fill (h : Labelling guessing s) (hfills : s.map.Fills t.map)
    (hindex : t.index = s.index) (hagenda : t.agenda = s.agenda) : Labelling guessing t := by
  refine h.grow (sameLabels_of_fills hfills) ?_ (fun r hr => ?_) fun hguessing => ?_
  · rw [hindex]
    exact h.mirrored
  · rw [hindex]
    exact hr
  · rw [hagenda]
    exact h.agenda hguessing

/-! ## Attempts -/

/-- **A label is set together with the relation that vouches for it.** -/
lemma Labelling.refer {confidence : Confidence} (h : Labelling guessing s)
    (hforward : r.isForward = true)
    (hconfidence : guessing = true → confidence.isSpeculative = true) :
    Labelling guessing (v.refer confidence s r) := by
  by_cases hspeculative : confidence.isSpeculative = true
  · unfold Survey.refer
    simp only [hspeculative, if_true]
    split
    · refine h.grow (sameLabels_refl s.map) (h.mirrored.insert r)
        (fun _ hq => ReferenceIndex.mem_insert_of_mem r hq) fun hguessing => ?_
      dsimp only
      split
      · exact h.agenda hguessing
      · exact (h.agenda hguessing).push hspeculative
    · exact h
  · -- no guess has been made yet, so the relation vouches for its target
    have hguessing : guessing = false :=
      Bool.eq_false_iff.mpr fun hguessing => hspeculative (hconfidence hguessing)
    unfold Survey.refer
    simp only [hspeculative]
    split
    · have hsure : ∀ a, ((s.map.mark r.target
          { labelled := true, resolved := (s.map.marks r.target).start }).marks a).suspicious =
          false := by
        intro a
        rw [ByteMap.marks_mark]
        split <;> simp [h.sure hguessing a]
      constructor
      case mirrored => exact h.mirrored.insert r
      case labels =>
        intro b hb
        by_cases hbr : r.target = b
        · exact Or.inr (Or.inr ⟨r, ReferenceIndex.mem_insert_self _ r, hforward, hbr, hsure _⟩)
        · have hmarks : (s.map.mark r.target
              { labelled := true, resolved := (s.map.marks r.target).start }).marks b =
              s.map.marks b := by
            rw [ByteMap.marks_mark, if_neg fun hmem => hbr hmem.1.symm]
          have hold : (s.map.marks b).labelled = true := hmarks ▸ hb
          refine (h.labels hold).mono (fun hstart => hmarks ▸ hstart)
            (congrArg Marks.isAnchored hmarks) fun q hq _ _ => ?_
          exact ⟨ReferenceIndex.mem_insert_of_mem r hq, hsure _⟩
      case sure => exact fun _ => hsure
      case agenda =>
        intro htrue
        rw [hguessing] at htrue
        cases htrue
    · exact h

lemma Noted.labelling (h : v.Noted i guessing s t) (hs : Labelling guessing s) :
    Labelling guessing t := by
  cases h with
  | code hnames hconfidence => exact hs.refer (by cases hnames <;> rfl) hconfidence
  | place hnames => exact hs.insert (sameLabels_refl s.map) _
  | slot _ _ _ _ hconfidence hslot =>
    obtain ⟨target, -, -, -, rfl⟩ := readSlot_eq_some hslot
    exact (hs.insert (sameLabels_markData s.map _ _) _).refer rfl hconfidence
  | halted => exact ⟨hs.mirrored, hs.labels, hs.sure, hs.agenda⟩
  | counted _ => exact ⟨hs.mirrored, hs.labels, hs.sure, hs.agenda⟩

/-- Laying down an instruction takes no reason away: relations are made at bytes that were decided
before. -/
lemma Labelling.laid (hv : v.Proper) (hexamine : v.examine s.map a = .ok (some i))
    (hsourced : v.Sourced s.map s.index) (h : Labelling guessing s) :
    Labelling guessing { s with map := markInstruction s.map a i guessing } where
  mirrored := h.mirrored
  labels {b} hb := by
    rw [labelled_markInstruction hexamine hv] at hb
    refine (h.labels hb).mono (fun hstart => ?_) ?_ fun r hr hforward hsure => ⟨hr, ?_⟩
    · rw [start_markInstruction hexamine hv, hstart, Bool.true_or]
    · obtain ⟨-, hentry, hanchor, -⟩ := @other_markInstruction v s.map a i guessing hexamine hv b
      exact congrArg₂ or hentry hanchor
    · have hsite : r.site ≠ a := by
        rintro rfl
        exact (hsourced r hr hforward).kind_site (examine_eq_some hexamine).1
      rw [suspicious_markInstruction hexamine hv, hsure, decide_eq_false hsite]
      rfl
  sure hguessing b := by
    rw [suspicious_markInstruction hexamine hv, h.sure hguessing, hguessing, Bool.and_false]
    rfl
  agenda := h.agenda

lemma grown_labelling (hv : v.Proper) (guessing : Bool) :
    v.Grown guessing fun s => v.Sourced s.map s.index ∧ Labelling guessing s where
  counted _ h := ⟨h.1, h.2.mirrored, h.2.labels, h.2.sure, h.2.agenda⟩
  laid hs hexamine h := ⟨(grown_sourced hv guessing).laid hs hexamine h.1, h.2.laid hv hexamine h.1⟩
  noted hs hi hnoted h := ⟨hnoted.sourced hv hs hi h.1, hnoted.labelling h.2⟩

/-- When a guess is taken, the second stage begins, and it never ends. -/
lemma Occasion.labelling (h : Occasion s purpose lead s₁) (hs : Labelling guessing s) :
    Labelling lead.confidence.isSpeculative s₁ := by
  obtain ⟨hmap, hindex, -⟩ := h.same
  constructor
  case mirrored => exact hindex ▸ hs.mirrored
  case labels =>
    intro b hb
    rw [hmap] at hb
    unfold State.Vouched
    rw [hmap, hindex]
    exact hs.labels hb
  case sure =>
    intro hlead
    have hguessing : guessing = false := by
      rw [Bool.eq_false_iff]
      intro hguessing
      rw [h.isSpeculative (hs.agenda hguessing)] at hlead
      cases hlead
    rw [hmap]
    exact hs.sure hguessing
  case agenda => exact h.speculative

lemma Attempted.labelling {failure : Option Failure} (hv : v.Proper)
    (h : v.Attempted s purpose lead t failure) (hsourced : v.Sourced s.map s.index)
    (hs : Labelling guessing s) :
    v.Sourced t.map t.index ∧ Labelling lead.confidence.isSpeculative t := by
  obtain ⟨s₁, hoccasion, hattempt⟩ := h.made
  obtain ⟨hmap, hindex, -⟩ := hoccasion.same
  refine (grown_labelling hv _).attempt hv (hmap ▸ h.sound) ⟨?_, hoccasion.labelling hs⟩ hattempt
  rw [hmap, hindex]
  exact hsourced

/-! ## Giving up -/

/-- A relation made outside the bytes in doubt stays, and so does what makes it. -/
lemma Warranted.stays (h : v.Warranted t.map t.index r) (hr : r ∈ t.index)
    (hsite : r.site ∉ t.doubt f) (hsure : (t.map.marks r.site).suspicious = false) :
    r ∈ (v.recover t f).index ∧ ((v.recover t f).map.marks r.site).suspicious = false := by
  constructor
  · rw [index_recover]
    exact ReferenceIndex.mem_eraseSites_of_not_mem hr hsite h.partner_isForward
  · have hsame := Cell.congr_of_unlabelled (fun c => c.marks.suspicious) Cell.suspicious_unlabelled
      (unlabelled_recover_of_not_mem v hsite)
    exact hsame.trans hsure

/-- Taking back what nothing refers to moves neither instructions nor anchors. -/
lemma marks_recover (v : Survey) (t : State) (f : Failure) (b : Address) :
    ((v.recover t f).map.marks b).start = ((t.map.clear (t.doubt f)).marks b).start ∧
      ((v.recover t f).map.marks b).isAnchored =
        ((t.map.clear (t.doubt f)).marks b).isAnchored := by
  have hcell := unlabelled_recover v t f b
  exact ⟨Cell.congr_of_unlabelled (fun c => c.marks.start) Cell.start_unlabelled hcell,
    Cell.congr_of_unlabelled (fun c => c.marks.isAnchored)
      (fun c => by simp [Cell.unlabelled, Cell.unmark, Marks.without, Marks.isAnchored]) hcell⟩

lemma marks_recover_eq (v : Survey) (hb : b ∉ t.doubt f) :
    ((v.recover t f).map.marks b).start = (t.map.marks b).start ∧
      ((v.recover t f).map.marks b).isAnchored = (t.map.marks b).isAnchored := by
  have hmarks := marks_recover v t f b
  rw [ByteMap.marks_clear, if_neg fun hmem => hb hmem.1] at hmarks
  exact hmarks

/-- A byte with a label was not in doubt, and had its label before. -/
lemma labelled_of_recover (hsever : t.map.Severable (t.doubt f))
    (h : ((v.recover t f).map.marks b).labelled = true) :
    b ∉ t.doubt f ∧ (t.map.marks b).labelled = true := by
  unfold ByteMap.marks at h
  rw [cell_recover] at h
  have hclear : ((t.map.clear (t.doubt f)).marks b).labelled = true := by
    split at h
    · rw [Cell.labelled_unlabelled] at h
      cases h
    · exact h
  rw [hsever.marks_clear] at hclear
  split at hclear
  · cases hclear
  · next hout => exact ⟨hout, hclear⟩

/-- What is in doubt after a guess was guessed: no relation made there vouches for anything. -/
lemma not_mem_doubt_of_sure (hsever : t.map.Severable (t.doubt f))
    (hr : v.Warranted t.map t.index r)
    (hguessed : ∀ a ∈ t.doubt f, (t.map.marks a).start = true → (t.map.marks a).suspicious = true)
    (hsure : (t.map.marks r.site).suspicious = false) : r.site ∉ t.doubt f := by
  intro hsite
  rw [hguessed _ hsite (hr.start_of_isCode (hsever.code hsite))] at hsure
  cases hsure

/-- **Giving up a guess leaves every byte as it is** that is not in doubt, its label included. -/
lemma Labelling.cell_recover (h : Labelling guessing t) (hsourced : v.Sourced t.map t.index)
    (hsever : t.map.Severable (t.doubt f))
    (hguessed : ∀ a ∈ t.doubt f, (t.map.marks a).start = true → (t.map.marks a).suspicious = true)
    (hb : b ∉ t.doubt f) : (v.recover t f).map.cell b = t.map.cell b := by
  have hclear : (t.map.clear (t.doubt f)).cell b = t.map.cell b := by
    rw [ByteMap.cell_clear, if_neg fun hmem => hb hmem.1]
  rw [Survey.cell_recover, hclear]
  split
  · next hfree =>
    refine Cell.unlabelled_eq_self (Bool.eq_false_iff.mpr fun hlabelled => ?_)
    have hfree := hfree.2
    simp only [isHeld, ByteMap.marks, hclear, Bool.or_eq_false_iff] at hfree
    obtain ⟨⟨hstart, hanchored⟩, hreferenced⟩ := hfree
    -- whatever is the reason for the label, it would still be there
    rcases h.labels hlabelled with hold | hold | ⟨r, hr, hforward, htarget, hsure⟩
    · rw [ByteMap.marks, hstart] at hold
      cases hold
    · rw [ByteMap.marks, hanchored] at hold
      cases hold
    · have hwarranted := hsourced r hr hforward
      have hsite := not_mem_doubt_of_sure hsever hwarranted hguessed hsure
      have hstays := ReferenceIndex.mem_eraseSites_of_not_mem hr hsite hwarranted.partner_isForward
      have hreferred :=
        (h.mirrored.eraseSites _).isReferenced_iff.mpr ⟨r, hstays, hforward, htarget⟩
      rw [hreferred] at hreferenced
      cases hreferenced
  · rfl

/-- **Giving up keeps every label vouched for.** -/
lemma Labelling.recover (h : Labelling guessing t) (hsourced : v.Sourced t.map t.index)
    (hsever : t.map.Severable (t.doubt f))
    (hguessed : guessing = true → ∀ a ∈ t.doubt f, (t.map.marks a).start = true →
      (t.map.marks a).suspicious = true) : Labelling guessing (v.recover t f) := by
  have hmirrored : (v.recover t f).index.Mirrored := by
    rw [index_recover]
    exact h.mirrored.eraseSites _
  have hsure : guessing = false → ∀ a, ((v.recover t f).map.marks a).suspicious = false := by
    intro hguessing a
    have hcell := unlabelled_recover v t f a
    have hsame := Cell.congr_of_unlabelled (fun c => c.marks.suspicious)
      Cell.suspicious_unlabelled hcell
    refine hsame.trans ?_
    have hclear := congrArg Marks.suspicious (hsever.marks_clear a)
    refine hclear.trans ?_
    split
    · rfl
    · exact h.sure hguessing a
  refine ⟨hmirrored,
    fun {b} hb => ?_, hsure, fun hguessing l hl => h.agenda hguessing l (leads_recover hl)⟩
  obtain ⟨hout, hlabelled⟩ := labelled_of_recover hsever hb
  obtain ⟨hstart, hanchored⟩ := marks_recover_eq v hout
  rcases h.labels hlabelled with hold | hold | ⟨r, hr, hforward, htarget, hrsure⟩
  · exact Or.inl (hstart.trans hold)
  · exact Or.inr (Or.inl (hanchored.trans hold))
  · have hwarranted := hsourced r hr hforward
    by_cases hsite : r.site ∈ t.doubt f
    · -- the relation goes, so the byte was looked at, and something else must hold it
      have hguessing : guessing = false := by
        rw [Bool.eq_false_iff]
        exact fun hguessing => not_mem_doubt_of_sure hsever hwarranted
          (hguessed hguessing) hrsure hsite
      have hheld : isHeld (t.map.clear (t.doubt f)) (t.index.eraseSites (t.doubt f)) b = true := by
        rw [← Bool.not_eq_false]
        intro hfree
        unfold ByteMap.marks at hb
        rw [Survey.cell_recover,
          if_pos ⟨⟨r, ReferenceIndex.mem_madeIn.mpr ⟨hr, hsite, hforward⟩, htarget⟩, hfree⟩,
          Cell.labelled_unlabelled] at hb
        cases hb
      rw [isHeld, Bool.or_eq_true, Bool.or_eq_true, ByteMap.marks_clear,
        if_neg fun hmem => hout hmem.1] at hheld
      rcases hheld with (hold | hold) | hreferenced
      · exact Or.inl (hstart.trans hold)
      · exact Or.inr (Or.inl (hanchored.trans hold))
      · obtain ⟨q, hq, hqforward, hqtarget⟩ :=
          (h.mirrored.eraseSites _).isReferenced_iff.mp hreferenced
        rw [← index_recover v] at hq
        exact Or.inr (Or.inr ⟨q, hq, hqforward, hqtarget, hsure hguessing _⟩)
    · obtain ⟨hstays, hsuspicious⟩ := hwarranted.stays hr hsite hrsure
      exact Or.inr (Or.inr ⟨r, hstays, hforward, htarget, hsuspicious⟩)

/-- What an attempt from a guess leaves in doubt was guessed. -/
lemma Attempted.suspicious_of_mem_doubt (hv : v.Proper) (h : v.Attempted s purpose lead t (some f))
    (hlead : lead.confidence.isSpeculative = true) (ha : a ∈ t.doubt f)
    (hstart : (t.map.marks a).start = true) :
    (t.map.marks a).suspicious = true := by
  obtain ⟨hguesses, -⟩ := h.guesses hv hlead
  obtain ⟨-, -, hfresh⟩ := h.doubt hv
  exact hguesses.guessed (ByteMap.isCode_of_unprocessed (hfresh a ha)) hstart

/-! ## The review -/

/-- **A review keeps every label vouched for**: the relations that go are made by guessed code. -/
lemma Labelling.review (hv : v.Proper) (hsound : v.Sound s.map) (h : Labelling guessing s)
    (hsourced : v.Sourced s.map s.index)
    (hmap : t.map = (CodeBlocks.review v.image v.decoder s.map s.index).map)
    (hindex : t.index = (CodeBlocks.review v.image v.decoder s.map s.index).index)
    (hagenda : t.agenda = s.agenda) : Labelling guessing t := by
  have hindex : t.index = ((CodeBlocks.guilty v s.map).foldl CodeBlocks.convict
      (s.map, s.index)).2 :=
    hindex.trans (congrArg CodeBlocks.Outcome.index (CodeBlocks.review_eq hv hsound.laid s.index))
  have hcell : ∀ b, t.map.cell b = if ∃ block ∈ CodeBlocks.guilty v s.map, b ∈ block then
    CodeBlocks.convicted
      else s.map.cell b := by
    rw [hmap]
    exact CodeBlocks.cell_review hv hsound.laid s.index
  have hsuspicious : ∀ a, (s.map.marks a).suspicious = false →
      (t.map.marks a).suspicious = false := by
    intro a ha
    unfold ByteMap.marks
    rw [hcell]
    split
    · rfl
    · exact ha
  constructor
  case mirrored =>
    rw [hindex]
    exact CodeBlocks.mirrored_foldl_convict h.mirrored
  case labels =>
    intro b hb
    have hsame : t.map.marks b = s.map.marks b := by
      unfold ByteMap.marks at hb ⊢
      rw [hcell] at hb ⊢
      split at hb
      · cases hb
      · next hout => rw [if_neg hout]
    rw [hsame] at hb
    refine (h.labels hb).mono (fun hstart => by rw [hsame, hstart]) (by rw [hsame])
      fun r hr hforward hsure => ?_
    refine ⟨?_, hsuspicious _ hsure⟩
    have hwarranted := hsourced r hr hforward
    rw [hindex]
    refine CodeBlocks.mem_foldl_convict hr (fun block hblock hsite => ?_)
      hwarranted.partner_isForward
    have hcode := (CodeBlocks.severable_guilty hv hsound block hblock).code hsite
    obtain ⟨i, hi⟩ := hsound.tiled.starts (hwarranted.start_of_isCode hcode)
    have hmem : r.site ∈ (⟨r.site, i.stop⟩ : Span) :=
      Span.mem_mk.mpr ⟨Nat.le_refl _, hv.lt_stop hi.reads⟩
    rw [CodeBlocks.suspicious_of_mem_guilty hv hsound.laid hi hmem ⟨block, hblock, hsite⟩] at hsure
    cases hsure
  case sure => exact fun hguessing a => hsuspicious a (h.sure hguessing a)
  case agenda =>
    intro hguessing
    rw [hagenda]
    exact h.agenda hguessing

/-! ## Whole surveys -/

/-- Every relation is warranted and every label is vouched for. -/
def Accounted (v : Survey) (s : State) : Prop :=
  v.Sourced s.map s.index ∧ ∃ guessing, Labelling guessing s

lemma maintained_accounted (hv : v.Proper) : v.Maintained v.Accounted where
  frame := by
    rintro s t ⟨hsourced, guessing, h⟩ hmap hindex hleads
    refine ⟨(maintained_sourced hv).frame hsourced hmap hindex hleads, guessing, ?_⟩
    refine h.grow (hmap ▸ sameLabels_refl s.map) (hindex ▸ h.mirrored) (fun r hr => hindex ▸ hr) ?_
    exact fun hguessing l hl => h.agenda hguessing l (hleads l hl)
  attempt := by
    rintro s t purpose lead failure hmade ⟨hsourced, guessing, h⟩
    obtain ⟨hsourced', h'⟩ := hmade.labelling hv hsourced h
    exact ⟨hsourced', _, h'⟩
  recover := by
    rintro s t purpose lead f hmade ⟨hsourced, guessing, h⟩
    obtain ⟨hsourced', h'⟩ := hmade.labelling hv hsourced h
    obtain ⟨-, hsever, -⟩ := hmade.doubt hv
    exact ⟨sourced_recover hsever (coverage_recover _ _ _) hsourced', _,
      h'.recover hsourced' hsever fun hlead a ha => hmade.suspicious_of_mem_doubt hv hlead ha⟩
  tables := by
    rintro s scan hsound hscan ⟨hsourced, guessing, h⟩
    refine ⟨(maintained_sourced hv).tables hsound hscan hsourced, guessing, ?_⟩
    refine h.grow (sameLabels_of_fills (fills_noteTables hv hscan)) ?_ (fun r hr => ?_) h.agenda
    · exact PointerTables.index_detect hv.placed hscan h.mirrored fun r hx => hx.insert r
    · exact PointerTables.index_detect (Q := fun x => r ∈ x) hv.placed hscan hr
        fun q hx => ReferenceIndex.mem_insert_of_mem q hx
  strings := by
    rintro s hsound ⟨hsourced, guessing, h⟩
    exact ⟨(maintained_sourced hv).strings hsound hsourced, guessing,
      h.fill (fills_finalizeStrings v s) rfl (reviewed_finalizeStrings v s).agenda⟩
  code := by
    rintro s hsound hagenda ⟨hsourced, guessing, h⟩
    exact ⟨(maintained_sourced hv).code hsound hagenda hsourced, guessing,
      h.review hv hsound hsourced (map_finalizeCode v s).1 (map_finalizeCode v s).2
        (reviewed_finalizeCode hv hsound).agenda⟩
  rest := by
    rintro s hsound ⟨hsourced, guessing, h⟩
    exact ⟨(maintained_sourced hv).rest hsound hsourced, guessing,
      h.fill (fills_finalizeRest s) rfl (reviewed_finalizeRest v s).agenda⟩

/-- The byte is no guess, and has no label unless it is an anchor. -/
def Untouched (f : Marks) : Prop := f.suspicious = false ∧ (f.labelled = true → f.isAnchored = true)

/-- In the first state the anchors have labels, nothing else has, and nothing is a guess. -/
lemma untouched_start (v : Survey) (a : Address) : Untouched (v.start.map.marks a) := by
  refine @cell_start_induction (fun _ c => Untouched c.marks) v (fun a => ?_) (fun a c hc => ?_)
    (fun a c hc => ?_) a
  · split <;> exact ⟨rfl, nofun⟩
  · exact ⟨by simp [Cell.mark, hc.1], fun _ => by simp [Cell.mark, Marks.isAnchored]⟩
  · exact ⟨by simp [Cell.mark, hc.1], fun _ => by simp [Cell.mark, Marks.isAnchored]⟩

/-- **All through a survey** every relation is warranted and every label is vouched for. -/
lemma Reachable.accounted (hv : v.Proper) (hs : v.Reachable s) : v.Accounted s := by
  refine (maintained_accounted hv).reachable hv ⟨Reachable.sourced hv .refl, false, ?_⟩ hs
  have hmarks := untouched_start v
  obtain ⟨map, agenda, hstart⟩ := exists_start_eq v
  rw [hstart] at hmarks ⊢
  exact ⟨ReferenceIndex.mirrored_empty, fun {b} hb => Or.inr (Or.inl ((hmarks b).2 hb)),
    fun _ a => (hmarks a).1, nofun⟩

end Survey

end CodeSift
