import CodeSift.Proofs.Anchors
import CodeSift.Proofs.Labels

/-!
# Nothing is left without a reason

An address comes to wait because code refers to it, and a byte gets its label for the same reason.
The code may be given up later.  What only it referred to is then taken back, so that nothing waits
and nothing keeps a label without a reason: an instruction that starts there, an anchor, or a
relation of the index that leads there (`State.Wanted`).

For labels the reason is found in `Labels`.  For the agenda the argument is one about single
attempts.  What waited before an attempt because of an instruction or an anchor keeps that reason,
since giving up clears only bytes that were undecided before.  Whatever else waits afterwards does
so because of a relation; if that relation goes, its target is looked at, and is taken off the
agenda unless something holds it.  The review does drop relations without taking anything back, but
no address waits by then.
-/

namespace CodeSift

namespace Survey

variable {v : Survey} {s t : State} {a : Address} {i : Instruction} {f : Failure}
  {purpose : Purpose} {lead : Lead} {suspicious : Bool} {confidence : Confidence}
  {r : CrossReference} {held : Address → Prop}

/-- The address has a reason of its own: an instruction starts there, or it is an anchor. -/
def HeldIn (m : ByteMap) (a : Address) : Prop :=
  (m.marks a).start = true ∨ (m.marks a).isAnchored = true

/-- Code refers to the address. -/
def State.Referred (s : State) (a : Address) : Prop :=
  ∃ r ∈ s.index, r.isForward = true ∧ r.target = a

/-- There is a reason to look at the address. -/
def State.Wanted (s : State) (a : Address) : Prop := HeldIn s.map a ∨ s.Referred a

lemma State.Referred.mono (h : s.Referred a) (hindex : ∀ r ∈ s.index, r ∈ t.index) :
    t.Referred a := by
  obtain ⟨r, hr, hforward, htarget⟩ := h
  exact ⟨r, hindex r hr, hforward, htarget⟩

/-- What vouches for a label is a reason to look at it. -/
lemma State.Vouched.wanted (h : s.Vouched a) : s.Wanted a := by
  rcases h with hstart | hanchored | ⟨r, hr, hforward, htarget, -⟩
  · exact Or.inl (Or.inl hstart)
  · exact Or.inl (Or.inr hanchored)
  · exact Or.inr ⟨r, hr, hforward, htarget⟩

lemma State.Wanted.referred (h : s.Wanted a) (hstart : (s.map.marks a).start = false)
    (hanchored : (s.map.marks a).isAnchored = false) : s.Referred a := by
  refine h.resolve_left ?_
  simp [HeldIn, hstart, hanchored]

/-! ## Attempts -/

/-- What waits is held, for a reason that does not change, or referred to. -/
def State.Sought (held : Address → Prop) (s : State) : Prop :=
  ∀ a, s.agenda.contains a = true → held a ∨ s.Referred a

lemma State.Sought.mono (h : s.Sought held)
    (hagenda : ∀ a, t.agenda.contains a = true → s.agenda.contains a = true)
    (hindex : ∀ r ∈ s.index, r ∈ t.index) : t.Sought held := by
  intro a ha
  exact (h a (hagenda a ha)).imp_right fun hreferred => hreferred.mono hindex

/-- **An address comes to wait together with a relation to it.** -/
lemma State.Sought.refer (h : s.Sought held) (hforward : r.isForward = true) :
    (v.refer confidence s r).Sought held := by
  have hindex : ∀ q ∈ s.index, q ∈ s.index.insert r :=
    fun _ hq => ReferenceIndex.mem_insert_of_mem r hq
  intro a ha
  unfold Survey.refer at ha ⊢
  split at ha
  · next hadmits =>
    rw [if_pos hadmits]
    have hwaited : a = r.target ∨ s.agenda.contains a = true := by
      dsimp only at ha
      split at ha
      · exact Or.inr ha
      · exact Agenda.contains_push.mp ha
    rcases hwaited with rfl | hold
    · exact Or.inr ⟨r, ReferenceIndex.mem_insert_self _ r, hforward, rfl⟩
    · exact (h a hold).imp_right fun hreferred => hreferred.mono hindex
  · next hrefused =>
    rw [if_neg hrefused]
    exact h a ha

lemma Noted.sought (hnoted : v.Noted i suspicious s t) (h : s.Sought held) : t.Sought held := by
  cases hnoted with
  | code hnames => exact h.refer (by cases hnames <;> rfl)
  | place => exact h.mono (fun _ => id) fun _ hq => ReferenceIndex.mem_insert_of_mem _ hq
  | slot _ _ _ _ _ hslot =>
    obtain ⟨target, -, -, -, rfl⟩ := readSlot_eq_some hslot
    apply State.Sought.refer _ rfl
    exact h.mono (fun _ => id) fun _ hq => ReferenceIndex.mem_insert_of_mem _ hq
  | halted => exact h
  | counted => exact h

lemma grown_sought (v : Survey) (suspicious : Bool) (held : Address → Prop) :
    v.Grown suspicious (State.Sought held) where
  counted _ h := h
  laid _ _ h := h
  noted _ _ hnoted h := hnoted.sought h

/-- Instructions that start somewhere, and anchors, stay where they are during an attempt. -/
lemma grown_stays (hv : v.Proper) (suspicious : Bool) (m : ByteMap) (a : Address) :
    v.Grown suspicious fun s => ((m.marks a).start = true → (s.map.marks a).start = true) ∧
      (s.map.marks a).isAnchored = (m.marks a).isAnchored where
  counted _ h := h
  laid _ hexamine h := by
    obtain ⟨-, hentry, hanchor, -⟩ := @other_markInstruction v _ _ _ suspicious hexamine hv a
    refine ⟨fun hstart => ?_, ?_⟩
    · rw [start_markInstruction hexamine hv, h.1 hstart, Bool.true_or]
    · rw [← h.2]
      exact congrArg₂ or hentry hanchor
  noted hs _ hnoted h := by
    have hkeeps := hnoted.keeps hv hs
    refine ⟨fun hstart => ?_, ?_⟩
    · rw [hkeeps.start, h.1 hstart]
    · rw [← h.2]
      exact congrArg₂ or (hkeeps.entry a) (hkeeps.anchor a)

lemma Attempted.stays {failure : Option Failure} (hv : v.Proper)
    (h : v.Attempted s purpose lead t failure) (a : Address) :
    ((s.map.marks a).start = true → (t.map.marks a).start = true) ∧
      (t.map.marks a).isAnchored = (s.map.marks a).isAnchored := by
  refine h.grown hv (grown_stays hv _ s.map a) fun s₁ hmap _ _ => ?_
  rw [hmap]
  exact ⟨id, rfl⟩

lemma Attempted.heldIn {failure : Option Failure} (hv : v.Proper)
    (h : v.Attempted s purpose lead t failure) (ha : HeldIn s.map a) : HeldIn t.map a := by
  obtain ⟨hstart, hanchored⟩ := h.stays hv a
  exact ha.imp hstart fun hold => hanchored.trans hold

/-- After an attempt every waiting address has a reason of its own from before, or is referred
to. -/
lemma Attempted.sought {failure : Option Failure} (hv : v.Proper)
    (h : v.Attempted s purpose lead t failure) (hs : s.Sought held) : t.Sought held := by
  refine h.grown hv (grown_sought v _ held) fun s₁ _ hindex hleads => ?_
  exact hs.mono (fun _ => Agenda.contains_mono hleads) fun r hr => hindex ▸ hr

/-! ## Giving up -/

/-- **A reason of its own from before an attempt outlasts its giving up**: the bytes in doubt were
undecided before, and no anchor is among them. -/
lemma Attempted.heldIn_recover (hv : v.Proper) (h : v.Attempted s purpose lead t (some f))
    (ha : HeldIn s.map a) : HeldIn (v.recover t f).map a := by
  obtain ⟨-, hsever, hfresh⟩ := h.doubt hv
  have hout : a ∉ t.doubt f := by
    intro hmem
    rcases ha with hstart | hanchored
    · rw [(ByteMap.kind_eq_unprocessed_iff.mp (hfresh a hmem)).1] at hstart
      cases hstart
    · rw [← (h.stays hv a).2, hsever.free hmem] at hanchored
      cases hanchored
  obtain ⟨hstart, hanchored⟩ := marks_recover_eq v hout
  exact (h.heldIn hv ha).imp hstart.trans hanchored.trans

/-- **Giving up an attempt leaves nothing waiting without a reason.** -/
lemma Attempted.sought_recover (hv : v.Proper) (h : v.Attempted s purpose lead t (some f))
    (hmirrored : t.index.Mirrored) (hsourced : v.Sourced t.map t.index)
    (hs : s.Sought (HeldIn s.map)) :
    (v.recover t f).Sought (HeldIn (v.recover t f).map) := by
  intro a ha
  obtain ⟨hwaited, hkept⟩ := contains_recover.mp ha
  rcases h.sought hv hs a hwaited with hheld | ⟨r, hr, hforward, htarget⟩
  · exact Or.inl (h.heldIn_recover hv hheld)
  · by_cases hsite : r.site ∈ t.doubt f
    · -- the relation goes, so the address was looked at, and something else must hold it
      have hlooked : ∃ q ∈ t.index.madeIn (t.doubt f), q.target = a :=
        ⟨r, ReferenceIndex.mem_madeIn.mpr ⟨hr, hsite, hforward⟩, htarget⟩
      have hheld : isHeld (t.map.clear (t.doubt f)) (t.index.eraseSites (t.doubt f)) a = true := by
        rw [← Bool.not_eq_false]
        exact fun hfree => hkept ⟨hlooked, hfree⟩
      obtain ⟨hstart, hanchored⟩ := marks_recover v t f a
      rw [isHeld, Bool.or_eq_true, Bool.or_eq_true] at hheld
      rcases hheld with hheld | hreferenced
      · exact Or.inl (hheld.imp hstart.trans hanchored.trans)
      · obtain ⟨q, hq, hqforward, hqtarget⟩ :=
          (hmirrored.eraseSites _).isReferenced_iff.mp hreferenced
        rw [← index_recover v] at hq
        exact Or.inr ⟨q, hq, hqforward, hqtarget⟩
    · have hstays := ReferenceIndex.mem_eraseSites_of_not_mem hr hsite
        (hsourced r hr hforward).partner_isForward
      rw [← index_recover v] at hstays
      exact Or.inr ⟨r, hstays, hforward, htarget⟩

/-! ## Whole surveys -/

/-- The passes of the last step find an empty agenda, but they would let nothing wait in any
case. -/
lemma State.Sought.keeps (h : s.Sought (HeldIn s.map)) (hkeeps : s.map.Keeps t.map)
    (hagenda : t.agenda = s.agenda) (hindex : ∀ r ∈ s.index, r ∈ t.index) :
    t.Sought (HeldIn t.map) := by
  intro a ha
  rw [hagenda] at ha
  refine (h a ha).imp (fun hheld => ?_) fun hreferred => hreferred.mono hindex
  unfold HeldIn Marks.isAnchored
  rw [hkeeps.start, hkeeps.entry, hkeeps.anchor]
  exact hheld

/-- **What waits goes on having a reason.** -/
lemma maintained_sought (hv : v.Proper) :
    v.Maintained fun s => v.Accounted s ∧ s.Sought (HeldIn s.map) where
  frame := by
    rintro s t ⟨haccounted, h⟩ hmap hindex hleads
    refine ⟨(maintained_accounted hv).frame haccounted hmap hindex hleads, ?_⟩
    rw [hmap]
    exact h.mono (fun _ => Agenda.contains_mono hleads) fun r hr => hindex ▸ hr
  attempt := by
    rintro s t purpose lead failure hmade ⟨haccounted, h⟩
    refine ⟨(maintained_accounted hv).attempt hmade haccounted, fun a ha => ?_⟩
    exact (hmade.sought hv h a ha).imp_left fun hheld => hmade.heldIn hv hheld
  recover := by
    rintro s t purpose lead f hmade ⟨haccounted, h⟩
    obtain ⟨hsourced, stage, hlabelling⟩ := (maintained_accounted hv).attempt hmade haccounted
    exact ⟨(maintained_accounted hv).recover hmade haccounted,
      hmade.sought_recover hv hlabelling.mirrored hsourced h⟩
  tables := by
    rintro s scan hsound hscan ⟨haccounted, h⟩
    refine ⟨(maintained_accounted hv).tables hsound hscan haccounted, ?_⟩
    refine h.keeps (keeps_noteTables hv hscan) rfl fun r hr => ?_
    exact PointerTables.index_detect (Q := fun x => r ∈ x) hv.placed hscan hr
      fun q hx => ReferenceIndex.mem_insert_of_mem q hx
  strings := by
    rintro s hsound ⟨haccounted, h⟩
    exact ⟨(maintained_accounted hv).strings hsound haccounted,
      h.keeps (fills_finalizeStrings v s).keeps (reviewed_finalizeStrings v s).agenda fun _ => id⟩
  code := by
    rintro s hsound hempty ⟨haccounted, -⟩
    refine ⟨(maintained_accounted hv).code hsound hempty haccounted, fun a ha => ?_⟩
    rw [(reviewed_finalizeCode hv hsound).agenda, hempty] at ha
    cases ha
  rest := by
    rintro s hsound ⟨haccounted, h⟩
    exact ⟨(maintained_accounted hv).rest hsound haccounted,
      h.keeps (fills_finalizeRest s).keeps (reviewed_finalizeRest v s).agenda fun _ => id⟩

/-- In the first state the anchors wait, and nothing else does. -/
lemma sought_start (v : Survey) : v.start.Sought (HeldIn v.start.map) := by
  intro a ha
  obtain ⟨hexecutable, hplace⟩ := contains_start.mp ha
  refine Or.inl (Or.inr ?_)
  rw [Marks.isAnchored, Bool.or_eq_true]
  rcases hplace with hentry | hexport
  · exact Or.inl ((mark_start Marks.entry_or rfl rfl rfl v a).mpr
      ⟨hexecutable, Or.inl ⟨rfl, hentry⟩⟩)
  · exact Or.inr ((mark_start Marks.anchor_or rfl rfl rfl v a).mpr
      ⟨hexecutable, Or.inr ⟨rfl, hexport⟩⟩)

lemma Reachable.sought (hv : v.Proper) (hs : v.Reachable s) : s.Sought (HeldIn s.map) :=
  ((maintained_sought hv).reachable hv ⟨Reachable.accounted hv .refl, sought_start v⟩ hs).2

/-- **No orphaned work, and no orphaned labels.**  In every state of a survey, the last one
included, an address that waits and a byte that has a label is the target of a relation of the
index, unless an instruction starts there or it is an anchor. -/
theorem nothing_is_orphaned {file : Array UInt8} {layout : Layout}
    (hload : Image.load file layout = .ok v.image) (hdecoder : v.decoder.Faithful)
    (hs : v.Reachable s) :
    (∀ a, s.agenda.contains a = true → (s.map.marks a).start = false →
      (s.map.marks a).isAnchored = false →
      ∃ r ∈ s.index, r.isForward = true ∧ r.target = a) ∧
    (∀ a, (s.map.marks a).labelled = true → (s.map.marks a).start = false →
      (s.map.marks a).isAnchored = false → ∃ r ∈ s.index, r.isForward = true ∧ r.target = a) := by
  have hv : v.Proper := ⟨Image.placed_of_load hload, hdecoder⟩
  refine ⟨fun a hwaits => ?_, fun a hlabelled => ?_⟩
  · exact State.Wanted.referred (hs.sought hv a hwaits)
  · obtain ⟨-, stage, hlabelling⟩ := hs.accounted hv
    exact (hlabelling.labels hlabelled).wanted.referred

/-- After the first step of the small survey with guesses, the target of the jump waits and has a
label, and after the second one the two guesses wait. -/
theorem nothing_is_orphaned_guessing :
    Image.load guessFile guessImage.layout = .ok guessing.image ∧
      (guessing.stateAt (fun _ => false) 1).agenda.contains 0x1010 = true ∧
      (∃ r ∈ (guessing.stateAt (fun _ => false) 1).index, r.isForward = true ∧ r.target = 0x1010) ∧
      (guessing.stateAt (fun _ => false) 2).agenda.contains 0x101c = true ∧
      ∃ r ∈ (guessing.stateAt (fun _ => false) 2).index, r.isForward = true ∧
        r.target = 0x101c := by
  have hload : Image.load guessFile guessImage.layout = .ok guessing.image := by decide +kernel
  have hfaithful := Decoder.faithful_x86 .bits32 guessImage.span
  have hlabelled : ((guessing.stateAt (fun _ => false) 1).map.marks 0x1010).labelled = true ∧
      ((guessing.stateAt (fun _ => false) 1).map.marks 0x1010).start = false ∧
      ((guessing.stateAt (fun _ => false) 1).map.marks 0x1010).isAnchored = false := by
    decide +kernel
  have hwaits : (guessing.stateAt (fun _ => false) 2).agenda.contains 0x101c = true ∧
      ((guessing.stateAt (fun _ => false) 2).map.marks 0x101c).start = false ∧
      ((guessing.stateAt (fun _ => false) 2).map.marks 0x101c).isAnchored = false := by
    decide +kernel
  have hfirst := nothing_is_orphaned hload hfaithful (reachable_stateAt guessing (fun _ => false) 1)
  have hsecond :=
    nothing_is_orphaned hload hfaithful (reachable_stateAt guessing (fun _ => false) 2)
  exact ⟨hload, by decide +kernel, hfirst.2 _ hlabelled.1 hlabelled.2.1 hlabelled.2.2, hwaits.1,
    hsecond.1 _ hwaits.1 hwaits.2.1 hwaits.2.2⟩

end Survey

end CodeSift
