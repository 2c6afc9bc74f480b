import CodeSift.Proofs.Upkeep

/-!
# The marks of a byte agree with each other

The marks of a byte are set and taken back at different times: a label may come before the
instruction it points at, or after it, and it may go while the instruction stays away.  All through
a survey they agree (`Cell.Coherent`): only the start of an instruction is suspicious, a label
counts as resolved exactly when an instruction starts there, and a byte has a class of data exactly
when it is data.

Whatever a survey does to a byte is one of a few writes, and each of them keeps the marks coherent.
The two that could break the agreement are guarded where they are made.  A label that is set where
an instruction starts is set as resolved, and a label is taken back only where no instruction
starts.
-/

namespace CodeSift

namespace Marks

@[simp] lemma resolved_or (f g : Marks) : (f ||| g).resolved = (f.resolved || g.resolved) := rfl

end Marks

namespace Cell

variable {c : Cell}

/-- The marks of the byte agree with each other and with its class. -/
structure Coherent (c : Cell) : Prop where
  suspicious : c.marks.suspicious = true → c.marks.start = true
  resolved : c.marks.resolved = (c.marks.start && c.marks.labelled)
  dataClass : c.dataClass ≠ .none ↔ c.marks.data = true

namespace Coherent

lemma fresh : Cell.fresh.Coherent := ⟨nofun, rfl, by decide⟩

lemma outside : Cell.outside.Coherent := ⟨nofun, rfl, by decide⟩

/-- A byte may become data of any class there is. -/
lemma asData (h : c.Coherent) {cls : DataClass} (hcls : cls ≠ .none) :
    (Cell.asData cls c).Coherent where
  suspicious := by simpa [Cell.asData] using h.suspicious
  resolved := by simpa [Cell.asData] using h.resolved
  dataClass := by simp [Cell.asData, hcls]

/-- Marks may be added that make nothing suspicious and no data, if labels stay resolved where
instructions start. -/
lemma mark (h : c.Coherent) {f : Marks} (hsuspicious : f.suspicious = false)
    (hdata : f.data = false) (hresolved : (c.marks.resolved || f.resolved) =
      ((c.marks.start || f.start) && (c.marks.labelled || f.labelled))) : (c.mark f).Coherent where
  suspicious hc := by
    simp only [Cell.mark, Marks.suspicious_or, hsuspicious, Bool.or_false] at hc
    simp [Cell.mark, h.suspicious hc]
  resolved := hresolved
  dataClass := by simpa [Cell.mark, hdata] using h.dataClass

/-- An instruction may come to start at the byte; a label that is there is resolved then. -/
lemma markStart (h : c.Coherent) (suspicious : Bool) :
    (c.mark { start := true, suspicious, resolved := c.marks.labelled }).Coherent where
  suspicious _ := by simp [Cell.mark]
  resolved := by
    have hresolved := h.resolved
    cases hlabelled : c.marks.labelled <;> simp_all [Cell.mark]
  dataClass := by simpa [Cell.mark] using h.dataClass

/-- A label may be set, as resolved when an instruction starts at the byte. -/
lemma markLabel (h : c.Coherent) {known : Bool} (hknown : known = c.marks.start) :
    (c.mark { labelled := true, resolved := known }).Coherent := by
  apply h.mark rfl rfl
  rw [h.resolved, hknown]
  cases c.marks.start <;> simp

/-- A label may go where no instruction starts. -/
lemma unlabelled (h : c.Coherent) (hstart : c.marks.start = false) : c.unlabelled.Coherent where
  suspicious := by simpa using h.suspicious
  resolved := by
    have hresolved := h.resolved
    simp_all [Cell.unlabelled, Cell.unmark, Marks.without]
  dataClass := by simpa using h.dataClass

end Coherent

end Cell

namespace Survey

variable {v : Survey} {s t : State} {a : Address} {i : Instruction} {suspicious : Bool}
  {m m' : ByteMap}

/-- The marks of every byte agree. -/
def Coherent (m : ByteMap) : Prop := ∀ a, (m.cell a).Coherent

/-! ## Attempts -/

lemma Coherent.markData (h : Coherent m) (span : Span) {cls : DataClass} (hcls : cls ≠ .none) :
    Coherent (m.markData span cls) := by
  intro a
  rw [ByteMap.cell_markData]
  split
  · exact (h a).asData hcls
  · exact h a

lemma Coherent.markInstruction (hv : v.Proper) (hexamine : v.examine m a = .ok (some i))
    (suspicious : Bool) (h : Coherent m) : Coherent (markInstruction m a i suspicious) := by
  intro b
  rw [cell_markInstruction hexamine hv]
  split
  · next hba =>
    subst hba
    exact (h b).markStart suspicious
  · split
    · exact (h b).mark rfl rfl (by simp [(h b).resolved])
    · exact h b

lemma Coherent.refer (h : Coherent s.map) (confidence : Confidence) (r : CrossReference) :
    Coherent (v.refer confidence s r).map := by
  unfold Survey.refer
  split
  · dsimp only
    split
    · exact h
    · intro b
      rw [ByteMap.cell_mark]
      split
      · next hb => exact (h b).markLabel (by rw [hb.1, ByteMap.marks])
      · exact h b
  · exact h

lemma Noted.coherent (hnoted : v.Noted i suspicious s t) (h : Coherent s.map) : Coherent t.map := by
  cases hnoted with
  | code => exact h.refer _ _
  | place => exact h
  | slot _ _ _ _ _ hslot =>
    obtain ⟨target, -, -, -, rfl⟩ := readSlot_eq_some hslot
    exact Coherent.refer (s := { s with map := s.map.markData _ .pointerTable, index := _ })
      (h.markData _ (by decide)) _ _
  | halted => exact h
  | counted => exact h

lemma grown_coherent (hv : v.Proper) (suspicious : Bool) :
    v.Grown suspicious fun s => Coherent s.map where
  counted _ h := h
  laid _ hexamine h := h.markInstruction hv hexamine suspicious
  noted _ _ hnoted h := hnoted.coherent h

/-! ## Giving up, and the last step -/

/-- A label goes only where no instruction starts, since an instruction holds it. -/
lemma Coherent.recover (h : Coherent t.map) (v : Survey) (f : Failure) :
    Coherent (v.recover t f).map := by
  have hclear : Coherent (t.map.clear (t.doubt f)) := by
    intro b
    rw [ByteMap.cell_clear]
    split
    · exact Cell.Coherent.fresh
    · exact h b
  intro b
  rw [cell_recover]
  split
  · next hfree =>
    refine (hclear b).unlabelled ?_
    have hheld := hfree.2
    simp only [isHeld, Bool.or_eq_false_iff] at hheld
    exact hheld.1.1
  · exact hclear b

lemma Coherent.fill (h : Coherent m) (hfills : m.Fills m') : Coherent m' := by
  intro b
  rcases hfills.cell b with hsame | ⟨-, cls, hcls, hdata⟩
  · exact hsame ▸ h b
  · exact hdata ▸ (h b).asData hcls

lemma Coherent.review (hv : v.Proper) (hm : v.Sound m) (h : Coherent m) (index : ReferenceIndex) :
    Coherent (CodeBlocks.review v.image v.decoder m index).map := by
  intro b
  rw [CodeBlocks.cell_review hv hm.laid]
  split
  · exact Cell.Coherent.fresh.asData (by decide)
  · exact h b

/-! ## Whole surveys -/

/-- **Marks that agree go on agreeing.** -/
lemma maintained_coherent (hv : v.Proper) : v.Maintained fun s => Coherent s.map where
  frame h hmap _ _ := hmap ▸ h
  attempt hmade h := hmade.grown (P := fun s => Coherent s.map) hv (grown_coherent hv _)
    fun _ hmap _ _ => hmap ▸ h
  recover hmade h := by
    apply Coherent.recover
    exact hmade.grown (P := fun s => Coherent s.map) hv (grown_coherent hv _)
      fun _ hmap _ _ => hmap ▸ h
  tables _ hscan h := h.fill (fills_noteTables hv hscan)
  strings {s} _ h := h.fill (fills_finalizeStrings v s)
  code {s} hsound _ h := by
    rw [(map_finalizeCode v s).1]
    exact h.review hv hsound s.index
  rest {s} _ h := h.fill (fills_finalizeRest s)

/-- The anchors of the first state have labels, and no instruction starts anywhere. -/
lemma coherent_start (v : Survey) : Coherent v.start.map := by
  intro a
  refine (@cell_start_induction (fun _ c => c.Coherent ∧ c.marks.start = false) v
    (fun a => ?_) ?_ ?_ a).1
  · split
    · exact ⟨.fresh, rfl⟩
    · exact ⟨.outside, rfl⟩
  · rintro a c ⟨h, hstart⟩
    exact ⟨h.mark rfl rfl (by simp [h.resolved, hstart]), by simp [Cell.mark, hstart]⟩
  · rintro a c ⟨h, hstart⟩
    exact ⟨h.mark rfl rfl (by simp [h.resolved, hstart]), by simp [Cell.mark, hstart]⟩

lemma Reachable.coherent (hv : v.Proper) (hs : v.Reachable s) : Coherent s.map :=
  (maintained_coherent hv).reachable hv (coherent_start v) hs

/-- **The marks of every byte agree**, in every state of a survey, the last one included.  Where
something is suspicious an instruction starts; a label is resolved exactly when an instruction
starts at the labelled byte; and a byte has a class of data exactly when it is marked as data. -/
theorem marks_are_coherent {file : Array UInt8} {layout : Layout}
    (hload : Image.load file layout = .ok v.image) (hdecoder : v.decoder.Faithful)
    (hs : v.Reachable s) (a : Address) :
    ((s.map.marks a).suspicious = true → (s.map.marks a).start = true) ∧
    ((s.map.marks a).resolved = true ↔
      (s.map.marks a).start = true ∧ (s.map.marks a).labelled = true) ∧
    (s.map.dataClass a ≠ .none ↔ (s.map.marks a).data = true) := by
  have hv : v.Proper := ⟨Image.placed_of_load hload, hdecoder⟩
  have hcoherent := hs.coherent hv a
  refine ⟨hcoherent.suspicious, ?_, hcoherent.dataClass⟩
  rw [ByteMap.marks, hcoherent.resolved, Bool.and_eq_true]

/-- Before the last step of the small survey with guesses, the code at the first guess is
suspicious, the target of the jump is labelled, and its table is data. -/
theorem marks_are_coherent_guessing :
    Image.load guessFile guessImage.layout = .ok guessing.image ∧
      ((guessing.stateAt (fun _ => false) 4).map.marks 0x101c).suspicious = true ∧
      ((guessing.stateAt (fun _ => false) 4).map.marks 0x101c).start = true ∧
      ((guessing.stateAt (fun _ => false) 4).map.marks 0x1010).labelled = true ∧
      ((guessing.stateAt (fun _ => false) 4).map.marks 0x1010).resolved = true ∧
      (guessing.stateAt (fun _ => false) 4).map.dataClass 0x1008 = .pointerTable ∧
      ((guessing.stateAt (fun _ => false) 4).map.marks 0x1008).data = true := by
  have hload : Image.load guessFile guessImage.layout = .ok guessing.image := by decide +kernel
  have hsuspicious : ((guessing.stateAt (fun _ => false) 4).map.marks 0x101c).suspicious =
      true := by
    decide +kernel
  have hstart : ((guessing.stateAt (fun _ => false) 4).map.marks 0x1010).start = true := by
    decide +kernel
  have hlabelled : ((guessing.stateAt (fun _ => false) 4).map.marks 0x1010).labelled = true := by
    decide +kernel
  have hclass : (guessing.stateAt (fun _ => false) 4).map.dataClass 0x1008 = .pointerTable := by
    decide +kernel
  have hcoherent := marks_are_coherent hload (Decoder.faithful_x86 .bits32 guessImage.span)
    (reachable_stateAt guessing (fun _ => false) 4)
  refine ⟨hload, hsuspicious, (hcoherent 0x101c).1 hsuspicious, hlabelled,
    (hcoherent 0x1010).2.1.mpr ⟨hstart, hlabelled⟩, hclass, (hcoherent 0x1008).2.2.mp ?_⟩
  rw [hclass]
  decide

end Survey

end CodeSift
