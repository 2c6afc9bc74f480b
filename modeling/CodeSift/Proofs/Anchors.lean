import CodeSift.Proofs.Reachability

/-!
# Anchors survive

The entry point and the exported functions are anchors, as far as they are executable.  They are
marked in the first state, and no step of a survey makes or unmakes one, decodes an instruction over
one, or gives up an instruction that starts at one (`anchors_survive`).
-/

namespace CodeSift

namespace Survey

variable {v : Survey} {s t : State} {a b : Address}

/-! ## The anchors of the first state -/

lemma marks_anchor (hs : s.map.coverage = (ByteMap.ofImage v.image).coverage) (marks : Marks)
    (confidence : Confidence) (a b : Address) :
    (v.anchor marks confidence s b).map.marks a =
      if a = b ∧ v.image.isExecutable a = true then
        s.map.marks a ||| (marks ||| { labelled := true })
      else s.map.marks a := by
  unfold anchor
  split
  · next hexecutable =>
    have hcontains : s.map.contains b = true := by
      rw [ByteMap.contains_congr hs]
      exact ByteMap.contains_ofImage_of_isExecutable hexecutable
    dsimp only
    rw [ByteMap.marks_mark]
    refine if_congr ⟨?_, ?_⟩ rfl rfl
    · rintro ⟨rfl, -⟩
      exact ⟨rfl, hexecutable⟩
    · rintro ⟨rfl, -⟩
      exact ⟨rfl, hcontains⟩
  · next hforeign =>
    rw [if_neg]
    rintro ⟨rfl, hexecutable⟩
    exact hforeign hexecutable

/-- The executable addresses of a list receive the mark, and no others do. -/
lemma mark_foldl_anchor {mark : Marks → Bool} (hor : ∀ f g, mark (f ||| g) = (mark f || mark g))
    (hlabel : mark { labelled := true } = false)
    (hs : s.map.coverage = (ByteMap.ofImage v.image).coverage) (marks : Marks)
    (confidence : Confidence) (addresses : List Address) (a : Address) :
    mark ((addresses.foldl (v.anchor marks confidence) s).map.marks a) = true ↔
      mark (s.map.marks a) = true ∨
        mark marks = true ∧ v.image.isExecutable a = true ∧ a ∈ addresses := by
  induction addresses generalizing s with
  | nil => simp
  | cons b rest ih =>
    rw [List.foldl_cons, ih ((coverage_anchor v marks confidence s b).trans hs),
      marks_anchor hs marks confidence a b, List.mem_cons]
    split
    · next hab =>
      obtain ⟨rfl, hexecutable⟩ := hab
      rw [hor, hor, hlabel, Bool.or_false, Bool.or_eq_true]
      simp only [hexecutable, true_or, and_true, true_and]
      tauto
    · next hab =>
      have hiff : v.image.isExecutable a = true ∧ (a = b ∨ a ∈ rest) ↔
          v.image.isExecutable a = true ∧ a ∈ rest := by tauto
      rw [hiff]

/-- The marks for anchors in the first state: the entry point has the one, the exports have the
other, and of those only the executable ones. -/
lemma mark_start {mark : Marks → Bool} (hor : ∀ f g, mark (f ||| g) = (mark f || mark g))
    (hlabel : mark { labelled := true } = false) (hnone : mark {} = false)
    (hdata : mark { data := true } = false) (v : Survey) (a : Address) :
    mark (v.start.map.marks a) = true ↔ v.image.isExecutable a = true ∧
      (mark { entry := true } = true ∧ a = v.image.entryPoint ∨
        mark { anchor := true } = true ∧ ∃ e ∈ v.image.layout.exports,
          v.image.address e.rva = a) := by
  have hblank : mark ((ByteMap.ofImage v.image).marks a) = false := by
    unfold ByteMap.marks
    rw [ByteMap.cell_ofImage]
    split
    · exact hnone
    · exact hdata
  have hentry := mark_foldl_anchor (s := { map := ByteMap.ofImage v.image }) hor hlabel rfl
    { entry := true } .entry [v.image.entryPoint] a
  rw [List.foldl_cons, List.foldl_nil, hblank, List.mem_singleton] at hentry
  have hcoverage := coverage_anchor v { entry := true } .entry { map := ByteMap.ofImage v.image }
    v.image.entryPoint
  unfold start
  dsimp only
  rw [mark_foldl_anchor hor hlabel hcoverage, hentry, List.mem_map]
  simp only [Bool.false_eq_true, false_or]
  constructor
  · rintro (⟨hmark, hexecutable, ha⟩ | ⟨hmark, hexecutable, ha⟩)
    · exact ⟨hexecutable, Or.inl ⟨hmark, ha⟩⟩
    · exact ⟨hexecutable, Or.inr ⟨hmark, ha⟩⟩
  · rintro ⟨hexecutable, ⟨hmark, ha⟩ | ⟨hmark, ha⟩⟩
    · exact Or.inl ⟨hmark, hexecutable, ha⟩
    · exact Or.inr ⟨hmark, hexecutable, ha⟩

/-! ## The run -/

/-- **Anchors survive.**  In every state of a survey the anchors are the executable ones among the
entry point and the exports; no instruction runs over an anchor; and when an instruction starts at
an anchor, it stands there in every later state. -/
theorem anchors_survive {file : Array UInt8} {layout : Layout}
    (hload : Image.load file layout = .ok v.image) (hdecoder : v.decoder.Faithful)
    (hs : v.Reachable s) :
    (∀ a, (s.map.marks a).entry = true ↔
      v.image.isExecutable a = true ∧ a = v.image.entryPoint) ∧
    (∀ a, (s.map.marks a).anchor = true ↔
      v.image.isExecutable a = true ∧ ∃ e ∈ v.image.layout.exports, v.image.address e.rva = a) ∧
    (∀ a, (s.map.marks a).isAnchored = true → (s.map.marks a).body = false) ∧
    (∀ a, (s.map.marks a).isAnchored = true → (s.map.marks a).start = true →
      ∃ i, v.Stands s.map a i ∧ ∀ t, v.Reaches s t → v.Stands t.map a i) := by
  have hv : v.Proper := ⟨Image.placed_of_load hload, hdecoder⟩
  have hconsistent := hs.consistent hv
  have hchanges := hs.changes hv
  refine ⟨fun a => ?_, fun a => ?_, fun a => hconsistent.sound.free, fun a hanchored hstart => ?_⟩
  · rw [(hchanges.anchors hv a).1, mark_start Marks.entry_or rfl rfl rfl]
    simp
  · rw [(hchanges.anchors hv a).2, mark_start Marks.anchor_or rfl rfl rfl]
    simp
  · obtain ⟨i, hi⟩ := hconsistent.sound.tiled.starts hstart
    refine ⟨i, hi, fun t ht => ?_⟩
    exact (ht.consistent hv hconsistent).2.stands hv hanchored hi

/-- The call at the entry of the small survey stands from the first step to the last state. -/
theorem anchors_survive_sample :
    Image.load sampleFile sampleImage.layout = .ok sample.image ∧
      ((sample.stateAt (fun _ => false) 1).map.marks 0x1000).start = true ∧
      ∃ i, sample.Stands (sample.stateAt (fun _ => false) 1).map 0x1000 i ∧
        sample.Stands (sample.stateAt (fun _ => false) 4).map 0x1000 i := by
  have hload : Image.load sampleFile sampleImage.layout = .ok sample.image := by decide +kernel
  have hanchored : ((sample.stateAt (fun _ => false) 1).map.marks 0x1000).isAnchored = true := by
    decide +kernel
  have hstart : ((sample.stateAt (fun _ => false) 1).map.marks 0x1000).start = true := by
    decide +kernel
  have hfaithful : sample.decoder.Faithful :=
    (Decoder.faithful_x86 .bits32 sampleImage.span).failingAt [0x100a]
  obtain ⟨-, -, -, hstays⟩ :=
    anchors_survive hload hfaithful (reachable_stateAt sample (fun _ => false) 1)
  obtain ⟨i, hi, hlater⟩ := hstays 0x1000 hanchored hstart
  exact ⟨hload, hstart, i, hi, hlater _ (.step false (.step false (.step false .refl)))⟩

end Survey

end CodeSift
