import CodeSift.Proofs.Upkeep

/-!
# Every cross-reference has a reason

A relation of the index says that something at its site refers to its target.  It is *warranted*
when that can still be seen: an instruction starts at the site and names the target in the way of
the class, or the site is a slot of a table of pointers, which holds the target and is marked as
such (`Survey.Warranted`).  The target of a jump through a table is named by a slot of the table,
and the relation of that slot is itself in the index.

Warrants are given when relations are made.  They do not expire: instructions and tables stay,
except where code is given up, and there the relations made in it go with it (`Sourced.giveUp`).
The slots of tables are data, so their relations are never among those that go.  Hence every
relation is warranted in every state of a survey (`relations_are_warranted`).
-/

namespace CodeSift

open Survey

variable {v : Survey} {m m' : ByteMap} {x x' : ReferenceIndex} {r : CrossReference} {a b : Address}
  {i : Instruction}

/-! ## Warrants -/

/-- The four bytes of a slot, as far as they are covered, are marked as part of a table of
pointers. -/
def ByteMap.IsSlot (m : ByteMap) (slot : Address) : Prop :=
  ∀ b : Address, slot.toNat ≤ b.toNat → b.toNat < slot.toNat + 4 → m.contains b = true →
    m.kind b = .data ∧ m.dataClass b = .pointerTable

namespace Survey

/-- **The reason for a relation can be seen.** -/
inductive Warranted (v : Survey) (m : ByteMap) (x : ReferenceIndex) : CrossReference → Prop
  /-- An instruction names the address of code. -/
  | code {cls : ReferenceClass} {site target : Address} {i : Instruction} :
      (m.marks site).start = true → v.Reads site i → i.NamesCode cls target →
      v.image.isExecutable target = true → Warranted v m x ⟨cls, site, target⟩
  /-- An instruction names a place in the image. -/
  | place {cls : ReferenceClass} {site target : Address} {i : Instruction} :
      (m.marks site).start = true → v.Reads site i → i.NamesPlace v.image cls target →
      Warranted v m x ⟨cls, site, target⟩
  /-- A slot of the table behind an indirect jump points to code. -/
  | tableJump {site target base slot : Address} {i : Instruction} {k : Nat} :
      (m.marks site).start = true → v.Reads site i → i.flow = .jumpIndirect →
      i.jumpTableBase = some base → k < maxJumpTableSlots → slot.toNat = base.toNat + 4 * k →
      ⟨.tableEntry, slot, target⟩ ∈ x → v.image.isExecutable target = true →
      Warranted v m x ⟨.jump, site, target⟩
  /-- A slot of a table points to code. -/
  | tableEntry {slot target : Address} : v.image.word? slot = some target → m.IsSlot slot →
      v.image.isExecutable target = true → Warranted v m x ⟨.tableEntry, slot, target⟩

/-- Every relation, seen from the end that refers, is warranted. -/
def Sourced (v : Survey) (m : ByteMap) (x : ReferenceIndex) : Prop :=
  ∀ r ∈ x, r.isForward = true → v.Warranted m x r

/-- A slot of a table is no code. -/
lemma isCode_of_isSlot {slot : Address} (h : m.IsSlot slot) : (m.marks slot).isCode = false := by
  rw [Bool.eq_false_iff]
  intro hcode
  obtain ⟨hkind, -⟩ := h slot (Nat.le_refl _) (by omega) (ByteMap.contains_of_isCode hcode)
  rw [Marks.isCode, Bool.or_eq_true] at hcode
  unfold ByteMap.kind Marks.kind at hkind
  rcases hcode with hstart | hbody
  · simp [hstart] at hkind
  · cases hstart : (m.marks slot).start <;> simp [hstart, hbody] at hkind

/-- The relations of slots are made at slots. -/
lemma Sourced.isSlot (h : v.Sourced m x) {slot target : Address}
    (hentry : (⟨.tableEntry, slot, target⟩ : CrossReference) ∈ x) : m.IsSlot slot := by
  generalize hr : (⟨.tableEntry, slot, target⟩ : CrossReference) = r at hentry
  have hwarranted := h r hentry (by rw [← hr]; rfl)
  cases hwarranted with
  | code _ _ hnames => cases hnames <;> cases hr
  | place _ _ hnames => cases hnames <;> cases hr
  | tableJump => cases hr
  | tableEntry _ hslot =>
    cases hr
    exact hslot

/-! ## Warrants that stay -/

/-- What the second map has of the first, as far as warrants need it. -/
structure Carries (m m' : ByteMap) : Prop where
  coverage : m'.coverage = m.coverage
  start {a : Address} : (m.marks a).start = true → (m'.marks a).start = true
  slot {a : Address} : m.kind a = .data → m.dataClass a = .pointerTable →
    m'.kind a = .data ∧ m'.dataClass a = .pointerTable

lemma isSlot_mono {slot : Address} (hcoverage : m'.coverage = m.coverage)
    (hcells : ∀ {a : Address}, m.kind a = .data → m.dataClass a = .pointerTable →
      m'.kind a = .data ∧ m'.dataClass a = .pointerTable) (h : m.IsSlot slot) : m'.IsSlot slot := by
  intro b hle hlt hcontains
  rw [ByteMap.contains_congr hcoverage] at hcontains
  obtain ⟨hkind, hclass⟩ := h b hle hlt hcontains
  exact hcells hkind hclass

/-- **A warrant stays** as long as its instruction, its table and the relations of the table
stay. -/
lemma Warranted.mono (h : v.Warranted m x r)
    (hstart : (m.marks r.site).start = true → (m'.marks r.site).start = true)
    (hslot : ∀ {slot : Address}, m.IsSlot slot → m'.IsSlot slot)
    (hentries : ∀ {slot target : Address}, ⟨.tableEntry, slot, target⟩ ∈ x →
      ⟨.tableEntry, slot, target⟩ ∈ x') :
    v.Warranted m' x' r := by
  cases h with
  | code hsite hreads hnames hexecutable => exact .code (hstart hsite) hreads hnames hexecutable
  | place hsite hreads hnames => exact .place (hstart hsite) hreads hnames
  | tableJump hsite hreads hflow hbase hk hplace hentry hexecutable =>
    exact .tableJump (hstart hsite) hreads hflow hbase hk hplace (hentries hentry) hexecutable
  | tableEntry hword hold hexecutable => exact .tableEntry hword (hslot hold) hexecutable

namespace Sourced

/-- A change of the map that warrants do not notice. -/
lemma carries (h : v.Sourced m x) (hcarries : Carries m m') : v.Sourced m' x := fun r hr hforward =>
  (h r hr hforward).mono hcarries.start (isSlot_mono hcarries.coverage hcarries.slot) id

/-- A relation with a warrant is added. -/
lemma insert (h : v.Sourced m x) (hpartner : r.partner.isForward = false)
    (hr : v.Warranted m (x.insert r) r) : v.Sourced m (x.insert r) := by
  intro q hq hforward
  rcases ReferenceIndex.mem_insert.mp hq with rfl | rfl | hold
  · rw [hpartner] at hforward
    cases hforward
  · exact hr
  · exact (h q hold hforward).mono id id fun hentry => ReferenceIndex.mem_insert_of_mem r hentry

/-- **Code that is given up takes its relations with it.** -/
lemma giveUp {span : Span} (h : v.Sourced m x) (hsever : m.Severable span)
    (hcoverage : m'.coverage = m.coverage)
    (hcells : ∀ b ∉ span, (m'.cell b).unlabelled = (m.cell b).unlabelled) :
    v.Sourced m' (x.eraseSites span) := by
  have hout : ∀ {b : Address}, (m.marks b).isCode = false → b ∉ span := by
    intro b hb hmem
    rw [hsever.code hmem] at hb
    cases hb
  have hslot : ∀ {slot : Address}, m.IsSlot slot → m'.IsSlot slot := by
    refine isSlot_mono hcoverage fun {b} hkind hclass => ?_
    have hcode : (m.marks b).isCode = false := by
      unfold ByteMap.kind Marks.kind at hkind
      unfold Marks.isCode
      cases hstart : (m.marks b).start <;> cases hbody : (m.marks b).body <;> simp_all
    have hcell := hcells b (hout hcode)
    have hkind' : m'.kind b = m.kind b :=
      Cell.congr_of_unlabelled (fun c => c.marks.kind) (fun c => by simp [Marks.kind]) hcell
    have hclass' : m'.dataClass b = m.dataClass b := Cell.congr_of_unlabelled _ (fun c => rfl) hcell
    exact ⟨hkind'.trans hkind, hclass'.trans hclass⟩
  intro r hr hforward
  have hsite := ReferenceIndex.not_mem_span_of_mem_eraseSites hr hforward
  refine (h r (ReferenceIndex.mem_eraseSites.mp hr).1 hforward).mono (fun hstart => ?_) hslot
    fun {slot target} hentry => ?_
  · have hsame := Cell.congr_of_unlabelled (fun c => c.marks.start) Cell.start_unlabelled
      (hcells _ hsite)
    exact hsame.trans hstart
  · -- the relation of a slot is made at data
    exact ReferenceIndex.mem_eraseSites_of_not_mem hentry
      (hout (isCode_of_isSlot (h.isSlot hentry))) rfl

end Sourced

/-! ## Changes that warrants do not notice -/

lemma carries_mark (m : ByteMap) (a : Address) (labelled resolved : Bool) :
    Carries m (m.mark a { labelled, resolved }) where
  coverage := ByteMap.coverage_mark m a _
  start hstart := by rw [(ByteMap.keeps_mark m a labelled resolved).start, hstart]
  slot {b} hkind hclass := by
    rw [ByteMap.dataClass_mark, hclass, ← hkind]
    refine ⟨?_, rfl⟩
    unfold ByteMap.kind
    rw [ByteMap.marks_mark]
    split
    · simp [Marks.kind]
    · rfl

/-- Making a table of bytes that are no code. -/
lemma carries_markData {span : Span} (h : ∀ a ∈ span, (m.marks a).isCode = false) :
    Carries m (m.markData span .pointerTable) where
  coverage := ByteMap.coverage_markData m span _
  start hstart := by rw [(ByteMap.keeps_markData .pointerTable h).start, hstart]
  slot {b} hkind hclass := by
    have hcell := ByteMap.cell_markData m span .pointerTable b
    split at hcell
    · next hb =>
      obtain ⟨hstart, hbody⟩ := Marks.isCode_eq_false_iff.mp (h b hb.1)
      unfold ByteMap.marks at hstart hbody
      simp [ByteMap.kind, ByteMap.marks, ByteMap.dataClass, hcell, Cell.asData,
        Marks.kind, hstart, hbody]
    · obtain ⟨hkind', hclass'⟩ := ByteMap.kind_congr hcell
      exact ⟨hkind'.trans hkind, hclass'.trans hclass⟩

/-- The bytes that are made a table are marked as one. -/
lemma isSlot_markData {span : Span} {slot : Address} (h : ∀ a ∈ span, (m.marks a).isCode = false)
    (hspan : ∀ b : Address, slot.toNat ≤ b.toNat → b.toNat < slot.toNat + 4 → b ∈ span) :
    (m.markData span .pointerTable).IsSlot slot := by
  intro b hle hlt hcontains
  rw [ByteMap.contains_congr (ByteMap.coverage_markData m span _)] at hcontains
  have hb := hspan b hle hlt
  obtain ⟨hstart, hbody⟩ := Marks.isCode_eq_false_iff.mp (h b hb)
  unfold ByteMap.marks at hstart hbody
  unfold ByteMap.kind ByteMap.marks ByteMap.dataClass
  rw [ByteMap.cell_markData, if_pos ⟨hb, hcontains⟩]
  simp [Cell.asData, Marks.kind, hstart, hbody]

lemma carries_markInstruction (hv : v.Proper) (suspicious : Bool)
    (h : v.examine m a = .ok (some i)) :
    Carries m (markInstruction m a i suspicious) where
  coverage := coverage_markInstruction m a i suspicious
  start hstart := by rw [start_markInstruction h hv, hstart, Bool.true_or]
  slot {b} hkind hclass := by
    obtain ⟨hunprocessed, -, htail⟩ := examine_eq_some h
    -- the bytes of the instruction were undecided, so the byte is none of them
    have hba : b ≠ a := by
      rintro rfl
      rw [hunprocessed] at hkind
      cases hkind
    have hb : b ∉ tailOf a i := by
      intro hmem
      rw [(htail b hmem).1] at hkind
      cases hkind
    have hcell := @cell_markInstruction v m a i suspicious h hv b
    rw [if_neg hba, if_neg hb] at hcell
    obtain ⟨hkind', hclass'⟩ := ByteMap.kind_congr hcell
    exact ⟨hkind'.trans hkind, hclass'.trans hclass⟩

lemma carries_of_fills (h : m.Fills m') : Carries m m' where
  coverage := h.coverage
  start hstart := by rw [h.keeps.start, hstart]
  slot {b} hkind hclass := by
    obtain ⟨hkind', hclass'⟩ := ByteMap.kind_congr (h.cell_eq (by rw [hkind]; exact nofun))
    exact ⟨hkind'.trans hkind, hclass'.trans hclass⟩

/-! ## Attempts -/

variable {s t : State} {f : Failure} {purpose : Purpose} {lead : Lead}

/-- A reference to code is noted with its warrant. -/
lemma Sourced.refer {confidence : Confidence} (h : v.Sourced s.map s.index)
    (hpartner : r.partner.isForward = false)
    (hr : v.image.isExecutable r.target = true → v.Warranted s.map (s.index.insert r) r) :
    v.Sourced (v.refer confidence s r).map (v.refer confidence s r).index := by
  by_cases hadmits : s.map.admitsCode v.image r.target = true
  · have hinsert := h.insert hpartner (hr (ByteMap.admitsCode_iff.mp hadmits).1)
    rw [Survey.refer, if_pos hadmits]
    dsimp only
    split
    · exact hinsert
    · exact hinsert.carries (carries_mark _ _ _ _)
  · rw [Survey.refer, if_neg hadmits]
    exact h

/-- **What an instruction names is noted with its warrant.** -/
lemma Noted.sourced {suspicious : Bool} (hv : v.Proper) (hs : v.Sound s.map)
    (hi : v.Stands s.map i.address i) (h : v.Noted i suspicious s t)
    (hsourced : v.Sourced s.map s.index) : v.Sourced t.map t.index := by
  cases h with
  | code hnames _ =>
    exact hsourced.refer (by cases hnames <;> rfl) fun hexecutable =>
      .code hi.start hi.reads hnames hexecutable
  | place hnames =>
    exact hsourced.insert (by cases hnames <;> rfl) (.place hi.start hi.reads hnames)
  | @slot base slot k _ _ hflow hbase hk hplace _ hslot =>
    obtain ⟨target, hfree, hword, hadmits, rfl⟩ := readSlot_eq_some hslot
    have hcode : ∀ b ∈ (⟨slot, slot + 4⟩ : Span), (s.map.marks b).isCode = false :=
      fun b hb => isCode_eq_false_of_slot hv hs hfree hword hb
    have hstop := toNat_add_four_of_word? hv hword
    have hmarked := isSlot_markData hcode fun b hle hlt => Span.mem_mk.mpr ⟨hle, by omega⟩
    have hexecutable := (ByteMap.admitsCode_iff.mp hadmits).1
    have hentry : v.Sourced (s.map.markData ⟨slot, slot + 4⟩ .pointerTable)
        (s.index.insert ⟨.tableEntry, slot, target⟩) :=
      (hsourced.carries (carries_markData hcode)).insert rfl (.tableEntry hword hmarked hexecutable)
    refine Sourced.refer hentry rfl fun _ => ?_
    refine .tableJump ?_ hi.reads hflow hbase hk hplace ?_ hexecutable
    · exact (carries_markData hcode).start hi.start
    · exact ReferenceIndex.mem_insert_of_mem _ (ReferenceIndex.mem_insert_self _ _)
  | halted => exact hsourced
  | counted _ => exact hsourced

lemma grown_sourced (hv : v.Proper) (suspicious : Bool) :
    v.Grown suspicious fun s => v.Sourced s.map s.index where
  counted _ h := h
  laid _ hexamine h := h.carries (carries_markInstruction hv suspicious hexamine)
  noted hs hi hnoted h := hnoted.sourced hv hs hi h

end Survey

/-! ## Tables that a search finds -/

namespace PointerTables

variable {start : Address} {scan : Scan} {n : Nat}

lemma sourced_foldl_noteSlot (slots : List Address) (h : v.Sourced scan.map scan.index)
    (hslots : ∀ slot ∈ slots, scan.map.IsSlot slot ∧
      ∀ target, v.image.word? slot = some target → v.image.isExecutable target = true) :
    v.Sourced scan.map (slots.foldl (noteSlot v.image) scan).index := by
  induction slots generalizing scan with
  | nil => exact h
  | cons slot rest ih =>
    rw [List.forall_mem_cons] at hslots
    obtain ⟨⟨hslot, hexecutable⟩, hrest⟩ := hslots
    have hmap : (noteSlot v.image scan slot).map = scan.map := map_foldl_noteSlot [slot] scan
    have hnoted : v.Sourced scan.map (noteSlot v.image scan slot).index := by
      unfold noteSlot
      split
      · exact h
      · next target hword => exact h.insert rfl (.tableEntry hword hslot (hexecutable target hword))
    rw [← hmap] at hnoted hrest ⊢
    exact ih hnoted hrest

/-- **A table is noted with the warrants of its slots.** -/
lemma sourced_noteTable (h : v.Sourced scan.map scan.index)
    (htable : Tabulates v.image scan.map start n) :
    v.Sourced (noteTable v.image scan start n).map (noteTable v.image scan start n).index := by
  have hcode : ∀ b ∈ tableSpan start n, (scan.map.marks b).isCode = false :=
    fun b hb => ByteMap.isCode_of_unprocessed (htable.undecided b hb)
  rw [map_noteTable]
  refine sourced_foldl_noteSlot _ (h.carries (carries_markData hcode)) fun slot hslot => ?_
  obtain ⟨i, hi, hplace⟩ := (mem_slotsOf htable.fits).mp hslot
  refine ⟨isSlot_markData hcode fun b hfirst hlast => ?_, fun target hword => ?_⟩
  · rw [mem_tableSpan htable.fits]
    omega
  · obtain ⟨found, hfound, hadmits, -⟩ := htable.points slot hslot
    rw [hfound] at hword
    cases hword
    exact (ByteMap.admitsCode_iff.mp hadmits).1

lemma sourced_searchAll (hplaced : v.image.Placed) {aligned : Bool} {found : Scan}
    (hfound : searchAll v.image aligned scan = some found) (h : v.Sourced scan.map scan.index) :
    v.Sourced found.map found.index :=
  (@comes_searchAll v.image scan (fun _ s => v.Sourced s.map s.index) aligned found hplaced
    (fun hs _ _ => hs) (fun hs _ htable => sourced_noteTable hs htable) h hfound).holds

/-- **A search for tables keeps every relation warranted.** -/
lemma sourced_detect (hplaced : v.image.Placed) (hscan : detect v.image m x = some scan)
    (h : v.Sourced m x) : v.Sourced scan.map scan.index := by
  obtain ⟨first, second, hfirst, hsecond, rfl⟩ := detect_eq_some_iff.mp hscan
  -- the targets are sorted at last, which concerns neither the map nor the index
  change v.Sourced second.map second.index
  exact sourced_searchAll hplaced hsecond (sourced_searchAll hplaced hfirst h)

end PointerTables

/-! ## Whole surveys -/

namespace Survey

variable {s t : State} {f : Failure} {purpose : Purpose} {lead : Lead}

lemma Attempted.sourced {failure : Option Failure} (hv : v.Proper)
    (h : v.Attempted s purpose lead t failure) (hs : v.Sourced s.map s.index) :
    v.Sourced t.map t.index := by
  refine h.grown (P := fun t => v.Sourced t.map t.index) hv (grown_sourced hv _)
    fun s₁ hmap hindex _ => ?_
  rw [hmap, hindex]
  exact hs

lemma sourced_recover (hsever : t.map.Severable (t.doubt f))
    (hcoverage : (v.recover t f).map.coverage = t.map.coverage) (h : v.Sourced t.map t.index) :
    v.Sourced (v.recover t f).map (v.recover t f).index := by
  rw [index_recover]
  exact h.giveUp hsever hcoverage fun b hb => unlabelled_recover_of_not_mem v hb

/-- A review erases the relations that the blocks make which it turns into data. -/
lemma sourced_review (hv : v.Proper) (hm : v.Sound m) (h : v.Sourced m x) :
    v.Sourced (CodeBlocks.review v.image v.decoder m x).map
      (CodeBlocks.review v.image v.decoder m x).index := by
  have hfold : v.Sourced ((CodeBlocks.guilty v m).foldl CodeBlocks.convict (m, x)).1
      ((CodeBlocks.guilty v m).foldl CodeBlocks.convict (m, x)).2 := by
    refine @CodeBlocks.foldl_convict_induction m x (CodeBlocks.guilty v m)
      (fun p => v.Sourced p.1 p.2) (CodeBlocks.apart_guilty hv hm.laid)
      (CodeBlocks.severable_guilty hv hm) h fun {m x block} hsever hsourced => ?_
    refine hsourced.giveUp hsever (CodeBlocks.coverage_convict (m, x) block) fun b hb => ?_
    rw [CodeBlocks.cell_convict fun a ha => ByteMap.contains_of_isCode (hsever.code ha), if_neg hb]
  rw [CodeBlocks.review_eq hv hm.laid]
  exact hfold

/-- **Every relation stays warranted.** -/
lemma maintained_sourced (hv : v.Proper) : v.Maintained fun s => v.Sourced s.map s.index where
  frame h hmap hindex _ := by
    rw [hmap, hindex]
    exact h
  attempt hmade h := hmade.sourced hv h
  recover hmade h := by
    obtain ⟨-, hsever, -⟩ := hmade.doubt hv
    exact sourced_recover hsever (coverage_recover _ _ _) (hmade.sourced hv h)
  tables _ hscan h := PointerTables.sourced_detect hv.placed hscan h
  strings {s} _ h := h.carries (carries_of_fills (fills_finalizeStrings v s))
  code {s} hsound _ h := by
    rw [(map_finalizeCode v s).1, (map_finalizeCode v s).2]
    exact sourced_review hv hsound h
  rest {s} _ h := h.carries (carries_of_fills (fills_finalizeRest s))

lemma Reachable.sourced (hv : v.Proper) (hs : v.Reachable s) : v.Sourced s.map s.index := by
  refine (maintained_sourced hv).reachable hv ?_ hs
  obtain ⟨map, agenda, hstart⟩ := exists_start_eq v
  rw [hstart]
  exact fun r hr => absurd hr (ReferenceIndex.not_mem_empty r)

/-- **Every cross-reference has a reason.**  In every state of a survey, the last one included, a
relation is made by an instruction that starts at its site and names its target in the way of the
class, or at a slot of a table of pointers which holds the target.  What calls, jumps, branches,
immediates and slots refer to is executable. -/
theorem relations_are_warranted {file : Array UInt8} {layout : Layout}
    (hload : Image.load file layout = .ok v.image) (hdecoder : v.decoder.Faithful)
    (hs : v.Reachable s) {r : CrossReference} (hr : r ∈ s.index) (hforward : r.isForward = true) :
    v.Warranted s.map s.index r :=
  Reachable.sourced ⟨Image.placed_of_load hload, hdecoder⟩ hs r hr hforward

/-- At the end of the small survey with guesses, the jump at its entry leads through the table to
`0x1010`, and that is warranted by the slot. -/
theorem relations_are_warranted_guessing :
    (guessing.stateAt (fun _ => false) 5).phase = .done ∧
      (⟨.jump, 0x1000, 0x1010⟩ : CrossReference) ∈ (guessing.stateAt (fun _ => false) 5).index ∧
      guessing.Warranted (guessing.stateAt (fun _ => false) 5).map
        (guessing.stateAt (fun _ => false) 5).index ⟨.jump, 0x1000, 0x1010⟩ := by
  have hload : Image.load guessFile guessImage.layout = .ok guessing.image := by decide +kernel
  have hphase : (guessing.stateAt (fun _ => false) 5).phase = .done := by decide +kernel
  have hmem : (⟨.jump, 0x1000, 0x1010⟩ : CrossReference) ∈
      (guessing.stateAt (fun _ => false) 5).index.bySite := by decide +kernel
  exact ⟨hphase, hmem, relations_are_warranted hload (Decoder.faithful_x86 .bits32 guessImage.span)
    (reachable_stateAt guessing (fun _ => false) 5) hmem rfl⟩

end Survey

end CodeSift
