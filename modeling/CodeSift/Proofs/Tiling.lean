import CodeSift.Proofs.Decoding
import CodeSift.Proofs.Image
import CodeSift.Survey.Attempt
import Mathlib.Logic.Relation

/-!
# Maps that are tiled by instructions

A map is *tiled* when the marks it carries describe instructions that stand side by side: no byte is
two things at once, only executable bytes are code, every start is the start of an instruction that
decodes and whose other bytes, and no more, are bodies, and every body belongs to such an
instruction (`Survey.Tiled`).

However long a survey runs, its map changes in three ways only, collected in `Survey.Change`:

* bytes that are no code become data, or labels come and go (`ByteMap.Keeps`);
* an instruction is laid down on undecided bytes none of which, behind the first, is an anchor;
* a span is cleared that holds code, no anchor, and cuts no instruction in two
  (`ByteMap.Severable`).

Each of the three keeps a tiled map tiled, keeps anchors out of the bodies of instructions, keeps
the anchors themselves, and keeps every instruction that starts at an anchor.  What holds of every
state of a survey is proved in the modules behind this one by showing that its steps are made of
changes.
-/

namespace CodeSift

/-- At most one of the marks for a start, a body and data is set. -/
def Marks.Exclusive (f : Marks) : Prop := f.start.toNat + f.body.toNat + f.data.toNat ≤ 1

instance (f : Marks) : Decidable f.Exclusive :=
  inferInstanceAs (Decidable (f.start.toNat + f.body.toNat + f.data.toNat ≤ 1))

lemma Marks.Exclusive.body_of_start {f : Marks} (h : f.Exclusive) (hstart : f.start = true) :
    f.body = false := by
  unfold Exclusive at h
  cases hbody : f.body with
  | false => rfl
  | true =>
    rw [hstart, hbody] at h
    simp only [Bool.toNat_true] at h
    omega

lemma Marks.Exclusive.data_of_isCode {f : Marks} (h : f.Exclusive) (hcode : f.isCode = true) :
    f.data = false := by
  unfold Exclusive at h
  unfold isCode at hcode
  cases hdata : f.data with
  | false => rfl
  | true =>
    rw [hdata] at h
    cases hstart : f.start <;> cases hbody : f.body <;> simp_all

namespace Survey

variable {v : Survey} {m m' : ByteMap} {a b : Address} {i : Instruction}

/-- The survey of an image as it is loaded, with a decoder that reads from the front of what it is
given. -/
structure Proper (v : Survey) : Prop where
  placed : v.image.Placed
  faithful : v.decoder.Faithful

/-! ## One instruction -/

/-- The instruction that decoding at an address gives. -/
def Reads (v : Survey) (a : Address) (i : Instruction) : Prop :=
  v.decoder (v.image.window a) a = .ok i

/-- **No instruction wraps around the address space.** -/
lemma Proper.toNat_stop (hv : v.Proper) (h : v.Reads a i) : i.stop.toNat = a.toNat + i.length := by
  have hle := hv.faithful.length_le h
  have hlt := Image.add_length_window_lt hv.placed a
  unfold Instruction.stop
  rw [hv.faithful.address h]
  exact Address.toNat_add_ofNat (by omega)

lemma Proper.lt_stop (hv : v.Proper) (h : v.Reads a i) : a.toNat < i.stop.toNat := by
  have hpos := hv.faithful.length_pos h
  have hstop := hv.toNat_stop h
  omega

lemma Proper.mem_tailOf (hv : v.Proper) (h : v.Reads a i) :
    b ∈ tailOf a i ↔ a.toNat < b.toNat ∧ b.toNat < i.stop.toNat := by
  have hlt := hv.lt_stop h
  have hbound := i.stop.toNat_lt
  have hsucc : (a + 1).toNat = a.toNat + 1 := Address.toNat_succ (by omega)
  rw [Span.mem_iff]
  show (a + 1).toNat ≤ b.toNat ∧ b.toNat < i.stop.toNat ↔ _
  omega

/-- The bytes of an instruction are the first and those behind. -/
lemma Proper.mem_span_iff (hv : v.Proper) (h : v.Reads a i) :
    b ∈ (⟨a, i.stop⟩ : Span) ↔ b = a ∨ b ∈ tailOf a i := by
  have hlt := hv.lt_stop h
  rw [Span.mem_mk, hv.mem_tailOf h, ← UInt32.toNat_inj]
  omega

/-- The map shows the instruction at the address: it starts there, runs through the bytes behind,
and not through the byte behind those. -/
structure Stands (v : Survey) (m : ByteMap) (a : Address) (i : Instruction) : Prop where
  reads : v.Reads a i
  start : (m.marks a).start = true
  body : ∀ b ∈ tailOf a i, (m.marks b).body = true
  ends : (m.marks i.stop).body = false

lemma Stands.isCode (hv : v.Proper) (h : v.Stands m a i) (hab : a.toNat ≤ b.toNat)
    (hb : b.toNat < i.stop.toNat) : (m.marks b).isCode = true := by
  unfold Marks.isCode
  by_cases heq : a.toNat = b.toNat
  · rw [← UInt32.toNat_inj.mp heq, h.start, Bool.true_or]
  · have hbody := h.body b ((hv.mem_tailOf h.reads).mpr ⟨by omega, hb⟩)
    rw [hbody, Bool.or_true]

/-! ## Tiled maps -/

/-- **The marks describe instructions side by side.** -/
structure Tiled (v : Survey) (m : ByteMap) : Prop where
  exclusive (a : Address) : (m.marks a).Exclusive
  foreign {a : Address} : v.image.isExecutable a = false → (m.marks a).data = true
  starts {a : Address} : (m.marks a).start = true → ∃ i, v.Stands m a i
  bodies {b : Address} : (m.marks b).body = true → ∃ a i, v.Stands m a i ∧ b ∈ tailOf a i

/-- Only executable bytes are code. -/
lemma Tiled.executable (h : v.Tiled m) (hcode : (m.marks a).isCode = true) :
    v.image.isExecutable a = true := by
  by_contra hforeign
  have hdata := h.foreign (Bool.eq_false_iff.mpr hforeign)
  rw [(h.exclusive a).data_of_isCode hcode] at hdata
  cases hdata

/-- An instruction ends at any address behind its start that is no body, at the latest. -/
lemma Stands.stop_le_of_not_body (hv : v.Proper) (hi : v.Stands m a i)
    (hbody : (m.marks b).body = false) (hab : a.toNat < b.toNat) : i.stop.toNat ≤ b.toNat := by
  by_contra hlt
  have htail := hi.body b ((hv.mem_tailOf hi.reads).mpr ⟨hab, by omega⟩)
  rw [hbody] at htail
  cases htail

/-- The end of an instruction can be read off the map. -/
lemma Stands.instructionStop_eq (hv : v.Proper) (hi : v.Stands m a i) :
    m.instructionStop a = i.stop := by
  have hlt := hv.lt_stop hi.reads
  have hbound := i.stop.toNat_lt
  have hfirst : (Address.addSaturated a 1).toNat = a.toNat + 1 := by
    rw [Address.toNat_addSaturated]
    omega
  have hmem : ∀ b : Address, (Address.addSaturated a 1).toNat ≤ b.toNat ∧ b.toNat < i.stop.toNat →
      (m.marks b).body = true := by
    intro b hb
    exact hi.body b ((hv.mem_tailOf hi.reads).mpr ⟨by omega, hb.2⟩)
  have hcovered : ∀ b ∈ (⟨Address.addSaturated a 1, i.stop⟩ : Span), m.contains b = true := by
    intro b hb
    exact ByteMap.contains_of_isCode (by simp [Marks.isCode, hmem b (Span.mem_iff.mp hb)])
  have hsize : i.stop.toNat - (Address.addSaturated a 1).toNat ≤ m.size := by
    rw [ByteMap.size_eq, Coverage.length_addresses]
    exact Coverage.size_le_of_covered hcovered
  refine ByteMap.skipWhile_eq (by omega) hsize (fun b hb => ?_) ?_
  · rw [hcovered b hb, hmem b (Span.mem_iff.mp hb)]
    rfl
  · rw [hi.ends, Bool.and_false]

end Survey

/-! ## Changes that leave code alone -/

/-- The second map has the code and the anchors of the first; what was data stays data, and what has
become data was no code. -/
structure ByteMap.Keeps (m m' : ByteMap) : Prop where
  coverage : m'.coverage = m.coverage
  start (a : Address) : (m'.marks a).start = (m.marks a).start
  body (a : Address) : (m'.marks a).body = (m.marks a).body
  entry (a : Address) : (m'.marks a).entry = (m.marks a).entry
  anchor (a : Address) : (m'.marks a).anchor = (m.marks a).anchor
  data {a : Address} : (m.marks a).data = true → (m'.marks a).data = true
  code {a : Address} : (m.marks a).isCode = true → (m'.marks a).data = (m.marks a).data

namespace ByteMap

variable {m m' m'' : ByteMap} {a b : Address}

namespace Keeps

lemma refl (m : ByteMap) : m.Keeps m :=
  ⟨rfl, fun _ => rfl, fun _ => rfl, fun _ => rfl, fun _ => rfl, id, fun _ => rfl⟩

lemma isCode (h : m.Keeps m') (a : Address) : (m'.marks a).isCode = (m.marks a).isCode := by
  unfold Marks.isCode
  rw [h.start, h.body]

lemma trans (h : m.Keeps m') (h' : m'.Keeps m'') : m.Keeps m'' where
  coverage := h'.coverage.trans h.coverage
  start a := (h'.start a).trans (h.start a)
  body a := (h'.body a).trans (h.body a)
  entry a := (h'.entry a).trans (h.entry a)
  anchor a := (h'.anchor a).trans (h.anchor a)
  data hdata := h'.data (h.data hdata)
  code {a} hcode := by
    rw [h'.code (by rw [h.isCode, hcode]), h.code hcode]

end Keeps

/-- Adding labels keeps the map. -/
lemma keeps_mark (m : ByteMap) (a : Address) (labelled resolved : Bool) :
    m.Keeps (m.mark a { labelled, resolved }) := by
  refine ⟨coverage_mark m a _, ?_, ?_, ?_, ?_, ?_, ?_⟩ <;> intro b <;> rw [marks_mark] <;>
    split <;> simp

/-- Taking a label away keeps the map. -/
lemma keeps_unmark (m : ByteMap) (a : Address) : m.Keeps (m.unmark a { labelled := true }) := by
  refine ⟨coverage_unmark m a _, ?_, ?_, ?_, ?_, ?_, ?_⟩ <;> intro b <;> rw [marks_unmark] <;>
    split <;> simp [Marks.without]

/-- Making data of bytes that are no code keeps the map. -/
lemma keeps_markData {s : Span} (cls : DataClass) (h : ∀ a ∈ s, (m.marks a).isCode = false) :
    m.Keeps (m.markData s cls) := by
  have hcode : ∀ b, (m.marks b).isCode = true →
      ((m.markData s cls).marks b).data = (m.marks b).data := by
    intro b hb
    rw [marks_markData, if_neg]
    rintro ⟨hmem, -⟩
    rw [h b hmem] at hb
    cases hb
  refine ⟨coverage_markData m s cls, ?_, ?_, ?_, ?_, ?_, fun {b} => hcode b⟩ <;> intro b <;>
    rw [marks_markData] <;> split <;> simp

end ByteMap

namespace Survey

variable {v : Survey} {m m' : ByteMap} {a b : Address} {i : Instruction}

lemma Stands.keeps (hkeeps : m.Keeps m') (h : v.Stands m a i) : v.Stands m' a i where
  reads := h.reads
  start := by rw [hkeeps.start, h.start]
  body b hb := by rw [hkeeps.body, h.body b hb]
  ends := by rw [hkeeps.body, h.ends]

/-- Where no code is touched, tiled maps stay tiled. -/
lemma Tiled.keeps (hkeeps : m.Keeps m') (h : v.Tiled m) : v.Tiled m' where
  exclusive a := by
    have hold := h.exclusive a
    unfold Marks.Exclusive at hold ⊢
    rw [hkeeps.start, hkeeps.body]
    by_cases hcode : (m.marks a).isCode = true
    · rw [hkeeps.code hcode]
      exact hold
    · obtain ⟨hstart, hbody⟩ := Marks.isCode_eq_false_iff.mp (Bool.eq_false_iff.mpr hcode)
      rw [hstart, hbody]
      cases (m'.marks a).data <;> simp
  foreign hforeign := hkeeps.data (h.foreign hforeign)
  starts hstart := by
    obtain ⟨i, hi⟩ := h.starts (by rw [← hkeeps.start, hstart])
    exact ⟨i, hi.keeps hkeeps⟩
  bodies hbody := by
    obtain ⟨a, i, hi, hmem⟩ := h.bodies (by rw [← hkeeps.body, hbody])
    exact ⟨a, i, hi.keeps hkeeps, hmem⟩

/-! ## Laying down an instruction -/

/-- What looking at an address has found when it yields an instruction. -/
lemma examine_eq_some (h : v.examine m a = .ok (some i)) :
    m.kind a = .unprocessed ∧ v.Reads a i ∧
      ∀ b ∈ tailOf a i, m.kind b = .unprocessed ∧ (m.marks b).isAnchored = false := by
  unfold examine at h
  split at h
  · cases h
  · cases h
  · cases h
  · next hkind =>
    split at h
    · cases h
    · next j hread =>
      split at h
      · cases h
      · next hconflict =>
        cases h
        refine ⟨hkind, hread, fun b hb => ?_⟩
        have hnone := List.findSome?_eq_none_iff.mp hconflict b (Span.mem_addresses.mpr hb)
        simp only at hnone
        split at hnone
        · cases hnone
        · next hanchored =>
          split at hnone
          · cases hnone
          · next hunprocessed =>
            exact ⟨by simpa [ByteMap.kind] using hunprocessed, by simpa using hanchored⟩

section Decode

variable {suspicious : Bool} (h : v.examine m a = .ok (some i)) (hv : v.Proper)
include h hv

lemma cell_markInstruction (b : Address) :
    (markInstruction m a i suspicious).cell b =
      if b = a then (m.cell b).mark { start := true, suspicious, resolved := (m.marks a).labelled }
      else if b ∈ tailOf a i then (m.cell b).mark { body := true }
      else m.cell b := by
  obtain ⟨hkind, hreads, htail⟩ := examine_eq_some h
  have ha := ByteMap.contains_of_unprocessed hkind
  have hcover : ∀ c,
    (m.mark a { start := true, suspicious, resolved := (m.marks a).labelled }).contains c
      = m.contains c := ByteMap.contains_congr (ByteMap.coverage_mark m a _)
  unfold markInstruction
  rw [ByteMap.cell_markSpan, ByteMap.cell_mark, hcover]
  by_cases hba : b = a
  · have hnot : b ∉ tailOf a i := by
      rw [hv.mem_tailOf hreads, hba]
      omega
    simp [hba ▸ hnot, hba, ha]
  · by_cases hb : b ∈ tailOf a i
    · simp [hb, hba, ByteMap.contains_of_unprocessed (htail b hb).1]
    · simp [hb, hba]

lemma start_markInstruction (b : Address) :
    ((markInstruction m a i suspicious).marks b).start = ((m.marks b).start || decide (b = a)) := by
  unfold ByteMap.marks
  rw [cell_markInstruction h hv]
  by_cases hba : b = a <;> by_cases hb : b ∈ tailOf a i <;> simp [hba, hb, Cell.mark]

lemma body_markInstruction (b : Address) :
    ((markInstruction m a i suspicious).marks b).body =
      ((m.marks b).body || decide (b ∈ tailOf a i)) := by
  have hnot : a ∉ tailOf a i := by
    rw [hv.mem_tailOf (examine_eq_some h).2.1]
    omega
  unfold ByteMap.marks
  rw [cell_markInstruction h hv]
  by_cases hba : b = a
  · simp [hba, hnot, Cell.mark]
  · by_cases hb : b ∈ tailOf a i <;> simp [hba, hb, Cell.mark]

/-- The first byte of an instruction is suspicious when the instruction is. -/
lemma suspicious_markInstruction (b : Address) :
    ((markInstruction m a i suspicious).marks b).suspicious =
      ((m.marks b).suspicious || (decide (b = a) && suspicious)) := by
  unfold ByteMap.marks
  rw [cell_markInstruction h hv]
  by_cases hba : b = a <;> by_cases hb : b ∈ tailOf a i <;> simp [hba, hb, Cell.mark]

lemma labelled_markInstruction (b : Address) :
    ((markInstruction m a i suspicious).marks b).labelled = (m.marks b).labelled := by
  unfold ByteMap.marks
  rw [cell_markInstruction h hv]
  by_cases hba : b = a <;> by_cases hb : b ∈ tailOf a i <;> simp [hba, hb, Cell.mark]

/-- Laying down an instruction changes nothing but which bytes are code. -/
lemma other_markInstruction (b : Address) :
    ((markInstruction m a i suspicious).marks b).data = (m.marks b).data ∧
      ((markInstruction m a i suspicious).marks b).entry = (m.marks b).entry ∧
      ((markInstruction m a i suspicious).marks b).anchor = (m.marks b).anchor ∧
      (markInstruction m a i suspicious).dataClass b = m.dataClass b := by
  unfold ByteMap.marks ByteMap.dataClass
  rw [cell_markInstruction h hv]
  by_cases hba : b = a <;> by_cases hb : b ∈ tailOf a i <;> simp [hba, hb, Cell.mark]

/-- The instructions that stand stay where they are. -/
lemma Stands.markInstruction {x : Address} {j : Instruction} (hj : v.Stands m x j) :
    v.Stands (markInstruction m a i suspicious) x j := by
  obtain ⟨hkind, hreads, htail⟩ := examine_eq_some h
  have ha := ByteMap.kind_eq_unprocessed_iff.mp hkind
  refine ⟨hj.reads, ?_, fun b hb => ?_, ?_⟩
  · rw [start_markInstruction h hv, hj.start, Bool.true_or]
  · rw [body_markInstruction h hv, hj.body b hb, Bool.true_or]
  · rw [body_markInstruction h hv, hj.ends, Bool.false_or, decide_eq_false_iff_not,
      hv.mem_tailOf hreads]
    rintro ⟨hlt, hstop⟩
    by_cases hxa : x.toNat ≤ a.toNat
    · -- the new instruction would start inside the one that stands
      have hcode := hj.isCode hv hxa hlt
      rw [Marks.isCode, ha.1, ha.2.1] at hcode
      cases hcode
    · -- the one that stands would start inside the new instruction
      have hjlt := hv.lt_stop hj.reads
      have hx := (htail x ((hv.mem_tailOf hreads).mpr ⟨by omega, by omega⟩)).1
      have hstart := (ByteMap.kind_eq_unprocessed_iff.mp hx).1
      rw [hj.start] at hstart
      cases hstart

/-- The instruction that is laid down stands. -/
lemma Tiled.stands_markInstruction (ht : v.Tiled m) :
    v.Stands (Survey.markInstruction m a i suspicious) a i := by
  obtain ⟨hkind, hreads, htail⟩ := examine_eq_some h
  have ha := ByteMap.kind_eq_unprocessed_iff.mp hkind
  have hlt := hv.lt_stop hreads
  refine ⟨hreads, ?_, fun b hb => ?_, ?_⟩
  · rw [start_markInstruction h hv, decide_eq_true rfl, Bool.or_true]
  · rw [body_markInstruction h hv, decide_eq_true hb, Bool.or_true]
  · have hout : i.stop ∉ tailOf a i := by
      rw [hv.mem_tailOf hreads]
      omega
    rw [body_markInstruction h hv, decide_eq_false hout, Bool.or_false]
    by_contra hbody
    obtain ⟨x, j, hj, hmem⟩ := ht.bodies (Bool.not_eq_false _ ▸ hbody)
    obtain ⟨hx, hstop⟩ := (hv.mem_tailOf hj.reads).mp hmem
    by_cases hxa : x.toNat ≤ a.toNat
    · have hcode := hj.isCode hv hxa (by omega)
      rw [Marks.isCode, ha.1, ha.2.1] at hcode
      cases hcode
    · have hunprocessed := (htail x ((hv.mem_tailOf hreads).mpr ⟨by omega, hx⟩)).1
      have hstart := (ByteMap.kind_eq_unprocessed_iff.mp hunprocessed).1
      rw [hj.start] at hstart
      cases hstart

/-- **Laying down an instruction keeps a map tiled.** -/
lemma Tiled.markInstruction (ht : v.Tiled m) : v.Tiled (markInstruction m a i suspicious) := by
  obtain ⟨hkind, hreads, htail⟩ := examine_eq_some h
  have ha := ByteMap.kind_eq_unprocessed_iff.mp hkind
  have hnot : a ∉ tailOf a i := by
    rw [hv.mem_tailOf hreads]
    omega
  have hnew : v.Stands (Survey.markInstruction m a i suspicious) a i :=
    ht.stands_markInstruction h hv
  refine ⟨fun b => ?_, fun {b} hforeign => ?_, fun {b} hstart => ?_, fun {b} hbody => ?_⟩
  · have hold := ht.exclusive b
    unfold Marks.Exclusive at hold ⊢
    rw [start_markInstruction h hv, body_markInstruction h hv, (other_markInstruction h hv b).1]
    by_cases hba : b = a
    · simp [hba, hnot, ha]
    · by_cases hb : b ∈ tailOf a i
      · have hunprocessed := ByteMap.kind_eq_unprocessed_iff.mp (htail b hb).1
        simp [hba, hb, hunprocessed]
      · simpa [hba, hb] using hold
  · rw [(other_markInstruction h hv b).1]
    exact ht.foreign hforeign
  · by_cases hba : b = a
    · exact ⟨i, hba ▸ hnew⟩
    · rw [start_markInstruction h hv, decide_eq_false hba, Bool.or_false] at hstart
      obtain ⟨j, hj⟩ := ht.starts hstart
      exact ⟨j, hj.markInstruction h hv⟩
  · by_cases hb : b ∈ tailOf a i
    · exact ⟨a, i, hnew, hb⟩
    · rw [body_markInstruction h hv, decide_eq_false hb, Bool.or_false] at hbody
      obtain ⟨x, j, hj, hmem⟩ := ht.bodies hbody
      exact ⟨x, j, hj.markInstruction h hv, hmem⟩

end Decode

end Survey

/-! ## Clearing a span -/

/-- The span holds code and no anchor, and cuts no instruction in two. -/
structure ByteMap.Severable (m : ByteMap) (s : Span) : Prop where
  code {a : Address} : a ∈ s → (m.marks a).isCode = true
  free {a : Address} : a ∈ s → (m.marks a).isAnchored = false
  first : (m.marks s.start).body = false
  behind : (m.marks s.stop).body = false

lemma ByteMap.Severable.marks_clear {m : ByteMap} {s : Span} (h : m.Severable s) (b : Address) :
    (m.clear s).marks b = if b ∈ s then .none else m.marks b := by
  rw [ByteMap.marks_clear]
  refine if_congr ⟨And.left, fun hb => ⟨hb, contains_of_isCode (h.code hb)⟩⟩ rfl rfl

namespace Survey

variable {v : Survey} {m m' : ByteMap} {s : Span} {a b : Address} {i : Instruction}

/-- The instructions that start outside a span that cuts none in two have no byte in it. -/
lemma Stands.not_mem_of_severable (hv : v.Proper) (hs : m.Severable s) (h : v.Stands m a i)
    (ha : a ∉ s) (hb : b ∈ tailOf a i) : b ∉ s := by
  intro hbs
  obtain ⟨hab, hstop⟩ := (hv.mem_tailOf h.reads).mp hb
  obtain ⟨hfirst, hbehind⟩ := Span.mem_iff.mp hbs
  rw [Span.mem_iff] at ha
  have hle := h.stop_le_of_not_body hv hs.first (by omega)
  omega

lemma Stands.clear (hv : v.Proper) (hs : m.Severable s) (h : v.Stands m a i) (ha : a ∉ s) :
    v.Stands (m.clear s) a i where
  reads := h.reads
  start := by rw [hs.marks_clear, if_neg ha, h.start]
  body b hb := by rw [hs.marks_clear, if_neg (h.not_mem_of_severable hv hs ha hb), h.body b hb]
  ends := by
    rw [hs.marks_clear]
    split
    · rfl
    · exact h.ends

/-- **Clearing a span that cuts no instruction in two keeps a map tiled.** -/
lemma Tiled.clear (hv : v.Proper) (hs : m.Severable s) (h : v.Tiled m) : v.Tiled (m.clear s) := by
  refine ⟨fun b => ?_, fun {b} hforeign => ?_, fun {b} hstart => ?_, fun {b} hbody => ?_⟩
  · rw [hs.marks_clear]
    split
    · decide
    · exact h.exclusive b
  · rw [hs.marks_clear, if_neg]
    · exact h.foreign hforeign
    · intro hb
      rw [h.executable (hs.code hb)] at hforeign
      cases hforeign
  · rw [hs.marks_clear] at hstart
    split at hstart
    · cases hstart
    · next hb =>
      obtain ⟨i, hi⟩ := h.starts hstart
      exact ⟨i, hi.clear hv hs hb⟩
  · rw [hs.marks_clear] at hbody
    split at hbody
    · cases hbody
    · next hb =>
      obtain ⟨a, i, hi, hmem⟩ := h.bodies hbody
      refine ⟨a, i, hi.clear hv hs ?_, hmem⟩
      -- an instruction that starts in the span ends in it
      intro ha
      obtain ⟨hab, hstop⟩ := (hv.mem_tailOf hi.reads).mp hmem
      have hle := hi.stop_le_of_not_body hv hs.behind (Span.mem_iff.mp ha).2
      refine hb (Span.mem_iff.mpr ⟨?_, by omega⟩)
      have hfirst := (Span.mem_iff.mp ha).1
      omega

/-! ## The changes of a survey -/

/-- **What can happen to the map of a survey.** -/
inductive Change (v : Survey) : ByteMap → ByteMap → Prop
  | keep {m m' : ByteMap} : m.Keeps m' → Change v m m'
  | decode {m : ByteMap} {a : Address} {i : Instruction} (suspicious : Bool) :
      v.examine m a = .ok (some i) → Change v m (markInstruction m a i suspicious)
  | clear {m : ByteMap} {s : Span} : m.Severable s → Change v m (m.clear s)

/-- A number of changes one after the other. -/
abbrev Changes (v : Survey) : ByteMap → ByteMap → Prop := Relation.ReflTransGen v.Change

/-- **A map of a survey in order**: it covers the executable regions, is tiled, and no instruction
runs over an anchor. -/
structure Sound (v : Survey) (m : ByteMap) : Prop where
  coverage : m.coverage = (ByteMap.ofImage v.image).coverage
  tiled : v.Tiled m
  free {a : Address} : (m.marks a).isAnchored = true → (m.marks a).body = false

lemma coverage_markInstruction (m : ByteMap) (a : Address) (i : Instruction) (suspicious : Bool) :
    (markInstruction m a i suspicious).coverage = m.coverage := by
  unfold markInstruction
  rw [ByteMap.coverage_markSpan, ByteMap.coverage_mark]

namespace Change

lemma coverage (h : v.Change m m') : m'.coverage = m.coverage := by
  cases h with
  | keep hkeeps => exact hkeeps.coverage
  | decode suspicious hexamine => exact coverage_markInstruction _ _ _ _
  | clear hs => exact ByteMap.coverage_clear _ _

/-- No anchor comes or goes. -/
lemma anchors (hv : v.Proper) (h : v.Change m m') (a : Address) :
    (m'.marks a).entry = (m.marks a).entry ∧ (m'.marks a).anchor = (m.marks a).anchor := by
  cases h with
  | keep hkeeps => exact ⟨hkeeps.entry a, hkeeps.anchor a⟩
  | decode suspicious hexamine =>
    exact ⟨(other_markInstruction hexamine hv a).2.1, (other_markInstruction hexamine hv a).2.2.1⟩
  | clear hs =>
    rw [hs.marks_clear]
    split
    · next ha =>
      have hfree := hs.free ha
      rw [Marks.isAnchored, Bool.or_eq_false_iff] at hfree
      exact ⟨hfree.1.symm, hfree.2.symm⟩
    · exact ⟨rfl, rfl⟩

lemma isAnchored (hv : v.Proper) (h : v.Change m m') (a : Address) :
    (m'.marks a).isAnchored = (m.marks a).isAnchored := by
  unfold Marks.isAnchored
  rw [(h.anchors hv a).1, (h.anchors hv a).2]

/-- **An instruction at an anchor stays.** -/
lemma stands (hv : v.Proper) (h : v.Change m m') (hanchored : (m.marks a).isAnchored = true)
    (hi : v.Stands m a i) : v.Stands m' a i := by
  cases h with
  | keep hkeeps => exact hi.keeps hkeeps
  | decode suspicious hexamine => exact hi.markInstruction hexamine hv
  | clear hs =>
    refine hi.clear hv hs fun ha => ?_
    rw [hs.free ha] at hanchored
    cases hanchored

lemma tiled (hv : v.Proper) (h : v.Change m m') (hm : v.Tiled m) : v.Tiled m' := by
  cases h with
  | keep hkeeps => exact hm.keeps hkeeps
  | decode suspicious hexamine => exact hm.markInstruction hexamine hv
  | clear hs => exact hm.clear hv hs

/-- No instruction comes to run over an anchor. -/
lemma free (hv : v.Proper) (h : v.Change m m')
    (hm : ∀ a, (m.marks a).isAnchored = true → (m.marks a).body = false)
    (hanchored : (m'.marks a).isAnchored = true) : (m'.marks a).body = false := by
  have hold := hm a (by rw [← h.isAnchored hv, hanchored])
  cases h with
  | keep hkeeps => rw [hkeeps.body, hold]
  | decode suspicious hexamine =>
    rw [body_markInstruction hexamine hv, hold, Bool.false_or, decide_eq_false_iff_not]
    intro hmem
    have htail := ((examine_eq_some hexamine).2.2 a hmem).2
    rw [← (Change.decode suspicious hexamine).isAnchored hv, hanchored] at htail
    cases htail
  | clear hs =>
    rw [hs.marks_clear]
    split
    · rfl
    · exact hold

/-- **A change keeps the map in order.** -/
lemma sound (hv : v.Proper) (h : v.Change m m') (hm : v.Sound m) : v.Sound m' where
  coverage := h.coverage.trans hm.coverage
  tiled := h.tiled hv hm.tiled
  free := h.free hv fun _ => hm.free

end Change

namespace Changes

lemma coverage (h : v.Changes m m') : m'.coverage = m.coverage := by
  induction h with
  | refl => rfl
  | tail _ hchange ih => exact hchange.coverage.trans ih

lemma anchors (hv : v.Proper) (h : v.Changes m m') (a : Address) :
    (m'.marks a).entry = (m.marks a).entry ∧ (m'.marks a).anchor = (m.marks a).anchor := by
  induction h with
  | refl => exact ⟨rfl, rfl⟩
  | tail _ hchange ih =>
    obtain ⟨hentry, hanchor⟩ := hchange.anchors hv a
    exact ⟨hentry.trans ih.1, hanchor.trans ih.2⟩

lemma isAnchored (hv : v.Proper) (h : v.Changes m m') (a : Address) :
    (m'.marks a).isAnchored = (m.marks a).isAnchored := by
  unfold Marks.isAnchored
  rw [(h.anchors hv a).1, (h.anchors hv a).2]

lemma stands (hv : v.Proper) (h : v.Changes m m') (hanchored : (m.marks a).isAnchored = true)
    (hi : v.Stands m a i) : v.Stands m' a i := by
  induction h with
  | refl => exact hi
  | tail hchanges hchange ih =>
    exact hchange.stands hv (by rw [Changes.isAnchored hv hchanges, hanchored]) ih

lemma sound (hv : v.Proper) (h : v.Changes m m') (hm : v.Sound m) : v.Sound m' := by
  induction h with
  | refl => exact hm
  | tail _ hchange ih => exact hchange.sound hv ih

end Changes

end Survey

end CodeSift
