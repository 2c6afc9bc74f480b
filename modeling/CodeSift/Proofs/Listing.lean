import CodeSift.Analysis
import CodeSift.Proofs.Reachability

/-!
# The listing tiles the code

The listing of a tiled map leaves out no start: at each of them an instruction decodes, and it ends
where the map says that it ends.  So the listing holds exactly the instructions that stand in the
map, they ascend without overlap, and their bytes are the bytes of code, each once.  In the last
state of a survey every other byte is data.

The main statement, `instructions_tile_code`, says this of every survey of a loaded image with the
x86 decoder, also when the decoder is made to fail at some addresses and when the survey is
cancelled.
-/

namespace CodeSift

open Survey

variable {v : Survey} {m : ByteMap} {a b : Address} {i : Instruction}

/-! ## Listings -/

/-- **The listing holds exactly the instructions that stand.** -/
lemma mem_listing (hv : v.Proper) (h : v.Tiled m) :
    (a, i) ∈ listing v.image v.decoder m ↔ v.Stands m a i := by
  unfold listing
  rw [List.mem_filterMap]
  constructor
  · rintro ⟨b, hb, hentry⟩
    obtain ⟨j, hj⟩ := h.starts (ByteMap.mem_starts.mp hb)
    have hreads : v.decoder (v.image.window b) b = .ok j := hj.reads
    rw [hreads] at hentry
    dsimp only at hentry
    rw [if_pos (hj.instructionStop_eq hv).symm] at hentry
    cases hentry
    exact hj
  · intro hi
    refine ⟨a, ByteMap.mem_starts.mpr hi.start, ?_⟩
    have hreads : v.decoder (v.image.window a) a = .ok i := hi.reads
    rw [hreads]
    dsimp only
    rw [if_pos (hi.instructionStop_eq hv).symm]

lemma map_fst_filterMap {α β : Type} {f : α → Option (α × β)} {l : List α}
    (h : ∀ a ∈ l, ∃ b, f a = some (a, b)) : (l.filterMap f).map Prod.fst = l := by
  induction l with
  | nil => rfl
  | cons a rest ih =>
    rw [List.forall_mem_cons] at h
    obtain ⟨⟨b, hb⟩, hrest⟩ := h
    rw [List.filterMap_cons_some hb, List.map_cons, ih hrest]

/-- **No start is left out of the listing.** -/
lemma map_fst_listing (hv : v.Proper) (h : v.Tiled m) :
    (listing v.image v.decoder m).map Prod.fst = m.starts := by
  refine map_fst_filterMap fun a ha => ?_
  obtain ⟨i, hi⟩ := h.starts (ByteMap.mem_starts.mp ha)
  have hreads : v.decoder (v.image.window a) a = .ok i := hi.reads
  refine ⟨i, ?_⟩
  rw [hreads]
  dsimp only
  rw [if_pos (hi.instructionStop_eq hv).symm]

/-- The instructions of the listing ascend without overlap. -/
lemma pairwise_listing (hv : v.Proper) (h : v.Tiled m) :
    (listing v.image v.decoder m).Pairwise fun p q =>
      p.1.toNat < q.1.toNat ∧ p.2.stop.toNat ≤ q.1.toNat := by
  have hascending := m.pairwise_starts
  rw [← map_fst_listing hv h, List.pairwise_map] at hascending
  refine hascending.imp_of_mem fun {p q} hp hq hlt => ?_
  have hfirst := (mem_listing hv h).mp hp
  have hsecond := (mem_listing hv h).mp hq
  have hlt := UInt32.lt_iff_toNat_lt.mp hlt
  exact ⟨hlt, hfirst.stop_le_of_not_body hv ((h.exclusive q.1).body_of_start hsecond.start) hlt⟩

/-- The bytes of the listed instructions are the bytes of code. -/
lemma isCode_iff_exists_mem_listing (hv : v.Proper) (h : v.Tiled m) :
    (m.marks b).isCode = true ↔
      ∃ p ∈ listing v.image v.decoder m, p.1.toNat ≤ b.toNat ∧ b.toNat < p.2.stop.toNat := by
  constructor
  · intro hcode
    rw [Marks.isCode, Bool.or_eq_true] at hcode
    rcases hcode with hstart | hbody
    · obtain ⟨i, hi⟩ := h.starts hstart
      exact ⟨(b, i), (mem_listing hv h).mpr hi, Nat.le_refl _, hv.lt_stop hi.reads⟩
    · obtain ⟨a, i, hi, hmem⟩ := h.bodies hbody
      obtain ⟨hlt, hstop⟩ := (hv.mem_tailOf hi.reads).mp hmem
      exact ⟨(a, i), (mem_listing hv h).mpr hi, Nat.le_of_lt hlt, hstop⟩
  · rintro ⟨⟨a, i⟩, hp, hle, hlt⟩
    exact ((mem_listing hv h).mp hp).isCode hv hle hlt

/-! ## Counts -/

/-- Where every byte is decided, code and data are all there is. -/
lemma countKind_add_eq_size (h : ∀ a, m.kind a ≠ .unprocessed) :
    m.countKind .instructionStart + m.countKind .instructionBody + m.countKind .data = m.size := by
  rw [ByteMap.countKind_eq, ByteMap.countKind_eq, ByteMap.countKind_eq, ByteMap.size_eq]
  induction m.coverage.addresses with
  | nil => rfl
  | cons a rest ih =>
    have ha := h a
    simp only [List.filter_cons, List.length_cons]
    cases hkind : m.kind a with
    | unprocessed => exact absurd hkind ha
    | instructionStart => simp; omega
    | instructionBody => simp; omega
    | data => simp; omega

/-! ## Surveys of loaded images -/

lemma proper_of_x86 {file : Array UInt8} {layout : Layout} {mode : CpuMode} {failing : List Address}
    (hload : Image.load file layout = .ok v.image)
    (hdecoder : v.decoder = (Decoder.x86 mode v.image.span).failingAt failing) : v.Proper where
  placed := Image.placed_of_load hload
  faithful := hdecoder ▸ (Decoder.faithful_x86 mode v.image.span).failingAt failing

/-- **In every state of a survey** no byte is two things at once and only executable bytes are code;
each start is that of an instruction which decodes there, runs through the bytes behind and ends
before a byte that is no body; and each body belongs to such an instruction.  **In its last state**
every byte is decided, code and data add up to all bytes, and the listing holds one entry for each
start, ascending, without overlap, and made of exactly the bytes of code. -/
theorem instructions_tile_code {file : Array UInt8} {layout : Layout} {mode : CpuMode}
    {failing : List Address} {s : State} (hload : Image.load file layout = .ok v.image)
    (hdecoder : v.decoder = (Decoder.x86 mode v.image.span).failingAt failing)
    (hs : v.Reachable s) :
    (∀ a, (s.map.marks a).Exclusive ∧
      ((s.map.marks a).isCode = true → v.image.isExecutable a = true)) ∧
    (∀ a, (s.map.marks a).start = true → ∃ i, v.Stands s.map a i) ∧
    (∀ b, (s.map.marks b).body = true → ∃ a i, v.Stands s.map a i ∧ b ∈ tailOf a i) ∧
    (s.phase = .done →
      (∀ a, s.map.kind a ≠ .unprocessed) ∧
      s.map.countKind .instructionStart + s.map.countKind .instructionBody + s.map.countKind .data =
        s.map.size ∧
      (listing v.image v.decoder s.map).map Prod.fst = s.map.starts ∧
      (∀ a, a ∈ s.map.starts ↔ (s.map.marks a).start = true) ∧
      (listing v.image v.decoder s.map).Pairwise
        (fun p q => p.1.toNat < q.1.toNat ∧ p.2.stop.toNat ≤ q.1.toNat) ∧
      ∀ b, (s.map.marks b).isCode = true ↔
        ∃ p ∈ listing v.image v.decoder s.map, p.1.toNat ≤ b.toNat ∧ b.toNat < p.2.stop.toNat) := by
  have hv := proper_of_x86 hload hdecoder
  have hconsistent := hs.consistent hv
  have htiled := hconsistent.sound.tiled
  refine ⟨fun a => ⟨htiled.exclusive a, htiled.executable⟩, fun a => htiled.starts,
    fun b => htiled.bodies, fun hdone => ?_⟩
  have hdecided := hconsistent.decided hdone
  exact ⟨hdecided, countKind_add_eq_size hdecided, map_fst_listing hv htiled,
    fun a => ByteMap.mem_starts, pairwise_listing hv htiled,
    fun b => isCode_iff_exists_mem_listing hv htiled⟩

/-- The small survey ends after four steps with three instructions and five bytes of data. -/
theorem instructions_tile_code_sample :
    Image.load sampleFile sampleImage.layout = .ok sample.image ∧
      (sample.stateAt (fun _ => false) 4).phase = .done ∧
      (listing sample.image sample.decoder (sample.stateAt (fun _ => false) 4).map).map Prod.fst =
        (sample.stateAt (fun _ => false) 4).map.starts ∧
      (sample.stateAt (fun _ => false) 4).map.countKind .instructionStart +
        (sample.stateAt (fun _ => false) 4).map.countKind .instructionBody +
        (sample.stateAt (fun _ => false) 4).map.countKind .data = 11 := by
  have hload : Image.load sampleFile sampleImage.layout = .ok sample.image := by decide +kernel
  have hdone : (sample.stateAt (fun _ => false) 4).phase = .done := by decide +kernel
  have hsize : (sample.stateAt (fun _ => false) 4).map.size = 11 := by decide +kernel
  obtain ⟨-, -, -, hlast⟩ := instructions_tile_code hload rfl (reachable_stateAt sample _ 4)
  obtain ⟨-, hcount, hlisting, -⟩ := hlast hdone
  exact ⟨hload, hdone, hlisting, hcount.trans hsize⟩

end CodeSift
