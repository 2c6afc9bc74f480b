import CodeSift.Image.Loaded
import CodeSift.Proofs.ByteMap

/-!
# Loaded images

Loading leaves regions by ascending start, none of which reaches past the highest address
(`Image.Placed`).  Regions may overlap, and an address belongs to the first one that reaches it.
The two facts together make windows coherent: every address in the window of an address belongs to
the same region (`region?_of_mem_window`), so whether bytes are executable does not change inside a
window.

The map over an image covers every executable address, and a byte of it starts out undecided exactly
when it is executable (`cell_ofImage`).
-/

namespace CodeSift

/-- The regions of an image ascend, and end before addresses do. -/
structure Image.Placed (image : Image) : Prop where
  ascending : image.regions.Pairwise fun r q => r.start.toNat ≤ q.start.toNat
  fits : ∀ r ∈ image.regions, r.start.toNat + r.bytes.size < 2 ^ 32

namespace Region

/-- The region of a section, when it has one. -/
lemma eq_of_ofSection? {file : Array UInt8} {base : Address} {s : Section} {r : Region}
    (h : ofSection? file base s = some r) :
    ∃ start, Address.addChecked? base s.rva.toNat = some start ∧
      r = ⟨start, file.extract s.rawOffset.toNat
        (s.rawOffset.toNat + min s.rawSize.toNat (Address.last.toNat - start.toNat)),
        s.isExecutable, s.isReadable⟩ := by
  unfold ofSection? at h
  dsimp only at h
  split at h
  · cases h
  · obtain ⟨start, hstart, hr⟩ := Option.bind_eq_some_iff.mp h
    exact ⟨start, hstart, (Option.some.inj hr).symm⟩

lemma fits_of_ofSection? {file : Array UInt8} {base : Address} {s : Section} {r : Region}
    (h : ofSection? file base s = some r) : r.start.toNat + r.bytes.size < 2 ^ 32 := by
  obtain ⟨start, -, rfl⟩ := eq_of_ofSection? h
  have hlast : Address.last.toNat = 2 ^ 32 - 1 := rfl
  have hbound := start.toNat_lt
  show start.toNat + (file.extract _ _).size < 2 ^ 32
  rw [Array.size_extract]
  omega

/-- A region begins at the place of its section. -/
lemma toNat_start_of_ofSection? {file : Array UInt8} {base : Address} {s : Section} {r : Region}
    (h : ofSection? file base s = some r) : r.start.toNat = base.toNat + s.rva.toNat := by
  obtain ⟨start, hstart, rfl⟩ := eq_of_ofSection? h
  exact Address.addChecked?_eq_some.mp hstart

lemma toNat_stop {r : Region} (h : r.start.toNat + r.bytes.size < 2 ^ 32) :
    r.span.stop.toNat = r.start.toNat + r.bytes.size := Address.toNat_add_ofNat h

lemma mem_span_iff {r : Region} (h : r.start.toNat + r.bytes.size < 2 ^ 32) {a : Address} :
    a ∈ r.span ↔ r.start.toNat ≤ a.toNat ∧ a.toNat < r.start.toNat + r.bytes.size := by
  rw [Span.mem_iff, toNat_stop h]
  exact Iff.rfl

end Region

namespace Image

/-- **Loading places the regions.** -/
lemma placed_of_load {file : Array UInt8} {layout : Layout} {image : Image}
    (h : load file layout = .ok image) : image.Placed := by
  simp only [load] at h
  split at h
  · cases h
  · split at h
    · cases h
    · cases h
      refine ⟨pairwise_stableSort _ _, fun r hr => ?_⟩
      rw [mem_stableSort, List.mem_filterMap] at hr
      obtain ⟨s, -, hs⟩ := hr
      exact Region.fits_of_ofSection? hs

variable {image : Image}

/-! ## Windows -/

lemma mem_of_region? {a : Address} {r : Region} (h : image.region? a = some r) :
    r ∈ image.regions ∧ a ∈ r.span := by
  have hspan := List.find?_some h
  exact ⟨List.mem_of_find?_eq_some h, by simpa using hspan⟩

/-- A region that an address belongs to owns the addresses up to its end. -/
lemma find?_of_le {regions : List Region} {a b : Address} {r : Region}
    (hascending : regions.Pairwise fun r q => r.start.toNat ≤ q.start.toNat)
    (h : regions.find? (fun q => decide (a ∈ q.span)) = some r)
    (hab : a.toNat ≤ b.toNat) (hb : b.toNat < r.span.stop.toNat) :
    regions.find? (fun q => decide (b ∈ q.span)) = some r := by
  induction regions with
  | nil => cases h
  | cons q rest ih =>
    obtain ⟨hq, hrest⟩ := List.pairwise_cons.mp hascending
    by_cases haq : a ∈ q.span
    · rw [List.find?_cons_of_pos (by simpa using haq)] at h
      cases h
      have hbr : b ∈ r.span := Span.mem_iff.mpr ⟨Nat.le_trans (Span.mem_iff.mp haq).1 hab, hb⟩
      rw [List.find?_cons_of_pos (by simpa using hbr)]
    · rw [List.find?_cons_of_neg (by simpa using haq)] at h
      have hr := List.mem_of_find?_eq_some h
      have har : a ∈ r.span := by simpa using List.find?_some h
      have hstart : q.start.toNat ≤ r.start.toNat := hq r hr
      have hle : r.start.toNat ≤ a.toNat := (Span.mem_iff.mp har).1
      -- `q` starts no later than `r` and misses `a`, so it ends before `a` and misses `b` too
      have hbq : b ∉ q.span := by
        intro hbq
        refine haq (Span.mem_iff.mpr ⟨?_, ?_⟩)
        · show q.start.toNat ≤ a.toNat
          omega
        · have hstop := (Span.mem_iff.mp hbq).2
          omega
      rw [List.find?_cons_of_neg (by simpa using hbq)]
      exact ih hrest h

lemma length_window (hplaced : image.Placed) {a : Address} {r : Region}
    (h : image.region? a = some r) : a.toNat + (image.window a).length = r.span.stop.toNat := by
  obtain ⟨hr, ha⟩ := mem_of_region? h
  have hfits := hplaced.fits r hr
  rw [Region.mem_span_iff hfits] at ha
  have hoffset : r.offset a = a.toNat - r.start.toNat := Address.toNat_sub_of_le ha.1
  rw [Region.toNat_stop hfits, window, h]
  simp only [Array.length_toList, Array.size_extract, hoffset]
  omega

/-- The window of an address ends before addresses do. -/
lemma add_length_window_lt (hplaced : image.Placed) (a : Address) :
    a.toNat + (image.window a).length < 2 ^ 32 := by
  cases h : image.region? a with
  | none =>
    have hnil : image.window a = [] := by rw [window, h]
    rw [hnil]
    exact a.toNat_lt
  | some r =>
    rw [length_window hplaced h]
    exact r.span.stop.toNat_lt

/-- **Windows are coherent.**  The addresses of a window belong to one region. -/
lemma region?_of_mem_window (hplaced : image.Placed) {a b : Address} (hab : a.toNat ≤ b.toNat)
    (hb : b.toNat < a.toNat + (image.window a).length) : image.region? b = image.region? a := by
  cases h : image.region? a with
  | none =>
    have hnil : image.window a = [] := by rw [window, h]
    rw [hnil] at hb
    simp only [List.length_nil] at hb
    omega
  | some r =>
    rw [length_window hplaced h] at hb
    exact find?_of_le hplaced.ascending h hab hb

lemma isExecutable_of_mem_window (hplaced : image.Placed) {a b : Address} (hab : a.toNat ≤ b.toNat)
    (hb : b.toNat < a.toNat + (image.window a).length) :
    image.isExecutable b = image.isExecutable a := by
  rw [isExecutable, isExecutable, region?_of_mem_window hplaced hab hb]

/-- A word is read from the window of its address. -/
lemma four_le_length_window {a : Address} {w : UInt32} (h : image.word? a = some w) :
    4 ≤ (image.window a).length := by
  simp only [word?, Option.bind_eq_bind, Option.bind_eq_some_iff] at h
  obtain ⟨r, hr, hread⟩ := h
  split at hread
  · next hlength =>
    rw [window, hr]
    simp only [Array.length_toList, Array.size_extract] at hlength ⊢
    omega
  · cases hread

end Image

namespace ByteMap

variable {image : Image}

/-! ## The map over an image -/

lemma coverage_foldl_modify (m : ByteMap) (f : Cell → Cell) (addresses : List Address) :
    (addresses.foldl (fun m a => m.modify a f) m).coverage = m.coverage := by
  induction addresses generalizing m with
  | nil => rfl
  | cons a rest ih => rw [List.foldl_cons, ih, coverage_modify]

lemma coverage_ofImage (image : Image) :
    (ofImage image).coverage = Coverage.ofSpans image.executableSpans := by
  rw [ofImage, coverage_foldl_modify]
  rfl

lemma contains_ofImage_iff {a : Address} :
    (ofImage image).contains a = true ↔
      ∃ r ∈ image.regions, r.executable = true ∧ a ∈ r.span := by
  rw [contains, coverage_ofImage, Coverage.contains_ofSpans]
  simp only [Image.executableSpans, List.mem_map, List.mem_filter, exists_exists_and_eq_and]
  constructor
  · rintro ⟨r, ⟨hr, hexecutable⟩, ha⟩
    exact ⟨r, hr, hexecutable, ha⟩
  · rintro ⟨r, hr, hexecutable, ha⟩
    exact ⟨r, ⟨hr, hexecutable⟩, ha⟩

/-- Every executable address is covered. -/
lemma contains_ofImage_of_isExecutable {a : Address} (h : image.isExecutable a = true) :
    (ofImage image).contains a = true := by
  rw [Image.isExecutable, Option.any_eq_true] at h
  obtain ⟨r, hr, hexecutable⟩ := h
  obtain ⟨hmem, ha⟩ := Image.mem_of_region? hr
  exact contains_ofImage_iff.mpr ⟨r, hmem, hexecutable, ha⟩

lemma cell_ofSpans (spans : List Span) (a : Address) :
    (ofSpans spans).cell a = if (ofSpans spans).contains a = true then .fresh else .outside := by
  split
  · next h =>
    rw [contains, Coverage.contains, Option.isSome_iff_exists] at h
    obtain ⟨i, hi⟩ := h
    have hlt : i < (Coverage.ofSpans spans).size := Coverage.lt_size_of_index? hi
    rw [cell, hi]
    simp [ofSpans, hlt]
  · next h => exact cell_of_not_contains (by simpa using h)

/-- **The first map.**  A byte starts out undecided when it is executable, and as data when not. -/
lemma cell_ofImage (image : Image) (a : Address) :
    (ofImage image).cell a = if image.isExecutable a = true then .fresh else .outside := by
  by_cases hexecutable : image.isExecutable a = true
  · have hcontains := contains_ofImage_of_isExecutable hexecutable
    rw [contains, coverage_ofImage] at hcontains
    rw [if_pos hexecutable, ofImage, cell_foldl_modify, cell_ofSpans, if_neg, if_pos]
    · exact hcontains
    · simp [hexecutable]
    · exact (Coverage.nodup_addresses _).filter _
    · intro b hb
      exact Coverage.contains_iff.mpr (List.mem_filter.mp hb).1
  · rw [if_neg hexecutable]
    by_cases hcontains : (ofImage image).contains a = true
    · rw [contains, coverage_ofImage] at hcontains
      rw [ofImage, cell_foldl_modify, cell_ofSpans, if_pos, if_pos]
      · rfl
      · exact hcontains
      · exact List.mem_filter.mpr ⟨Coverage.contains_iff.mp hcontains, by simpa using hexecutable⟩
      · exact (Coverage.nodup_addresses _).filter _
      · intro b hb
        exact Coverage.contains_iff.mpr (List.mem_filter.mp hb).1
    · exact cell_of_not_contains (by simpa using hcontains)

/-- The code that an address admits: it is executable, covered, and neither data nor a body. -/
lemma admitsCode_iff {m : ByteMap} {a : Address} :
    m.admitsCode image a = true ↔ image.isExecutable a = true ∧ m.contains a = true ∧
      (m.marks a).data = false ∧ ((m.marks a).body = true → (m.marks a).start = true) := by
  simp only [admitsCode, Bool.and_eq_true, Bool.not_eq_true']
  cases (m.marks a).body <;> cases (m.marks a).start <;> simp [and_assoc]

end ByteMap

end CodeSift
