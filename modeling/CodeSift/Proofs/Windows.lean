import CodeSift.Proofs.FileOffsets

/-!
# Windows of a loaded image

All decoding reads from windows: the bytes from an address to the end of its region.  Sections may
overlap, share their starts, be cut short by the file or reach the end of the address space; the
regions are sorted by start, and an address belongs to the first of them that reaches it.

A window is a piece of the file that the file has, and it ends before addresses do.  Its addresses
all belong to the region of the first, so that reading them one by one gives the window again, and
either all of them are executable or none is (`windows_are_coherent`).  The first map covers what
the executable sections cover, and of that leaves undecided what is executable.
-/

namespace CodeSift

variable {file : Array UInt8} {layout : Layout} {image : Image} {base a : Address}
  {s : Section} {r : Region}

/-! ## Sections in memory -/

/-- The addresses at which the file has bytes for a section, if it has any; they stop at the highest
address. -/
def Section.mapped? (file : Array UInt8) (base : Address) (s : Section) : Option Span :=
  if file.size ≤ s.rawOffset.toNat ∨ s.rawSize = 0 then none
  else (Address.addChecked? base s.rva.toNat).map fun start =>
    Span.ofSize start (min (file.size - s.rawOffset.toNat) s.rawSize.toNat)

/-- The region of a section has the addresses of the section. -/
lemma Section.mapped?_eq :
    s.mapped? file base = (Region.ofSection? file base s).map Region.span := by
  unfold mapped? Region.ofSection?
  dsimp only
  by_cases hnone : file.size ≤ s.rawOffset.toNat ∨ s.rawSize = 0
  · rw [if_pos hnone, if_pos (by simpa using hnone), Option.map_none]
  · rw [if_neg hnone, if_neg (by simpa using hnone)]
    cases hstart : Address.addChecked? base s.rva.toNat with
    | none => rfl
    | some start =>
      have hlast : Address.last.toNat = 2 ^ 32 - 1 := rfl
      have hbound := start.toNat_lt
      simp only [Option.map_some, Option.bind_eq_bind, Option.bind_some, Option.pure_def,
        Region.span, Span.ofSize]
      -- the piece of the file is cut so that the plain sum is the one that stops
      congr 2
      rw [← UInt32.toNat_inj, Address.toNat_addSaturated, Address.toNat_add_ofNat,
        Array.size_extract]
      · omega
      · rw [Array.size_extract]
        omega

lemma Region.executable_of_ofSection? (h : ofSection? file base s = some r) :
    r.executable = s.isExecutable := by
  obtain ⟨start, -, rfl⟩ := eq_of_ofSection? h
  rfl

namespace Image

lemma mem_regions_of_load (h : load file layout = .ok image) :
    r ∈ image.regions ↔ ∃ s ∈ layout.sections, Region.ofSection? file layout.base s = some r := by
  rw [eq_of_load h, mem_stableSort, List.mem_filterMap]

/-! ## Reading a window -/

lemma window_of_region? (h : image.region? a = some r) :
    image.window a = (r.bytes.extract (r.offset a) r.bytes.size).toList := by
  rw [window, h]

lemma window_of_unmapped (h : image.region? a = none) : image.window a = [] := by
  rw [window, h]

/-- **Reading the addresses of a window** one by one gives its bytes. -/
lemma byte?_of_mem_window (hplaced : image.Placed) {k : Nat} (hk : k < (image.window a).length) :
    image.byte? (a + UInt32.ofNat k) = (image.window a)[k]? := by
  have hsum : (a + UInt32.ofNat k).toNat = a.toNat + k := by
    have hend := add_length_window_lt hplaced a
    exact Address.toNat_add_ofNat (by omega)
  have hregion : image.region? (a + UInt32.ofNat k) = image.region? a :=
    region?_of_mem_window hplaced (by omega) (by omega)
  cases h : image.region? a with
  | none =>
    rw [window_of_unmapped h] at hk
    cases hk
  | some r =>
    obtain ⟨hr, ha⟩ := mem_of_region? h
    rw [Region.mem_span_iff (hplaced.fits r hr)] at ha
    have hoffset : r.offset (a + UInt32.ofNat k) = r.offset a + k := by
      rw [Region.offset, Region.offset, Address.toNat_sub_of_le ha.1,
        Address.toNat_sub_of_le (by omega)]
      omega
    have hlength := length_window hplaced h
    rw [Region.toNat_stop (hplaced.fits r hr)] at hlength
    have hstart : r.offset a = a.toNat - r.start.toNat := Address.toNat_sub_of_le ha.1
    rw [byte?, hregion, h, window_of_region? h, Array.getElem?_toList, Array.getElem?_extract,
      if_pos (by omega)]
    show r.bytes[r.offset (a + UInt32.ofNat k)]? = _
    rw [hoffset]

/-- Every address of a window has a byte. -/
lemma exists_byte?_of_mem_window (hplaced : image.Placed) {b : Address} (hab : a.toNat ≤ b.toNat)
    (hb : b.toNat < a.toNat + (image.window a).length) : ∃ c, image.byte? b = some c := by
  have hsum : a + UInt32.ofNat (b.toNat - a.toNat) = b := by
    have hbound := b.toNat_lt
    rw [← UInt32.toNat_inj, Address.toNat_add_ofNat (by omega)]
    omega
  have hk : b.toNat - a.toNat < (image.window a).length := by omega
  have hbyte := byte?_of_mem_window hplaced hk
  rw [hsum] at hbyte
  exact ⟨_, hbyte.trans (List.getElem?_eq_getElem hk)⟩

/-- **The bytes are a piece of the file.**  They belong to a section in which the address lies,
begin as far into the section as the address, and end where the section does. -/
structure PieceOfFile (file : Array UInt8) (layout : Layout) (a : Address) (s : Section)
    (span : Span) (bytes : List UInt8) : Prop where
  listed : s ∈ layout.sections
  mapped : s.mapped? file layout.base = some span
  mem : a ∈ span
  within : s.rawOffset.toNat + span.size ≤ file.size
  nonempty : a.toNat - span.start.toNat < span.size
  eq : bytes = (file.extract (s.rawOffset.toNat + (a.toNat - span.start.toNat))
    (s.rawOffset.toNat + span.size)).toList

/-- The window of an address is a piece of what its region was made from. -/
lemma pieceOfFile_window (hload : load file layout = .ok image) (h : image.region? a = some r) :
    ∃ s, Region.ofSection? file layout.base s = some r ∧
      PieceOfFile file layout a s r.span (image.window a) := by
  obtain ⟨hr, ha⟩ := mem_of_region? h
  obtain ⟨s, hs, hsection⟩ := (mem_regions_of_load hload).mp hr
  have hfits := Region.fits_of_ofSection? hsection
  have hsize := Region.size_bytes_of_ofSection? hsection
  have hstart : r.span.start = r.start := rfl
  have hspan : r.span.size = r.bytes.size := by
    rw [Span.size, Region.toNat_stop hfits, hstart, Nat.add_sub_cancel_left]
  have hmem := (Region.mem_span_iff hfits).mp ha
  refine ⟨s, hsection, hs, ?_, ha, ?_, ?_, ?_⟩
  · rw [Section.mapped?_eq, hsection, Option.map_some]
  · rw [hspan]
    omega
  · rw [hspan, hstart]
    omega
  · rw [window_of_region? h, hspan, hstart, Region.offset, Address.toNat_sub_of_le hmem.1]
    -- a piece of a piece: only the bytes are followed to the file, their number stays
    conv_lhs => rw [Region.bytes_of_ofSection? hsection, Array.extract_extract,
      ← Region.bytes_of_ofSection? hsection]
    congr 2
    omega

end Image

/-! ## The first map -/

lemma ByteMap.contains_ofImage_iff_mapped (hload : Image.load file layout = .ok image) :
    (ofImage image).contains a = true ↔
      ∃ s ∈ layout.sections, s.isExecutable = true ∧ ∃ span,
        s.mapped? file layout.base = some span ∧ a ∈ span := by
  rw [contains_ofImage_iff]
  constructor
  · rintro ⟨r, hr, hexecutable, ha⟩
    obtain ⟨s, hs, hsection⟩ := (Image.mem_regions_of_load hload).mp hr
    refine ⟨s, hs, ?_, r.span, by rw [Section.mapped?_eq, hsection, Option.map_some], ha⟩
    rw [← Region.executable_of_ofSection? hsection, hexecutable]
  · rintro ⟨s, hs, hexecutable, span, hspan, ha⟩
    rw [Section.mapped?_eq, Option.map_eq_some_iff] at hspan
    obtain ⟨r, hsection, rfl⟩ := hspan
    refine ⟨r, (Image.mem_regions_of_load hload).mpr ⟨s, hs, hsection⟩, ?_, ha⟩
    rw [Region.executable_of_ofSection? hsection, hexecutable]

lemma ByteMap.kind_ofImage_eq_unprocessed_iff :
    (ofImage image).kind a = .unprocessed ↔ image.isExecutable a = true := by
  rw [kind, marks, cell_ofImage]
  cases image.isExecutable a <;> decide

/-! ## Coherence -/

/-- **Windows hang together.**  Nothing is read where nothing was loaded, and elsewhere a piece of
the file that the file has; no window reaches the highest address; the addresses of a window belong
to the region of the first, read as the window does, and are executable if the first is.  The first
map covers the executable sections, and a byte of it is undecided exactly if it is executable. -/
theorem windows_are_coherent (hload : Image.load file layout = .ok image) (a : Address) :
    (image.region? a = none → image.window a = []) ∧
    (∀ r, image.region? a = some r → ∃ s, Region.ofSection? file layout.base s = some r ∧
      Image.PieceOfFile file layout a s r.span (image.window a)) ∧
    a.toNat + (image.window a).length ≤ 0xffffffff ∧
    (∀ k < (image.window a).length,
      image.region? (a + UInt32.ofNat k) = image.region? a ∧
      image.byte? (a + UInt32.ofNat k) = (image.window a)[k]? ∧
      image.isExecutable (a + UInt32.ofNat k) = image.isExecutable a) ∧
    ((ByteMap.ofImage image).contains a = true ↔ ∃ s ∈ layout.sections, s.isExecutable = true ∧
      ∃ span, s.mapped? file layout.base = some span ∧ a ∈ span) ∧
    ((ByteMap.ofImage image).kind a = .unprocessed ↔ image.isExecutable a = true) := by
  have hplaced := Image.placed_of_load hload
  have hend := Image.add_length_window_lt hplaced a
  refine ⟨Image.window_of_unmapped, fun r => Image.pieceOfFile_window hload, by omega,
    fun k hk => ?_, ByteMap.contains_ofImage_iff_mapped hload,
    ByteMap.kind_ofImage_eq_unprocessed_iff⟩
  have hsum : (a + UInt32.ofNat k).toNat = a.toNat + k := Address.toNat_add_ofNat (by omega)
  exact ⟨Image.region?_of_mem_window hplaced (by omega) (by omega),
    Image.byte?_of_mem_window hplaced hk,
    Image.isExecutable_of_mem_window hplaced (by omega) (by omega)⟩

/-- Code, data over its first byte, and more code that the highest address cuts short. -/
def crowdedLayout : Layout where
  base := 0xffffe000
  entry := 0x1000
  sections :=
    [⟨".text", 0x1000, 4, 0, Section.holdsCode⟩, ⟨".top", 0x1ffc, 8, 2, Section.mayExecute⟩,
    ⟨".data", 0x0ffe, 3, 4, Section.mayRead⟩]

/-- The data is read in one piece with its last byte, which the code covers and does not own; and
the window of the code at the top ends at the highest address. -/
theorem windows_are_coherent_crowded :
    ∃ image, Image.load numberedFile crowdedLayout = .ok image ∧
      image.window 0xffffeffe = [4, 5, 6] ∧ image.byte? (0xffffeffe + UInt32.ofNat 2) = some 6 ∧
      image.isExecutable (0xffffeffe + UInt32.ofNat 2) = false ∧
      (ByteMap.ofImage image).contains 0xfffff000 = true ∧
        (ByteMap.ofImage image).kind 0xfffff000 ≠ .unprocessed ∧
      image.window 0xfffffffc = [2, 3, 4] ∧
      (0xfffffffc : Address).toNat + (image.window 0xfffffffc).length ≤ 0xffffffff := by
  refine ⟨_, rfl, ?_⟩
  have hdata := @windows_are_coherent numberedFile crowdedLayout _ rfl 0xffffeffe
  have hcode := @windows_are_coherent numberedFile crowdedLayout _ rfl 0xfffff000
  have htop := @windows_are_coherent numberedFile crowdedLayout _ rfl 0xfffffffc
  obtain ⟨-, hbyte, hexecutable⟩ := hdata.2.2.2.1 2 (by decide +kernel)
  refine ⟨by decide +kernel, hbyte.trans (by decide +kernel),
    hexecutable.trans (by decide +kernel), ?_, ?_, by decide +kernel, htop.2.2.1⟩
  · exact hcode.2.2.2.2.1.mpr ⟨⟨".text", 0x1000, 4, 0, Section.holdsCode⟩, by decide, by decide,
      ⟨0xfffff000, 0xfffff004⟩, by decide +kernel, by decide⟩
  · rw [Ne, hcode.2.2.2.2.2]
    decide +kernel

end CodeSift
