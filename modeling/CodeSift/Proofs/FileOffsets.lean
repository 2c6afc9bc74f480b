import CodeSift.Proofs.Image

/-!
# Bytes in memory and in the file

There are two ways from a place relative to the base to a byte.  One goes through memory: the
address of the place belongs to a region, and the region holds a byte for it.  The other goes
straight to the file: the first listed section that the place lies in says at which offset its byte
is.

Both ways end at a byte of the file, but they choose the section differently.  Memory takes, of the
sections that bring a byte for the place, the one that starts lowest, and the first listed of those
(`Layout.supplier?`).  The way to the file takes the first listed section, also when it starts
higher than another, and also when the file is too short for it.  So where there is a byte in memory
there is always an offset in the file, and the byte there is the same one as long as the first
listed section supplies the place and no section that supplies it starts lower
(`byte_at_file_offset`); with overlapping sections it may be another
(`file_offset_in_other_section`).
-/

namespace CodeSift

variable {α β : Type}

/-! ## Searching what is sorted -/

/-- Of a sorted list with one more element, the first to pass a test is the new element, or the old
one if that has a lower key. -/
lemma find?_insertByKey (key : α → Nat) (test : α → Bool) (x : α) {l : List α}
    (hsorted : l.Pairwise fun y z => key y ≤ key z) :
    (insertByKey key x l).find? test =
      if test x = true then some ((l.find? test).elim x (minOn key x)) else l.find? test := by
  induction l with
  | nil => cases hx : test x <;> simp [insertByKey, hx]
  | cons y rest ih =>
    obtain ⟨hy, hrest⟩ := List.pairwise_cons.mp hsorted
    unfold insertByKey
    split
    · next hxy =>
      rw [List.find?_cons]
      cases hx : test x with
      | false => simp
      | true =>
        -- the first of the rest to pass has a key no lower than that of `y`
        have hle : ∀ z, (y :: rest).find? test = some z → key x ≤ key z := by
          intro z hz
          rcases List.mem_cons.mp (List.mem_of_find?_eq_some hz) with rfl | hmem
          · exact hxy
          · exact Nat.le_trans hxy (hy z hmem)
        cases hfind : (y :: rest).find? test with
        | none => rfl
        | some z => simp [minOn, hle z hfind]
    · next hxy =>
      rw [List.find?_cons, List.find?_cons, ih hrest]
      cases hy : test y with
      | false => rfl
      | true => cases hx : test x <;> simp [minOn, hxy]

/-- **Searching what is sorted.**  Take the results of `f` by ascending keys.  The first of them to
pass a test comes from the least argument whose result passes, and from the first such one. -/
lemma find?_stableSort_filterMap {f : β → Option α} {key : α → Nat} {rank : β → Nat}
    {test : α → Bool}
    (hkey : ∀ s t r q, f s = some r → f t = some q → (key r ≤ key q ↔ rank s ≤ rank t))
    (l : List β) :
    (stableSort key (l.filterMap f)).find? test =
      ((l.filter fun s => (f s).any test).minOn? rank).bind f := by
  induction l with
  | nil => rfl
  | cons s rest ih =>
    cases hs : f s with
    | none => simp [hs, ih]
    | some r =>
      rw [List.filterMap_cons_some hs, stableSort,
        find?_insertByKey key test r (pairwise_stableSort _ _), ih]
      cases hr : test r with
      | false => simp [hs, hr]
      | true =>
        rw [List.filter_cons_of_pos (by simp [hs, hr]), List.minOn?_cons]
        cases hleast : (rest.filter fun t => (f t).any test).minOn? rank with
        | none => simp [hs]
        | some t =>
          have ht := List.mem_filter.mp (List.minOn?_mem hleast)
          obtain ⟨q, hq, -⟩ := (Option.any_eq_true _ _).mp ht.2
          have hiff := hkey s t r q hs hq
          by_cases hle : rank s ≤ rank t
          · simp [minOn, hle, hs, hq, hiff.mpr hle]
          · simp [minOn, hle, hq, hiff]

/-! ## The section that supplies a place -/

/-- The offset in the file of a place in the section. -/
def Section.fileOffset (s : Section) (rva : UInt32) : Nat := s.rawOffset.toNat + (rva - s.rva).toNat

/-- The section brings a byte to a place: the place lies in it, the file reaches that far, and so do
addresses. -/
def Section.supplies (file : Array UInt8) (base : Address) (rva : UInt32) (s : Section) : Bool :=
  s.contains rva && decide (s.fileOffset rva < file.size) &&
    decide (base.toNat + rva.toNat < Address.last.toNat)

/-- The section whose byte a place has in memory: of those that supply it the one that starts
lowest, and the first listed of these. -/
def Layout.supplier? (l : Layout) (file : Array UInt8) (rva : UInt32) : Option Section :=
  (l.sections.filter fun s => s.supplies file l.base rva).minOn? fun s => s.rva.toNat

variable {file : Array UInt8} {layout : Layout} {image : Image} {rva : UInt32}
  {base : Address} {s : Section}

lemma Section.contains_iff :
    s.contains rva = true ↔
      s.rva.toNat ≤ rva.toNat ∧ rva.toNat < s.rva.toNat + s.rawSize.toNat := by
  rw [contains, Bool.and_eq_true, decide_eq_true_eq, decide_eq_true_eq, UInt32.le_iff_toNat_le,
    UInt32.lt_iff_toNat_lt]
  constructor
  · rintro ⟨hle, hlt⟩
    rw [Address.toNat_sub_of_le hle] at hlt
    omega
  · rintro ⟨hle, hlt⟩
    rw [Address.toNat_sub_of_le hle]
    omega

lemma Section.fileOffset_of_contains (h : s.contains rva = true) :
    s.fileOffset rva = s.rawOffset.toNat + (rva.toNat - s.rva.toNat) := by
  rw [fileOffset, Address.toNat_sub_of_le (contains_iff.mp h).1]

lemma Section.supplies_iff :
    s.supplies file base rva = true ↔
      s.contains rva = true ∧ s.fileOffset rva < file.size ∧
        base.toNat + rva.toNat < 2 ^ 32 - 1 := by
  have hlast : Address.last.toNat = 2 ^ 32 - 1 := rfl
  rw [supplies, Bool.and_eq_true, Bool.and_eq_true, decide_eq_true_eq, decide_eq_true_eq,
    hlast, and_assoc]

namespace Region

variable {r : Region}

lemma bytes_of_ofSection? (h : ofSection? file base s = some r) :
    r.bytes = file.extract s.rawOffset.toNat
      (s.rawOffset.toNat + min s.rawSize.toNat (2 ^ 32 - 1 - r.start.toNat)) := by
  obtain ⟨start, -, rfl⟩ := eq_of_ofSection? h
  rfl

lemma size_bytes_of_ofSection? (h : ofSection? file base s = some r) :
    r.bytes.size = min (file.size - s.rawOffset.toNat) (min s.rawSize.toNat
      (2 ^ 32 - 1 - r.start.toNat)) := by
  rw [bytes_of_ofSection? h, Array.size_extract]
  omega

/-- The region of a section has the address of a place exactly if the section supplies the place. -/
lemma mem_span_of_ofSection? (h : ofSection? file base s = some r) :
    base + rva ∈ r.span ↔ s.supplies file base rva = true := by
  have hsize := size_bytes_of_ofSection? h
  have hstart := toNat_start_of_ofSection? h
  have hrva := rva.toNat_lt
  have hbase := base.toNat_lt
  rw [mem_span_iff (fits_of_ofSection? h), Section.supplies_iff, hstart, UInt32.toNat_add]
  constructor
  · rintro ⟨hle, hlt⟩
    -- a sum that wraps around lies below the base, and no region does
    have hwrap : (base.toNat + rva.toNat) % 2 ^ 32 = base.toNat + rva.toNat := by omega
    have hcontains : s.contains rva = true := Section.contains_iff.mpr (by omega)
    rw [Section.fileOffset_of_contains hcontains]
    exact ⟨hcontains, by omega, by omega⟩
  · rintro ⟨hcontains, hoffset, hlast⟩
    rw [Section.fileOffset_of_contains hcontains] at hoffset
    rw [Section.contains_iff] at hcontains
    omega

/-- A section that supplies a place has a region. -/
lemma isSome_of_supplies (h : s.supplies file base rva = true) :
    (ofSection? file base s).isSome = true := by
  obtain ⟨hcontains, hoffset, hlast⟩ := Section.supplies_iff.mp h
  rw [Section.fileOffset_of_contains hcontains] at hoffset
  rw [Section.contains_iff] at hcontains
  have hsize : s.rawSize ≠ 0 := by
    intro hzero
    rw [hzero, UInt32.toNat_zero] at hcontains
    omega
  have hstart : Address.addChecked? base s.rva.toNat =
      some (UInt32.ofNat (base.toNat + s.rva.toNat)) :=
    Address.addChecked?_eq_some.mpr (Address.toNat_ofNat (by omega))
  unfold ofSection?
  dsimp only
  rw [if_neg (by simp [hsize]; omega), hstart]
  rfl

lemma any_ofSection? :
    (ofSection? file base s).any (fun r => decide (base + rva ∈ r.span)) =
      s.supplies file base rva := by
  rw [Bool.eq_iff_iff, Option.any_eq_true]
  constructor
  · rintro ⟨r, hr, hmem⟩
    exact (mem_span_of_ofSection? hr).mp (of_decide_eq_true hmem)
  · intro h
    obtain ⟨r, hr⟩ := Option.isSome_iff_exists.mp (isSome_of_supplies h)
    exact ⟨r, hr, decide_eq_true ((mem_span_of_ofSection? hr).mpr h)⟩

/-- The byte that the region of a section has for a place. -/
lemma byte_of_ofSection? (h : ofSection? file base s = some r)
    (hsupplies : s.supplies file base rva = true) :
    r.bytes[r.offset (base + rva)]? = file[s.fileOffset rva]? := by
  have hmem := (mem_span_of_ofSection? h).mpr hsupplies
  rw [mem_span_iff (fits_of_ofSection? h)] at hmem
  obtain ⟨hcontains, hoffset, hlast⟩ := Section.supplies_iff.mp hsupplies
  have hsize := size_bytes_of_ofSection? h
  have hstart := toNat_start_of_ofSection? h
  have hsum : (base + rva).toNat = base.toNat + rva.toNat := by
    rw [UInt32.toNat_add]
    omega
  have hplace : r.offset (base + rva) = rva.toNat - s.rva.toNat := by
    rw [offset, Address.toNat_sub_of_le hmem.1, hsum, hstart]
    omega
  rw [hplace, Section.fileOffset_of_contains hcontains, bytes_of_ofSection? h,
    Array.getElem?_extract, if_pos (by omega)]

end Region

/-! ## The two ways to a byte -/

lemma Image.eq_of_load (h : load file layout = .ok image) :
    image = ⟨layout, stableSort (fun r => r.start.toNat)
      (layout.sections.filterMap (Region.ofSection? file layout.base))⟩ := by
  simp only [load] at h
  split at h
  · cases h
  · split at h
    · cases h
    · cases h
      rfl

/-- **The way through memory.**  The byte at the address of a place is the one at its offset in the
section that supplies it. -/
lemma Image.byte?_of_load (h : load file layout = .ok image) (rva : UInt32) :
    image.byte? (image.address rva) = (layout.supplier? file rva).bind
      fun s => file[s.fileOffset rva]? := by
  have hregion : image.region? (image.address rva) =
      (layout.supplier? file rva).bind (Region.ofSection? file layout.base) := by
    rw [eq_of_load h, region?, address, Layout.address, Layout.supplier?]
    simp only [← Region.any_ofSection?]
    apply find?_stableSort_filterMap
    intro s t r q hr hq
    have hstart := Region.toNat_start_of_ofSection? hr
    have hstart' := Region.toNat_start_of_ofSection? hq
    omega
  rw [byte?, hregion]
  cases hsupplier : layout.supplier? file rva with
  | none => rfl
  | some s =>
    have hsupplies : s.supplies file layout.base rva = true :=
      (List.mem_filter.mp (List.minOn?_mem hsupplier)).2
    obtain ⟨r, hr⟩ := Option.isSome_iff_exists.mp (Region.isSome_of_supplies hsupplies)
    have haddress : image.address rva = layout.base + rva := by
      rw [eq_of_load h]
      rfl
    simp only [Option.bind_some, hr, haddress, Option.bind_eq_bind]
    exact Region.byte_of_ofSection? hr hsupplies

/-- The first listed section that a place lies in supplies it, and none that supplies it starts
lower. -/
def Layout.FirstSupplies (l : Layout) (file : Array UInt8) (rva : UInt32) : Prop :=
  ∃ s, l.sectionAt? rva = some s ∧ s.supplies file l.base rva = true ∧
    ∀ t ∈ l.sections, t.supplies file l.base rva = true → s.rva.toNat ≤ t.rva.toNat

namespace Layout

lemma supplies_of_supplier? (h : layout.supplier? file rva = some s) :
    s ∈ layout.sections ∧ s.supplies file layout.base rva = true :=
  List.mem_filter.mp (List.minOn?_mem h)

/-- A place that a section supplies has an offset in the file. -/
lemma isSome_sectionAt?_of_supplier? (h : layout.supplier? file rva = some s) :
    (layout.sectionAt? rva).isSome = true := by
  obtain ⟨hmem, hsupplies⟩ := supplies_of_supplier? h
  rw [sectionAt?, List.find?_isSome]
  exact ⟨s, hmem, (Section.supplies_iff.mp hsupplies).1⟩

/-- **When the two ways meet.**  They lead through the same section exactly if the first listed one
supplies the place and no other one that does starts lower. -/
lemma firstSupplies_iff :
    layout.FirstSupplies file rva ↔ ∃ s,
      layout.supplier? file rva = some s ∧ layout.sectionAt? rva = some s := by
  constructor
  · rintro ⟨s, hfirst, hsupplies, hlowest⟩
    refine ⟨s, ?_, hfirst⟩
    obtain ⟨-, before, after, hsections, hbefore⟩ := List.find?_eq_some_iff_append.mp hfirst
    -- no section listed before the first one that has the place supplies it
    have hnone : before.filter (fun t => t.supplies file layout.base rva) = [] := by
      rw [List.filter_eq_nil_iff]
      intro t ht hsupplied
      have hcontains := (Section.supplies_iff.mp hsupplied).1
      have hmissed := hbefore t ht
      rw [hcontains] at hmissed
      cases hmissed
    rw [supplier?, hsections, List.filter_append, hnone, List.nil_append,
      List.filter_cons_of_pos hsupplies, List.minOn?_cons]
    cases hleast : (after.filter fun t => t.supplies file layout.base rva).minOn?
      fun t => t.rva.toNat with
    | none => rfl
    | some t =>
      obtain ⟨hmem, hsupplied⟩ := List.mem_filter.mp (List.minOn?_mem hleast)
      have hle := hlowest t (by simp [hsections, hmem]) hsupplied
      simp [minOn, hle]
  · rintro ⟨s, hsupplier, hfirst⟩
    refine ⟨s, hfirst, (supplies_of_supplier? hsupplier).2, fun t ht hsupplied => ?_⟩
    have hle := List.apply_get_minOn?_le_of_mem (f := fun s : Section => s.rva.toNat)
      (List.mem_filter.mpr ⟨ht, hsupplied⟩)
    unfold supplier? at hsupplier
    simpa only [hsupplier, Option.get_some] using hle

end Layout

/-- **The byte at an offset.**  Where a loaded image has a byte for a place, the place has an offset
in the file.  The byte is the one at the offset in the section that supplies the place.  The offset
is in that section exactly if the first listed section supplies the place and none that supplies it
starts lower, and then the byte at the offset is the byte in memory. -/
theorem byte_at_file_offset {b : UInt8} (hload : Image.load file layout = .ok image)
    (hbyte : image.byte? (image.address rva) = some b) :
    ∃ o, layout.fileOffset? rva = some o ∧
      (∃ s, layout.supplier? file rva = some s ∧ file[s.fileOffset rva]? = some b) ∧
      (layout.FirstSupplies file rva ↔ layout.supplier? file rva = layout.sectionAt? rva) ∧
      (layout.FirstSupplies file rva → file[o]? = some b) := by
  rw [Image.byte?_of_load hload, Option.bind_eq_some_iff] at hbyte
  obtain ⟨s, hsupplier, hs⟩ := hbyte
  obtain ⟨first, hfirst⟩ :=
    Option.isSome_iff_exists.mp (Layout.isSome_sectionAt?_of_supplier? hsupplier)
  have hoffset : layout.fileOffset? rva = some (first.fileOffset rva) := by
    rw [Layout.fileOffset?, hfirst]
    rfl
  have hsame : layout.FirstSupplies file rva ↔ first = s := by
    rw [Layout.firstSupplies_iff, hsupplier, hfirst]
    simp [eq_comm]
  refine ⟨first.fileOffset rva, hoffset, ⟨s, hsupplier, hs⟩, ?_, ?_⟩
  · rw [hsame, hsupplier, hfirst, Option.some.injEq, eq_comm]
  · intro h
    rw [hsame.mp h, hs]

/-! ## Overlapping sections

Ten bytes, each the number of its offset.  Code takes the first four, and data that starts two bytes
into the code takes another two. -/

/-- Each byte is its offset. -/
def numberedFile : Array UInt8 := #[0, 1, 2, 3, 4, 5, 6, 7, 8, 9]

/-- The code. -/
def numberedCode : Section := ⟨".text", 0x1000, 4, 0, Section.holdsCode ||| Section.mayExecute⟩

/-- Sections over one file, entered at the code. -/
def numberedLayout (sections : List Section) : Layout where
  base := 0x400000
  entry := 0x1000
  sections

/-- The offset may lie in another section.  Data over the tail of the code, listed first, has the
offset while the code has the byte; and so it is with data over the head of the code for which the
file is too short, where the file has no byte at the offset. -/
theorem file_offset_in_other_section :
    (∃ image, Image.load numberedFile
        (numberedLayout [⟨".data", 0x1002, 2, 6, Section.mayRead⟩, numberedCode]) = .ok image ∧
      image.byte? (image.address 0x1002) = some 2 ∧
      image.layout.fileOffset? 0x1002 = some 6 ∧ numberedFile[6]? = some 6) ∧
    ∃ image, Image.load numberedFile
        (numberedLayout [⟨".data", 0x1000, 2, 20, Section.mayRead⟩, numberedCode]) = .ok image ∧
      image.byte? (image.address 0x1000) = some 0 ∧
      image.layout.fileOffset? 0x1000 = some 20 ∧ numberedFile[20]? = none := by
  exact ⟨⟨_, rfl, by decide +kernel⟩, ⟨_, rfl, by decide +kernel⟩⟩

/-- With the code listed first, the byte under the data is found both ways. -/
theorem byte_at_file_offset_numbered :
    ∃ image, Image.load numberedFile
        (numberedLayout [numberedCode, ⟨".data", 0x1002, 2, 6, Section.mayRead⟩]) = .ok image ∧
      image.byte? (image.address 0x1002) = some 2 ∧
      ∃ o, image.layout.fileOffset? 0x1002 = some o ∧ numberedFile[o]? = some 2 := by
  refine ⟨_, rfl, by decide +kernel, ?_⟩
  obtain ⟨o, hoffset, -, -, hbyte⟩ := @byte_at_file_offset numberedFile
    (numberedLayout [numberedCode, ⟨".data", 0x1002, 2, 6, Section.mayRead⟩]) _ 0x1002 2 rfl
    (by decide +kernel)
  exact ⟨o, hoffset, hbyte ⟨numberedCode, by decide +kernel⟩⟩

end CodeSift
