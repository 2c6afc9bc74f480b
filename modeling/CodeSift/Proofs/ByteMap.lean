import CodeSift.Classification.ByteMap
import CodeSift.Proofs.Coverage

/-!
# A map as a function of the address

A `ByteMap` behaves like a function from addresses to cells: writing to a covered address changes
the cell of that address and of no other (`cell_modify`), writing to a span changes the cells of
its covered addresses (`cell_modifySpan`), and neither changes what is covered.  The lists read off
a map, all its bytes and the starts of its instructions, are the covered addresses in order with the
cells that this function gives them (`toList_eq`, `starts_eq`).

An address that is not covered reads as data, so every byte that is undecided, a start, a body or an
anchor is covered (`contains_of_cell_ne` and the facts after it).
-/

namespace CodeSift

namespace Marks

/-! ## The single marks of a combination -/

@[simp] lemma start_or (f g : Marks) : (f ||| g).start = (f.start || g.start) := rfl
@[simp] lemma body_or (f g : Marks) : (f ||| g).body = (f.body || g.body) := rfl
@[simp] lemma data_or (f g : Marks) : (f ||| g).data = (f.data || g.data) := rfl
@[simp] lemma suspicious_or (f g : Marks) : (f ||| g).suspicious = (f.suspicious || g.suspicious) :=
  rfl
@[simp] lemma labelled_or (f g : Marks) : (f ||| g).labelled = (f.labelled || g.labelled) := rfl
@[simp] lemma entry_or (f g : Marks) : (f ||| g).entry = (f.entry || g.entry) := rfl
@[simp] lemma anchor_or (f g : Marks) : (f ||| g).anchor = (f.anchor || g.anchor) := rfl

lemma kind_eq_unprocessed_iff {f : Marks} :
    f.kind = .unprocessed ↔ f.start = false ∧ f.body = false ∧ f.data = false := by
  unfold kind
  cases f.start <;> cases f.body <;> cases f.data <;> simp

lemma isCode_eq_false_iff {f : Marks} : f.isCode = false ↔ f.start = false ∧ f.body = false := by
  simp [isCode]

end Marks

/-- Data that is made data again takes the new class. -/
lemma Cell.asData_asData (cls old : DataClass) (c : Cell) :
    asData cls (asData old c) = asData cls c := by
  show (⟨(c.marks.union { data := true }).union { data := true }, cls⟩ : Cell) =
    ⟨c.marks.union { data := true }, cls⟩
  simp [Marks.union]

namespace ByteMap

/-! ## Reading a cell -/

lemma cell_of_not_contains {m : ByteMap} {a : Address} (h : m.contains a = false) :
    m.cell a = .outside := by
  have hnone : m.coverage.index? a = none := by
    simpa [contains, Coverage.contains] using h
  rw [cell, hnone]

lemma contains_of_cell_ne {m : ByteMap} {a : Address} (h : m.cell a ≠ .outside) :
    m.contains a = true := by
  by_contra hcontains
  exact h (cell_of_not_contains (by simpa using hcontains))

lemma contains_of_data_eq_false {m : ByteMap} {a : Address} (h : (m.marks a).data = false) :
    m.contains a = true := by
  apply contains_of_cell_ne
  intro houtside
  rw [marks, houtside] at h
  cases h

lemma contains_of_isCode {m : ByteMap} {a : Address} (h : (m.marks a).isCode = true) :
    m.contains a = true := by
  apply contains_of_cell_ne
  intro houtside
  rw [marks, houtside] at h
  cases h

lemma kind_eq_unprocessed_iff {m : ByteMap} {a : Address} :
    m.kind a = .unprocessed ↔
      (m.marks a).start = false ∧ (m.marks a).body = false ∧ (m.marks a).data = false :=
  Marks.kind_eq_unprocessed_iff

lemma isCode_of_unprocessed {m : ByteMap} {a : Address} (h : m.kind a = .unprocessed) :
    (m.marks a).isCode = false := by
  obtain ⟨hstart, hbody, -⟩ := kind_eq_unprocessed_iff.mp h
  exact Marks.isCode_eq_false_iff.mpr ⟨hstart, hbody⟩

lemma contains_of_unprocessed {m : ByteMap} {a : Address} (h : m.kind a = .unprocessed) :
    m.contains a = true := contains_of_data_eq_false (kind_eq_unprocessed_iff.mp h).2.2

lemma isUnprocessed_iff {m : ByteMap} {a : Address} :
    m.isUnprocessed a = true ↔ m.kind a = .unprocessed := by
  rw [isUnprocessed, Bool.and_eq_true, beq_iff_eq]
  exact ⟨fun h => h.2, fun h => ⟨contains_of_unprocessed h, h⟩⟩

lemma unprocessed_of_isUnprocessedSpan {m : ByteMap} {s : Span} (h : m.isUnprocessedSpan s = true)
    {a : Address} (ha : a ∈ s) : m.kind a = .unprocessed := by
  rw [isUnprocessedSpan, Bool.and_eq_true, Span.all_iff] at h
  exact isUnprocessed_iff.mp (h.2 a ha)

/-- A byte with the same cell is the same in every respect. -/
lemma kind_congr {m m' : ByteMap} {a : Address} (h : m'.cell a = m.cell a) :
    m'.kind a = m.kind a ∧ m'.dataClass a = m.dataClass a := by
  unfold kind marks dataClass
  rw [h]
  exact ⟨rfl, rfl⟩

/-! ## Writing cells -/

@[simp] lemma coverage_modify (m : ByteMap) (a : Address) (f : Cell → Cell) :
    (m.modify a f).coverage = m.coverage := by
  unfold modify
  split <;> rfl

lemma contains_congr {m m' : ByteMap} (h : m'.coverage = m.coverage) (a : Address) :
    m'.contains a = m.contains a := by
  rw [contains, contains, h]

/-- **Writing to an address changes its cell and no other.** -/
lemma cell_modify (m : ByteMap) (a b : Address) (f : Cell → Cell) :
    (m.modify a f).cell b = if b = a ∧ m.contains a = true then f (m.cell b) else m.cell b := by
  unfold modify
  split
  · next hnone =>
    have hnot : m.contains a = false := by simp [contains, Coverage.contains, hnone]
    rw [if_neg (by simp [hnot])]
  · next i hi =>
    have hcontains : m.contains a = true := by simp [contains, Coverage.contains, hi]
    have hlt : i < m.cells.size := by
      rw [m.size_cells]
      exact Coverage.lt_size_of_index? hi
    by_cases hab : b = a
    · subst hab
      rw [if_pos ⟨rfl, hcontains⟩]
      simp [cell, hi, hlt, Array.getElem_modify_self]
    · rw [if_neg (fun h => hab h.1)]
      unfold cell
      cases hj : m.coverage.index? b with
      | none => simp
      | some j =>
        have hij : i ≠ j := fun heq => hab (Coverage.index?_inj hj (heq ▸ hi))
        simp [Array.getElem?_modify, hij]

@[simp] lemma coverage_modifySpan (m : ByteMap) (s : Span) (f : Cell → Cell) :
    (m.modifySpan s f).coverage = m.coverage := by
  unfold modifySpan
  generalize m.coverage.within s = addresses
  induction addresses generalizing m with
  | nil => rfl
  | cons a rest ih => rw [List.foldl_cons, ih, coverage_modify]

lemma cell_foldl_modify (m : ByteMap) (f : Cell → Cell) {addresses : List Address}
    (hnodup : addresses.Nodup) (hcovered : ∀ a ∈ addresses, m.contains a = true) (b : Address) :
    (addresses.foldl (fun m a => m.modify a f) m).cell b =
      if b ∈ addresses then f (m.cell b) else m.cell b := by
  induction addresses generalizing m with
  | nil => simp
  | cons a rest ih =>
    obtain ⟨hnot, hrest⟩ := List.nodup_cons.mp hnodup
    have hcontains := hcovered a List.mem_cons_self
    have hcovered' : ∀ c ∈ rest, (m.modify a f).contains c = true := by
      intro c hc
      rw [contains_congr (coverage_modify m a f)]
      exact hcovered c (List.mem_cons_of_mem _ hc)
    rw [List.foldl_cons, ih (m.modify a f) hrest hcovered', cell_modify]
    by_cases hab : b = a
    · subst hab
      simp [hnot, hcontains]
    · simp [hab]

/-- **Writing to a span changes the cells of its covered addresses and no other.** -/
lemma cell_modifySpan (m : ByteMap) (s : Span) (f : Cell → Cell) (b : Address) :
    (m.modifySpan s f).cell b = if b ∈ s ∧ m.contains b = true then f (m.cell b) else m.cell b := by
  unfold modifySpan
  rw [cell_foldl_modify m f (m.coverage.nodup_within s) fun a ha => (Coverage.mem_within.mp ha).2]
  exact if_congr Coverage.mem_within rfl rfl

lemma cell_mark (m : ByteMap) (a b : Address) (f : Marks) :
    (m.mark a f).cell b = if b = a ∧ m.contains a = true then (m.cell b).mark f else m.cell b :=
  cell_modify m a b _

lemma cell_unmark (m : ByteMap) (a b : Address) (f : Marks) :
    (m.unmark a f).cell b = if b = a ∧ m.contains a = true then (m.cell b).unmark f else m.cell b :=
  cell_modify m a b _

lemma cell_markSpan (m : ByteMap) (s : Span) (f : Marks) (b : Address) :
    (m.markSpan s f).cell b =
      if b ∈ s ∧ m.contains b = true then (m.cell b).mark f else m.cell b :=
  cell_modifySpan m s _ b

lemma cell_markData (m : ByteMap) (s : Span) (cls : DataClass) (b : Address) :
    (m.markData s cls).cell b =
      if b ∈ s ∧ m.contains b = true then (m.cell b).asData cls else m.cell b :=
  cell_modifySpan m s _ b

lemma cell_clear (m : ByteMap) (s : Span) (b : Address) :
    (m.clear s).cell b = if b ∈ s ∧ m.contains b = true then .fresh else m.cell b :=
  cell_modifySpan m s _ b

lemma marks_mark (m : ByteMap) (a b : Address) (f : Marks) :
    (m.mark a f).marks b = if b = a ∧ m.contains a = true then m.marks b ||| f else m.marks b := by
  unfold marks
  rw [cell_mark]
  split <;> rfl

lemma dataClass_mark (m : ByteMap) (a b : Address) (f : Marks) :
    (m.mark a f).dataClass b = m.dataClass b := by
  unfold dataClass
  rw [cell_mark]
  split <;> rfl

lemma marks_unmark (m : ByteMap) (a b : Address) (f : Marks) :
    (m.unmark a f).marks b =
      if b = a ∧ m.contains a = true then (m.marks b).without f else m.marks b := by
  unfold marks
  rw [cell_unmark]
  split <;> rfl

lemma marks_markData (m : ByteMap) (s : Span) (cls : DataClass) (b : Address) :
    (m.markData s cls).marks b =
      if b ∈ s ∧ m.contains b = true then m.marks b ||| { data := true } else m.marks b := by
  unfold marks
  rw [cell_markData]
  split <;> rfl

lemma marks_clear (m : ByteMap) (s : Span) (b : Address) :
    (m.clear s).marks b = if b ∈ s ∧ m.contains b = true then .none else m.marks b := by
  unfold marks
  rw [cell_clear]
  split <;> rfl

@[simp] lemma coverage_mark (m : ByteMap) (a : Address) (f : Marks) :
    (m.mark a f).coverage = m.coverage := coverage_modify m a _

@[simp] lemma coverage_unmark (m : ByteMap) (a : Address) (f : Marks) :
    (m.unmark a f).coverage = m.coverage := coverage_modify m a _

@[simp] lemma coverage_markSpan (m : ByteMap) (s : Span) (f : Marks) :
    (m.markSpan s f).coverage = m.coverage := coverage_modifySpan m s _

@[simp] lemma coverage_markData (m : ByteMap) (s : Span) (cls : DataClass) :
    (m.markData s cls).coverage = m.coverage := coverage_modifySpan m s _

@[simp] lemma coverage_clear (m : ByteMap) (s : Span) :
    (m.clear s).coverage = m.coverage := coverage_modifySpan m s _

/-! ## The map as a list -/

lemma size_eq (m : ByteMap) : m.size = m.coverage.addresses.length := by
  rw [size, m.size_cells, Coverage.length_addresses]

lemma cells_toList (m : ByteMap) : m.cells.toList = m.coverage.addresses.map m.cell := by
  apply List.ext_getElem?
  intro i
  rw [List.getElem?_map]
  cases ha : m.coverage.addresses[i]? with
  | none =>
    have hsize : m.cells.size ≤ i := by
      rw [m.size_cells, ← Coverage.length_addresses]
      exact List.getElem?_eq_none_iff.mp ha
    simpa using hsize
  | some a =>
    have hi := Coverage.index?_eq_some_iff.mpr ha
    have hlt : i < m.cells.size := by
      rw [m.size_cells]
      exact Coverage.lt_size_of_index? hi
    simp [cell, hi, hlt]

/-- A map is known by its cells. -/
lemma ext_cell {m m' : ByteMap} (hcoverage : m'.coverage = m.coverage)
    (hcell : ∀ a, m'.cell a = m.cell a) : m' = m := by
  have hcells : m'.cells = m.cells := by
    rw [← Array.toList_inj, cells_toList, cells_toList, hcoverage, funext hcell]
  cases m
  cases m'
  cases hcoverage
  cases hcells
  rfl

/-- **A map lists its covered addresses with their cells.** -/
lemma toList_eq (m : ByteMap) : m.toList = m.coverage.addresses.map fun a => (a, m.cell a) := by
  rw [toList, cells_toList]
  induction m.coverage.addresses with
  | nil => rfl
  | cons a rest ih => rw [List.map_cons, List.zip_cons_cons, ih, List.map_cons]

lemma starts_eq (m : ByteMap) :
    m.starts = m.coverage.addresses.filter fun a => (m.marks a).start := by
  rw [starts, toList_eq, List.filter_map, List.map_map]
  simp only [Function.comp_def, List.map_id', marks]

lemma mem_starts {m : ByteMap} {a : Address} : a ∈ m.starts ↔ (m.marks a).start = true := by
  rw [starts_eq, List.mem_filter, ← Coverage.contains_iff]
  refine ⟨fun h => h.2, fun h => ⟨?_, h⟩⟩
  exact contains_of_isCode (by simp [Marks.isCode, h])

lemma pairwise_starts (m : ByteMap) : m.starts.Pairwise (· < ·) := by
  rw [starts_eq]
  exact m.coverage.pairwise_addresses.filter _

lemma countKind_eq (m : ByteMap) (k : ByteKind) :
    m.countKind k = (m.coverage.addresses.filter fun a => m.kind a == k).length := by
  rw [countKind, cells_toList, List.filter_map, List.length_map]
  rfl

/-! ## The bytes from an address on -/

/-- The number of bytes of the map from an address on. -/
def countFrom (m : ByteMap) (a : Address) : Nat :=
  m.coverage.addresses.countP fun b => decide (a.toNat ≤ b.toNat)

section CountFrom

variable {m m' : ByteMap} {a b : Address}

lemma countFrom_congr (h : m'.coverage = m.coverage) (a : Address) :
    m'.countFrom a = m.countFrom a := by
  rw [countFrom, h, countFrom]

lemma countFrom_le (m : ByteMap) (a : Address) : m.countFrom a ≤ m.size := by
  rw [size_eq]
  exact List.countP_le_length

/-- Behind a byte of the map there are fewer bytes. -/
lemma countFrom_lt (hcontains : m.contains a = true) (hab : a.toNat < b.toNat) :
    m.countFrom b < m.countFrom a := by
  have hsub : m.coverage.addresses.filter (fun c => decide (b.toNat ≤ c.toNat)) =
      (m.coverage.addresses.filter fun c => decide (a.toNat ≤ c.toNat)).filter
        fun c => decide (b.toNat ≤ c.toNat) := by
    rw [List.filter_filter]
    refine List.filter_congr fun c _ => ?_
    rw [← Bool.decide_and, decide_eq_decide]
    omega
  have hmem : a ∈ m.coverage.addresses.filter fun c => decide (a.toNat ≤ c.toNat) :=
    List.mem_filter.mpr ⟨Coverage.contains_iff.mp hcontains, decide_eq_true (Nat.le_refl _)⟩
  rw [countFrom, countFrom, List.countP_eq_length_filter, List.countP_eq_length_filter, hsub,
    List.length_filter_lt_length_iff_exists]
  exact ⟨a, hmem, by simpa using hab⟩

lemma countFrom_pos (hcontains : m.contains a = true) : 0 < m.countFrom a :=
  List.countP_pos_iff.mpr ⟨a, Coverage.contains_iff.mp hcontains, decide_eq_true (Nat.le_refl _)⟩

end CountFrom

/-! ## Walking over bytes that pass a test -/

/-- A walk with enough fuel ends at the first address that fails the test. -/
lemma skipWhile_eq {test : Address → Bool} {fuel : Nat} {a stop : Address}
    (hle : a.toNat ≤ stop.toNat) (hfuel : stop.toNat - a.toNat ≤ fuel)
    (hpass : ∀ b ∈ (⟨a, stop⟩ : Span), test b = true) (hfail : test stop = false) :
    skipWhile test fuel a = stop := by
  have hbound := stop.toNat_lt
  induction fuel generalizing a with
  | zero =>
    rw [skipWhile]
    exact UInt32.toNat_inj.mp (by omega)
  | succ fuel ih =>
    by_cases hend : a = stop
    · subst hend
      simp [skipWhile, hfail]
    · have hlt : a.toNat < stop.toNat := by
        have hne : a.toNat ≠ stop.toNat := fun h => hend (UInt32.toNat_inj.mp h)
        omega
      have hnext : (a + 1).toNat = a.toNat + 1 := Address.toNat_succ (by omega)
      rw [skipWhile, if_pos (hpass a (Span.mem_iff.mpr ⟨Nat.le_refl _, hlt⟩))]
      apply ih (by omega) (by omega)
      intro b hb
      rw [Span.mem_iff] at hb
      exact hpass b (Span.mem_iff.mpr ⟨by simp only at hb ⊢; omega, hb.2⟩)

/-- **A walk over bytes of the map** ends at the first address that fails the test, with as much
fuel as there are bytes in front of it. -/
lemma skipWhile_spec {m : ByteMap} {test : Address → Bool}
    (htest : ∀ b, test b = true → m.contains b = true) {fuel : Nat} {a : Address}
    (hfuel : m.countFrom a ≤ fuel) :
    a.toNat ≤ (skipWhile test fuel a).toNat ∧
      (∀ b ∈ (⟨a, skipWhile test fuel a⟩ : Span), test b = true) ∧
        test (skipWhile test fuel a) = false := by
  induction fuel generalizing a with
  | zero =>
    have hfail : test a = false := by
      rw [Bool.eq_false_iff]
      intro hpass
      have hpos := countFrom_pos (htest a hpass)
      omega
    refine ⟨Nat.le_refl _, fun b hb => ?_, hfail⟩
    obtain ⟨hle, hlt⟩ := Span.mem_mk.mp hb
    exact absurd hlt (Nat.not_lt.mpr hle)
  | succ fuel ih =>
    rw [skipWhile]
    split
    · next hpass =>
      have hcontains := htest a hpass
      have hnext : (a + 1).toNat = a.toNat + 1 := Coverage.toNat_succ_of_contains hcontains
      have hcount : m.countFrom (a + 1) < m.countFrom a := countFrom_lt hcontains (by omega)
      have hlasts : m.countFrom (a + 1) ≤ fuel := by omega
      obtain ⟨hle, hbefore, hfail⟩ := ih hlasts
      refine ⟨by omega, fun b hb => ?_, hfail⟩
      rw [Span.mem_mk] at hb
      by_cases heq : b = a
      · rw [heq, hpass]
      · rw [← UInt32.toNat_inj] at heq
        exact hbefore b (Span.mem_mk.mpr (by omega))
    · next hfail =>
      refine ⟨Nat.le_refl _, fun b hb => ?_, Bool.eq_false_iff.mpr hfail⟩
      obtain ⟨hle, hlt⟩ := Span.mem_mk.mp hb
      exact absurd hlt (Nat.not_lt.mpr hle)

end ByteMap

end CodeSift
