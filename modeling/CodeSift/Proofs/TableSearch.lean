import CodeSift.Proofs.CrossReferences
import CodeSift.Proofs.DataSearches

/-!
# The search for tables of pointers

`Tabulates` says what a table is without saying how it is searched for: undecided bytes, with the
address of possible code in each slot, none of them in the part of the table that ends with the
slot.  The slots that a search counts from an address on are a table (`tabulates_length`), and a
table is counted to its end (`Tabulates.le_length`).

Making data of undecided bytes makes no table (`Tabulates.of_fills`).  This is why one search is
enough: a search that looks at every address has passed no table by, and what it marks behind an
address leaves no table there that was not one when the search passed it.  `comes_searchAll` is the
induction along the way of a search; what a search records (`Recorded`) and that it leaves no table
(`not_tabulates_searchAll`) are two uses of it.

A slot may point to a part of its table behind the slot, which is not known yet when the slot is
counted.
-/

namespace CodeSift

variable {image : Image} {base m : ByteMap}

namespace PointerTables

variable {start limit slot a b x : Address} {scan : Scan} {n : Nat}

/-! ## Slots in a row -/

/-- **A table of `n` slots from `start` on.**  Its bytes are undecided.  Each slot holds the address
of possible code, and does not point to the part of the table that ends with the slot. -/
structure Tabulates (image : Image) (m : ByteMap) (start : Address) (n : Nat) : Prop where
  fits : start.toNat + 4 * n < 2 ^ 32
  undecided : ∀ x ∈ tableSpan start n, m.kind x = .unprocessed
  points : ∀ slot ∈ slotsOf start n, ∃ target, image.word? slot = some target ∧
    m.admitsCode image target = true ∧ target ∉ (⟨start, slot + 4⟩ : Span)

lemma mem_slotsOf (h : start.toNat + 4 * n < 2 ^ 32) :
    slot ∈ slotsOf start n ↔ ∃ i < n, slot.toNat = start.toNat + 4 * i := by
  have hplace : ∀ i < n, (start + UInt32.ofNat (slotSize * i)).toNat = start.toNat + 4 * i := by
    intro i hi
    exact Address.toNat_add_ofNat (show start.toNat + 4 * i < 2 ^ 32 by omega)
  simp only [slotsOf, List.mem_map, List.mem_range]
  constructor
  · rintro ⟨i, hi, rfl⟩
    exact ⟨i, hi, hplace i hi⟩
  · rintro ⟨i, hi, hslot⟩
    exact ⟨i, hi, UInt32.toNat_inj.mp ((hplace i hi).trans hslot.symm)⟩

lemma toNat_stop_of_fits (h : start.toNat + 4 * n < 2 ^ 32) :
    (tableSpan start n).stop.toNat = start.toNat + 4 * n := Address.toNat_add_ofNat h

lemma mem_tableSpan (h : start.toNat + 4 * n < 2 ^ 32) :
    x ∈ tableSpan start n ↔ start.toNat ≤ x.toNat ∧ x.toNat < start.toNat + 4 * n := by
  rw [Span.mem_iff, toNat_stop_of_fits h]
  exact Iff.rfl

namespace Tabulates

/-- The first slots of a table are a table. -/
lemma mono {k : Nat} (h : Tabulates image m start n) (hk : k ≤ n) : Tabulates image m start k := by
  have hfits := h.fits
  have hfits' : start.toNat + 4 * k < 2 ^ 32 := by omega
  refine ⟨hfits', fun x hx => h.undecided x ?_, fun slot hslot => h.points slot ?_⟩
  · rw [mem_tableSpan hfits'] at hx
    rw [mem_tableSpan hfits]
    omega
  · obtain ⟨i, hi, hplace⟩ := (mem_slotsOf hfits').mp hslot
    exact (mem_slotsOf hfits).mpr ⟨i, by omega, hplace⟩

/-- **What becomes data makes no table.**  A table of the filled map was one before. -/
lemma of_fills {m' : ByteMap} (hfills : m.Fills m') (h : Tabulates image m' start n) :
    Tabulates image m start n := by
  refine ⟨h.fits, fun x hx => hfills.unprocessed_of (h.undecided x hx), fun slot hslot => ?_⟩
  obtain ⟨target, hword, hadmits, hout⟩ := h.points slot hslot
  exact ⟨target, hword, hfills.admitsCode_of hadmits, hout⟩

/-- A table that begins in front of a decided byte ends in front of it. -/
lemma le_of_decided (h : Tabulates image m start n) (hlimit : m.kind limit ≠ .unprocessed)
    (hlt : start.toNat < limit.toNat) : start.toNat + 4 * n ≤ limit.toNat := by
  by_contra hpast
  exact hlimit (h.undecided limit ((mem_tableSpan h.fits).mpr (by omega)))

/-- A table with slots begins with an undecided byte. -/
lemma undecided_start (h : Tabulates image m start n) (hn : 0 < n) : m.kind start = .unprocessed :=
  h.undecided start ((mem_tableSpan h.fits).mpr (by omega))

end Tabulates

/-! ## Counting slots -/

/-- A slot ends in front of the limit. -/
lemma le_limit_of_isSlot (hplaced : image.Placed) {i : Nat}
    (h : isSlot image m start limit i = true) : start.toNat + 4 * (i + 1) ≤ limit.toNat := by
  unfold isSlot at h
  split at h
  · cases h
  · next slot hslot =>
    split at h
    · cases h
    · next hlimit =>
      split at h
      · cases h
      · next target hword =>
        have hplace := Address.addChecked?_eq_some.mp hslot
        have hfour := Image.four_le_length_window hword
        have hwindow := Image.add_length_window_lt hplaced slot
        rw [UInt32.lt_iff_toNat_lt, Address.toNat_addSaturated] at hlimit
        change slot.toNat = start.toNat + 4 * i at hplace
        change ¬limit.toNat < min (slot.toNat + 4) (2 ^ 32 - 1) at hlimit
        omega

lemma countSlots_le (hplaced : image.Placed) {fuel i : Nat}
    (h : 0 < countSlots image m start limit fuel i) :
    start.toNat + 4 * (i + countSlots image m start limit fuel i) ≤ limit.toNat := by
  induction fuel generalizing i with
  | zero => exact absurd h (Nat.lt_irrefl 0)
  | succ fuel ih =>
    unfold countSlots at h ⊢
    split at h
    · next hslot =>
      rw [if_pos hslot]
      by_cases hmore : 0 < countSlots image m start limit fuel (i + 1)
      · have hrest := ih hmore
        omega
      · have hlast := le_limit_of_isSlot hplaced hslot
        omega
    · exact absurd h (Nat.lt_irrefl 0)

/-- **A table ends in front of the limit of the run it was found in.** -/
lemma toNat_stop_tableSpan (hplaced : image.Placed) (h : 0 < length image m start limit) :
    (tableSpan start (length image m start limit)).stop.toNat =
      start.toNat + 4 * length image m start limit ∧
    start.toNat + 4 * length image m start limit ≤ limit.toNat := by
  have hle := countSlots_le hplaced h
  rw [Nat.zero_add] at hle
  change start.toNat + 4 * length image m start limit ≤ limit.toNat at hle
  have hbound := limit.toNat_lt
  refine ⟨?_, hle⟩
  unfold tableSpan slotSize
  exact Address.toNat_add_ofNat (by omega)

/-- What a slot that is counted holds. -/
lemma exists_word_of_isSlot {i : Nat} (h : isSlot image m start limit i = true)
    (hslot : slot.toNat = start.toNat + 4 * i) :
    ∃ target, image.word? slot = some target ∧ m.admitsCode image target = true ∧
      target ∉ (⟨start, slot + 4⟩ : Span) := by
  have hplace : Address.addChecked? start (slotSize * i) = some slot :=
    Address.addChecked?_eq_some.mpr hslot
  unfold isSlot at h
  rw [hplace] at h
  dsimp only at h
  split at h
  · cases h
  · split at h
    · cases h
    · next target hword =>
      rw [Bool.and_eq_true, Bool.not_eq_true', decide_eq_false_iff_not] at h
      exact ⟨target, hword, h.2, h.1⟩

/-- A slot of a table is counted. -/
lemma Tabulates.isSlot {i : Nat} (h : Tabulates image m start n)
    (hlimit : start.toNat + 4 * n ≤ limit.toNat) (hi : i < n) :
    isSlot image m start limit i = true := by
  have hfits := h.fits
  have hplace : (start + UInt32.ofNat (slotSize * i)).toNat = start.toNat + 4 * i :=
    Address.toNat_add_ofNat (show start.toNat + 4 * i < 2 ^ 32 by omega)
  generalize start + UInt32.ofNat (slotSize * i) = slot at hplace
  obtain ⟨target, hword, hadmits, hout⟩ := h.points slot ((mem_slotsOf hfits).mpr ⟨i, hi, hplace⟩)
  have hchecked : Address.addChecked? start (slotSize * i) = some slot :=
    Address.addChecked?_eq_some.mpr hplace
  have hends : ¬limit < Address.addSaturated slot slotSize := by
    rw [UInt32.lt_iff_toNat_lt, Address.toNat_addSaturated]
    unfold slotSize
    omega
  unfold PointerTables.isSlot
  rw [hchecked]
  dsimp only
  rw [if_neg hends, hword]
  dsimp only
  rw [decide_eq_false hout, hadmits]
  rfl

lemma isSlot_of_lt_countSlots {fuel i k : Nat} (h : k < countSlots image m start limit fuel i) :
    isSlot image m start limit (i + k) = true := by
  induction fuel generalizing i k with
  | zero => exact absurd h (Nat.not_lt_zero k)
  | succ fuel ih =>
    unfold countSlots at h
    split at h
    · next hfirst =>
      cases k with
      | zero => exact hfirst
      | succ k =>
        rw [Nat.add_left_comm, Nat.add_comm k]
        exact ih (by omega)
    · exact absurd h (Nat.not_lt_zero k)

lemma le_countSlots {fuel i : Nat} (hfuel : n ≤ fuel)
    (h : ∀ k < n, isSlot image m start limit (i + k) = true) :
    n ≤ countSlots image m start limit fuel i := by
  induction n generalizing fuel i with
  | zero => exact Nat.zero_le _
  | succ n ih =>
    obtain ⟨fuel, rfl⟩ : ∃ k, fuel = k + 1 := ⟨fuel - 1, by omega⟩
    have hfirst : isSlot image m start limit i = true := h 0 (Nat.succ_pos n)
    unfold countSlots
    rw [if_pos hfirst]
    refine Nat.succ_le_succ (ih (by omega) fun k hk => ?_)
    rw [Nat.add_right_comm]
    exact h (k + 1) (by omega)

/-- **What is counted is a table.** -/
lemma tabulates_length (hplaced : image.Placed)
    (hrun : ∀ x ∈ (⟨start, limit⟩ : Span), m.kind x = .unprocessed) :
    Tabulates image m start (length image m start limit) := by
  have hbound := start.toNat_lt
  by_cases hpos : 0 < length image m start limit
  · obtain ⟨hstop, hle⟩ := toNat_stop_tableSpan hplaced hpos
    have hlimit := limit.toNat_lt
    have hfits : start.toNat + 4 * length image m start limit < 2 ^ 32 := by omega
    refine ⟨hfits, fun x hx => hrun x ?_, fun slot hslot => ?_⟩
    · rw [mem_tableSpan hfits] at hx
      rw [Span.mem_mk]
      omega
    · obtain ⟨i, hi, hplace⟩ := (mem_slotsOf hfits).mp hslot
      have hcounted := isSlot_of_lt_countSlots hi
      rw [Nat.zero_add] at hcounted
      exact exists_word_of_isSlot hcounted hplace
  · have hfits : start.toNat + 4 * length image m start limit < 2 ^ 32 := by omega
    refine ⟨hfits, fun x hx => ?_, fun slot hslot => ?_⟩
    · rw [mem_tableSpan hfits] at hx
      omega
    · obtain ⟨i, hi, -⟩ := (mem_slotsOf hfits).mp hslot
      omega

/-- **A table is counted to its end.** -/
lemma Tabulates.le_length (h : Tabulates image m start n)
    (hlimit : start.toNat + 4 * n ≤ limit.toNat) : n ≤ length image m start limit := by
  refine le_countSlots (by omega) fun k hk => ?_
  rw [Nat.zero_add]
  exact h.isSlot hlimit hk

/-- Where too few slots are counted no table begins. -/
lemma not_tabulates_of_length_lt (hlimit : m.kind limit ≠ .unprocessed)
    (hle : start.toNat ≤ limit.toNat) (hfew : length image m start limit < minSlots) :
    ¬Tabulates image m start minSlots := by
  intro htable
  rcases Nat.lt_or_eq_of_le hle with hlt | heq
  · have hcounted := htable.le_length (htable.le_of_decided hlimit hlt)
    omega
  · obtain rfl : start = limit := UInt32.toNat_inj.mp heq
    exact hlimit (htable.undecided_start (by decide))

/-! ## What noting a table records -/

/-- The relation of a slot. -/
def relation? (image : Image) (slot : Address) : Option CrossReference :=
  (image.word? slot).map fun target => ⟨.tableEntry, slot, target⟩

/-- The slots of a table. -/
def slotsIn (t : Span) : List Address := slotsOf t.start (t.size / slotSize)

/-- The relations of the slots of tables, in the order of the tables. -/
def entriesOf (image : Image) (tables : List Span) : List CrossReference :=
  (tables.flatMap slotsIn).filterMap (relation? image)

lemma foldl_noteSlot_eq (slots : List Address) (scan : Scan) :
    slots.foldl (noteSlot image) scan = { scan with
      index := (slots.filterMap (relation? image)).foldl .insert scan.index
      targets := scan.targets ++
        ((slots.filterMap (relation? image)).map CrossReference.target).filter
        fun a => !(scan.map.marks a).start } := by
  induction slots generalizing scan with
  | nil => simp
  | cons slot rest ih =>
    rw [List.foldl_cons, ih]
    unfold noteSlot relation?
    cases hword : image.word? slot with
    | none => simp [hword]
    | some target => cases hstart : (scan.map.marks target).start <;> simp [hword, hstart]

lemma slotsIn_tableSpan (h : start.toNat + 4 * n < 2 ^ 32) :
    slotsIn (tableSpan start n) = slotsOf start n := by
  have hsize : (tableSpan start n).size / slotSize = n := by
    rw [Span.size, toNat_stop_of_fits h]
    show (start.toNat + 4 * n - start.toNat) / 4 = n
    omega
  rw [slotsIn, hsize]
  rfl

lemma map_foldl_noteSlot (slots : List Address) (scan : Scan) :
    (slots.foldl (noteSlot image) scan).map = scan.map := by
  rw [foldl_noteSlot_eq]

lemma map_noteTable (scan : Scan) (start : Address) (count : Nat) :
    (noteTable image scan start count).map =
      scan.map.markData (tableSpan start count) .pointerTable :=
  map_foldl_noteSlot ..

/-! ## The way of a search -/

/-- A search begins in its run or behind it. -/
lemma le_of_firstLook? {aligned : Bool} (h : firstLook? aligned start = some a) :
    start.toNat ≤ a.toNat := by
  unfold firstLook? at h
  split at h
  · obtain ⟨x, hx, rfl⟩ := Option.map_eq_some_iff.mp h
    have hplace := Address.addChecked?_eq_some.mp hx
    rw [Address.toNat_and_high (k := 2) rfl]
    omega
  · cases h
    exact Nat.le_refl _

lemma searchFrom_of_lt {stride fuel : Nat} (h : limit.toNat < a.toNat) :
    searchFrom image stride limit fuel a scan = some scan := by
  cases fuel with
  | zero => rfl
  | succ fuel =>
    have hbound := a.toNat_lt
    refine if_pos (UInt32.lt_iff_toNat_lt.mpr ?_)
    rw [Address.toNat_addSaturated]
    omega

section Sweep

variable {P : Address → Scan → Prop} {aligned : Bool} {found : Scan}

/-- The search has come as far as `a` and has changed nothing from there on. -/
structure Comes (base : ByteMap) (P : Address → Scan → Prop) (a : Address) (scan : Scan) :
    Prop where
  holds : P a scan
  fills : base.Fills scan.map
  ahead : ∀ x : Address, a.toNat ≤ x.toNat → scan.map.cell x = base.cell x

lemma Comes.kind_eq (h : Comes base P a scan) (hx : a.toNat ≤ x.toNat) :
    scan.map.kind x = base.kind x :=
  (ByteMap.kind_congr (h.ahead x hx)).1

variable (hplaced : image.Placed)
  (hpass : ∀ {a b : Address} {scan : Scan}, P a scan → a.toNat ≤ b.toNat →
    (aligned = false → ∀ x ∈ (⟨a, b⟩ : Span), ¬Tabulates image scan.map x minSlots) → P b scan)
  (hnote : ∀ {a : Address} {n : Nat} {scan : Scan}, P a scan → minSlots ≤ n →
    Tabulates image scan.map a n →
    P (tableSpan a n).stop (noteTable image scan a n))

include hpass in
lemma Comes.pass (h : Comes base P a scan) (hab : a.toNat ≤ b.toNat)
    (hnone : aligned = false → ∀ x ∈ (⟨a, b⟩ : Span), ¬Tabulates image scan.map x minSlots) :
    Comes base P b scan :=
  ⟨hpass h.holds hab hnone, h.fills, fun x hx => h.ahead x (by omega)⟩

include hnote in
lemma Comes.note (h : Comes base P a scan) (hn : minSlots ≤ n)
    (htable : Tabulates image scan.map a n) :
    Comes base P (tableSpan a n).stop (noteTable image scan a n) := by
  have hstop := toNat_stop_of_fits htable.fits
  refine ⟨hnote h.holds hn htable, ?_, fun x hx => ?_⟩
  · rw [map_noteTable]
    exact h.fills.markData (by decide) fun x hx => h.fills.unprocessed_of (htable.undecided x hx)
  · rw [map_noteTable, ByteMap.cell_markData, if_neg, h.ahead x (by omega)]
    rintro ⟨hmem, -⟩
    rw [mem_tableSpan htable.fits] at hmem
    omega

include hpass in
/-- To the end of a run that has no room for a table. -/
lemma Comes.pass_end (h : Comes base P a scan) (hlimit : base.kind limit ≠ .unprocessed)
    (hle : a.toNat ≤ limit.toNat) (hroom : limit.toNat < a.toNat + 4) :
    Comes base P limit scan := by
  refine h.pass hpass hle fun _ x hx htable => ?_
  rw [← h.kind_eq hle] at hlimit
  rw [Span.mem_mk] at hx
  have hends : x.toNat + 16 ≤ limit.toNat := htable.le_of_decided hlimit hx.2
  omega

include hplaced hpass hnote

/-- A search within a run.  The byte behind the run is decided, so no table reaches across its
end. -/
lemma comes_searchFrom {stride fuel : Nat} (hstride : 0 < stride ∧ stride ≤ 4)
    (hone : aligned = false → stride = 1)
    (hrun : ∀ x ∈ (⟨a, limit⟩ : Span), base.kind x = .unprocessed)
    (hlimit : base.kind limit ≠ .unprocessed) (hle : a.toNat ≤ limit.toNat)
    (hfuel : limit.toNat - a.toNat ≤ fuel) (h : Comes base P a scan)
    (hfound : searchFrom image stride limit fuel a scan = some found) :
    Comes base P limit found := by
  induction fuel generalizing a scan with
  | zero =>
    obtain rfl : a = limit := UInt32.toNat_inj.mp (by omega)
    cases hfound
    exact h
  | succ fuel ih =>
    have hbound := limit.toNat_lt
    unfold searchFrom at hfound
    split at hfound
    · next hshort =>
      rw [UInt32.lt_iff_toNat_lt, Address.toNat_addSaturated] at hshort
      unfold slotSize at hshort
      cases hfound
      exact h.pass_end hpass hlimit hle (by omega)
    · next hroom =>
      rw [UInt32.lt_iff_toNat_lt, Address.toNat_addSaturated] at hroom
      unfold slotSize at hroom
      dsimp only at hfound
      have htable : Tabulates image scan.map a (length image scan.map a limit) := by
        refine tabulates_length hplaced fun x hx => ?_
        rw [h.kind_eq (Span.mem_mk.mp hx).1]
        exact hrun x hx
      split at hfound
      · next hfew =>
        split at hfound
        · cases hfound
        · next next hnext =>
          have hplace := Address.addChecked?_eq_some.mp hnext
          have hnextBound := next.toNat_lt
          refine ih (fun x hx => hrun x ?_) (by omega) (by omega)
            (h.pass hpass (by omega) fun hunaligned x hx hbegins => ?_) hfound
          · rw [Span.mem_mk] at hx ⊢
            omega
          · have hstep := hone hunaligned
            rw [Span.mem_mk] at hx
            obtain rfl : x = a := UInt32.toNat_inj.mp (by omega)
            rw [← h.kind_eq hle] at hlimit
            exact not_tabulates_of_length_lt hlimit hle hfew hbegins
      · next hmany =>
        have hstop := toNat_stop_of_fits htable.fits
        have hpos : 0 < length image scan.map a limit := by
          unfold minSlots at hmany
          omega
        have hends := (toNat_stop_tableSpan hplaced hpos).2
        refine ih (fun x hx => hrun x ?_) (by omega) (by omega)
          (h.note hnote (by omega) htable) hfound
        rw [Span.mem_mk, hstop] at hx
        rw [Span.mem_mk]
        omega

lemma comes_searchRun {run : Span} (hrun : run ∈ base.unprocessedRuns)
    (h : Comes base P run.start scan) (hfound : searchRun image aligned scan run = some found) :
    Comes base P run.stop found := by
  have hnonempty := ByteMap.start_lt_stop_of_mem_unprocessedRuns hrun
  unfold searchRun at hfound
  split at hfound
  · next hnone =>
    cases hfound
    -- only the next address divisible by four may not exist
    refine h.pass hpass (Nat.le_of_lt hnonempty) fun hunaligned => ?_
    rw [hunaligned] at hnone
    cases hnone
  · next first hfirst =>
    have hle := le_of_firstLook? hfirst
    have hunaligned : aligned = false → first = run.start := by
      rintro rfl
      exact (Option.some.inj hfirst).symm
    by_cases hwithin : first.toNat ≤ run.stop.toNat
    · refine comes_searchFrom hplaced hpass hnote ?_ (fun haligned => by rw [haligned]; rfl)
        (fun x hx => ?_) (ByteMap.kind_stop_of_mem_unprocessedRuns hrun) hwithin ?_
        (h.pass hpass hle fun haligned x hx => ?_) hfound
      · unfold slotSize
        split <;> decide
      · rw [Span.mem_mk] at hx
        exact ByteMap.unprocessed_of_mem_run hrun (Span.mem_iff.mpr (by omega))
      · unfold Span.size
        omega
      · rw [hunaligned haligned, Span.mem_mk] at hx
        omega
    · rw [searchFrom_of_lt (by omega)] at hfound
      cases hfound
      refine h.pass hpass (Nat.le_of_lt hnonempty) fun haligned => ?_
      rw [hunaligned haligned] at hwithin
      omega

/-- **A search comes to the last address.**  What is kept by noting a table, and by passing bytes,
holds in the end.  A search that looks at every address passes none at which a table begins. -/
lemma comes_searchAll (h : P 0 scan) (hfound : searchAll image aligned scan = some found) :
    Comes scan.map P Address.last found := by
  rw [searchAll, foldlM_eq_foldl_bind] at hfound
  -- a search that has failed has come as far as one likes
  refine @ByteMap.sweep_unprocessedRuns scan.map (Option Scan)
    (fun a o => ∀ s, o = some s → Comes scan.map P a s)
    (fun o run => o.bind fun s => searchRun image aligned s run) (some scan) ?_ ?_ ?_ found hfound
  · intro a b o ho hab hdecided s hs
    refine (ho s hs).pass hpass hab fun _ x hx htable => hdecided x hx ?_
    rw [← (ho s hs).kind_eq (Span.mem_mk.mp hx).1]
    exact htable.undecided_start (by decide)
  · intro o run hrun ho s hs
    obtain ⟨s', hs', hsearch⟩ := Option.bind_eq_some_iff.mp hs
    exact comes_searchRun hplaced hpass hnote hrun (ho s' hs') hsearch
  · rintro s ⟨⟩
    exact ⟨h, .refl scan.map, fun _ _ => rfl⟩

end Sweep

lemma fills_searchAll (hplaced : image.Placed) {aligned : Bool} {found : Scan}
    (hfound : searchAll image aligned scan = some found) : scan.map.Fills found.map :=
  (@comes_searchAll image scan (fun _ _ => True) aligned found hplaced (fun _ _ _ => trivial)
    (fun _ _ _ => trivial) trivial hfound).fills

/-! ## Searches that come to an end

In front of the highest address there is always an address to look at next. -/

lemma exists_searchFrom {stride fuel : Nat} (hstride : stride ≤ 4)
    (hlimit : limit.toNat < 2 ^ 32 - 1) :
    ∃ found, searchFrom image stride limit fuel a scan = some found := by
  induction fuel generalizing a scan with
  | zero => exact ⟨scan, rfl⟩
  | succ fuel ih =>
    unfold searchFrom
    split
    · exact ⟨scan, rfl⟩
    · next hroom =>
      rw [UInt32.lt_iff_toNat_lt, Address.toNat_addSaturated] at hroom
      unfold slotSize at hroom
      dsimp only
      split
      · have hnext : Address.addChecked? a stride = some (a + UInt32.ofNat stride) :=
          Address.addChecked?_eq_some.mpr (Address.toNat_add_ofNat (by omega))
        rw [hnext]
        exact ih
      · exact ih

lemma exists_searchRun {aligned : Bool} {run : Span} (hstop : run.stop.toNat < 2 ^ 32 - 1) :
    ∃ found, searchRun image aligned scan run = some found := by
  unfold searchRun
  split
  · exact ⟨scan, rfl⟩
  · refine exists_searchFrom ?_ hstop
    split <;> decide

/-- **Only a run up to the highest address makes a search fail.** -/
lemma exists_searchAll {aligned : Bool} (hlast : scan.map.kind (Address.last - 1) ≠ .unprocessed) :
    ∃ found, searchAll image aligned scan = some found := by
  have hstop : ∀ run ∈ scan.map.unprocessedRuns, run.stop.toNat < 2 ^ 32 - 1 := by
    intro run hrun
    have hnonempty := ByteMap.start_lt_stop_of_mem_unprocessedRuns hrun
    have hbound := run.stop.toNat_lt
    by_contra hpast
    refine hlast (ByteMap.unprocessed_of_mem_run hrun (Span.mem_iff.mpr ?_))
    change run.start.toNat ≤ 2 ^ 32 - 2 ∧ 2 ^ 32 - 2 < run.stop.toNat
    omega
  unfold searchAll
  generalize scan.map.unprocessedRuns = runs at hstop
  clear hlast
  induction runs generalizing scan with
  | nil => exact ⟨scan, rfl⟩
  | cons run rest ih =>
    rw [List.forall_mem_cons] at hstop
    obtain ⟨next, hnext⟩ := @exists_searchRun image scan aligned run hstop.1
    rw [List.foldlM_cons, hnext]
    exact ih hstop.2

/-! ## What a search records -/

/-- **What a search has recorded**, starting from a map and an index.  The tables have no byte in
common, each is one in the map that the search began with, and they are all that was marked and
inserted. -/
structure Recorded (image : Image) (m : ByteMap) (index : ReferenceIndex) (scan : Scan) : Prop where
  apart : scan.tables.Pairwise fun s t => ∀ a ∈ s, a ∉ t
  tables : ∀ t ∈ scan.tables, ∃ n, minSlots ≤ n ∧ t = tableSpan t.start n ∧
    Tabulates image m t.start n
  map : scan.map = m.markAll (scan.tables.map fun t => (t, .pointerTable))
  index : scan.index = (entriesOf image scan.tables).foldl .insert index
  targets : ∀ a, a ∈ scan.targets ↔ (∃ r ∈ entriesOf image scan.tables, r.target = a) ∧
    (m.marks a).start = false

namespace Recorded

variable {index : ReferenceIndex}

lemma undecided (h : Recorded image m index scan) {t : Span} (ht : t ∈ scan.tables) (ha : a ∈ t) :
    m.kind a = .unprocessed := by
  obtain ⟨n, -, hspan, htable⟩ := h.tables t ht
  rw [hspan] at ha
  exact htable.undecided a ha

lemma marked (h : Recorded image m index scan) :
    m.Marked (scan.tables.map fun t => (t, .pointerTable)) scan.map := by
  rw [h.map]
  refine ByteMap.marked_markAll (List.pairwise_map.mpr h.apart) fun p hp a ha => ?_
  obtain ⟨t, ht, rfl⟩ := List.mem_map.mp hp
  exact h.undecided ht ha

lemma fills (h : Recorded image m index scan) : m.Fills scan.map := by
  refine h.marked.fills (fun p hp => ?_) fun p hp a ha => ?_ <;> obtain ⟨t, ht, rfl⟩ :=
    List.mem_map.mp hp
  · exact show DataClass.pointerTable ≠ .none by decide
  · exact h.undecided ht ha

lemma initial (image : Image) (m : ByteMap) (index : ReferenceIndex) :
    Recorded image m index { map := m, index } :=
  ⟨.nil, fun _ ht => absurd ht List.not_mem_nil, rfl, rfl, fun a => by simp [entriesOf]⟩

/-- **Noting a table.**  Its bytes are undecided at this point, so no earlier table has any of
them. -/
lemma note (h : Recorded image m index scan) (hn : minSlots ≤ n)
    (htable : Tabulates image scan.map start n) :
    Recorded image m index (noteTable image scan start n) := by
  have hfills := h.fills
  have hentries : entriesOf image (scan.tables ++ [tableSpan start n]) =
      entriesOf image scan.tables ++ (slotsOf start n).filterMap (relation? image) := by
    simp [entriesOf, slotsIn_tableSpan htable.fits]
  unfold noteTable
  rw [foldl_noteSlot_eq]
  refine ⟨?_, ?_, ?_, ?_, fun a => ?_⟩ <;> dsimp only
  · rw [List.pairwise_append]
    refine ⟨h.apart, List.pairwise_singleton _ _, fun t ht s hs a hat has => ?_⟩
    obtain rfl := List.mem_singleton.mp hs
    have hundecided := htable.undecided a has
    have hdata := h.marked.inside (List.mem_map.mpr ⟨t, ht, rfl⟩) hat
    rw [ByteMap.kind_eq_unprocessed_iff, ByteMap.marks, hdata] at hundecided
    simp [Cell.asData] at hundecided
  · intro t ht
    rcases List.mem_append.mp ht with ht | ht
    · exact h.tables t ht
    · obtain rfl := List.mem_singleton.mp ht
      exact ⟨n, hn, rfl, htable.of_fills hfills⟩
  · rw [List.map_append, List.map_singleton, ByteMap.markAll_append_singleton, ← h.map]
  · rw [hentries, List.foldl_append, ← h.index]
  · have hstart : ∀ b, ((scan.map.markData (tableSpan start n) .pointerTable).marks b).start =
        (m.marks b).start := by
      intro b
      rw [ByteMap.marks_markData, ← hfills.keeps.start]
      split <;> simp
    simp only [hentries, List.mem_append, h.targets, List.mem_filter, List.mem_map, hstart,
      Bool.not_eq_true', or_and_right, exists_or]

end Recorded

/-! ## Targets without repetition -/

lemma mem_dropRepeats {l : List Address} : a ∈ dropRepeats l ↔ a ∈ l := by
  fun_induction dropRepeats l with
  | case1 => rfl
  | case2 => rfl
  | case3 b rest ih => simp [ih]
  | case4 b c rest hne ih => rw [List.mem_cons, ih, ← List.mem_cons]

lemma pairwise_dropRepeats {l : List Address} (h : l.Pairwise fun a b => a.toNat ≤ b.toNat) :
    (dropRepeats l).Pairwise (· < ·) := by
  fun_induction dropRepeats l with
  | case1 => exact List.Pairwise.nil
  | case2 b => exact List.pairwise_singleton _ b
  | case3 b rest ih => exact ih (List.pairwise_cons.mp h).2
  | case4 b c rest hne ih =>
    obtain ⟨hb, hrest⟩ := List.pairwise_cons.mp h
    refine List.pairwise_cons.mpr ⟨fun d hd => ?_, ih hrest⟩
    -- what follows is not below its first element, and that is above the one in front
    have hbc : b.toNat < c.toNat := by
      have hle := hb c List.mem_cons_self
      have hnat : b.toNat ≠ c.toNat := fun heq => hne (UInt32.toNat_inj.mp heq)
      omega
    have hcd : c.toNat ≤ d.toNat := by
      rcases List.mem_cons.mp (mem_dropRepeats.mp hd) with rfl | hd
      · exact Nat.le_refl _
      · exact (List.pairwise_cons.mp hrest).1 d hd
    exact UInt32.lt_iff_toNat_lt.mpr (by omega)

/-! ## The whole search -/

section Detect

variable {index : ReferenceIndex} {found : Scan} (hplaced : image.Placed)

/-- A search that comes to an end has done so at every fourth address and at every address. -/
lemma detect_eq_some_iff :
    detect image m index = some scan ↔ ∃ first second,
      searchAll image true { map := m, index } = some first ∧
        searchAll image false first = some second ∧
        { second with targets := dropRepeats (stableSort UInt32.toNat second.targets) } = scan := by
  simp [detect, Option.bind_eq_some_iff]

include hplaced

lemma recorded_searchAll {aligned : Bool} (h : Recorded image m index scan)
    (hfound : searchAll image aligned scan = some found) : Recorded image m index found :=
  (@comes_searchAll image scan (fun _ s => Recorded image m index s) aligned found hplaced
    (fun hs _ _ => hs) (fun hs hn htable => hs.note hn htable) h hfound).holds

/-- **What the search records.** -/
lemma recorded_detect (hscan : detect image m index = some scan) : Recorded image m index scan := by
  obtain ⟨first, second, hfirst, hsecond, rfl⟩ := detect_eq_some_iff.mp hscan
  have hrecorded := recorded_searchAll hplaced (.initial image m index) hfirst
  have h := recorded_searchAll hplaced hrecorded hsecond
  refine ⟨h.apart, h.tables, h.map, h.index, fun a => ?_⟩
  rw [mem_dropRepeats, mem_stableSort]
  exact h.targets a

/-- **The search for tables fills the map.** -/
lemma fills_detect (hscan : detect image m index = some scan) : m.Fills scan.map :=
  (recorded_detect hplaced hscan).fills

/-- The search for tables inserts relations into the index and does nothing else to it. -/
lemma index_detect {Q : ReferenceIndex → Prop} (hscan : detect image m index = some scan)
    (hindex : Q index)
    (hinsert : ∀ {x : ReferenceIndex} (r : CrossReference), Q x → Q (x.insert r)) :
    Q scan.index := by
  rw [(recorded_detect hplaced hscan).index]
  exact List.foldlRecOn _ _ hindex fun _ hx r _ => hinsert r hx

/-- The search at every address leaves no table behind. -/
lemma not_tabulates_searchAll (hfound : searchAll image false scan = some found) (x : Address) :
    ¬Tabulates image found.map x minSlots := by
  have hcomes := @comes_searchAll image scan
    (fun a s => ∀ x : Address, x.toNat < a.toNat → ¬Tabulates image s.map x minSlots)
    false found hplaced ?_ ?_ ?_ hfound
  · intro htable
    have hfits := htable.fits
    unfold minSlots at hfits
    exact hcomes.holds x (show x.toNat < 2 ^ 32 - 1 by omega) htable
  · intro a b s hs hab hnone x hx
    by_cases hxa : x.toNat < a.toNat
    · exact hs x hxa
    · exact hnone rfl x (Span.mem_mk.mpr ⟨by omega, hx⟩)
  · intro a n s hs hn htable x hx hbegins
    have hfills : s.map.Fills (noteTable image s a n).map := by
      rw [map_noteTable]
      exact (ByteMap.Fills.refl s.map).markData (by decide) htable.undecided
    by_cases hxa : x.toNat < a.toNat
    · exact hs x hxa (hbegins.of_fills hfills)
    · -- the table that was just noted is data from end to end
      have hmem : x ∈ tableSpan a n := by
        rw [toNat_stop_of_fits htable.fits] at hx
        exact (mem_tableSpan htable.fits).mpr ⟨by omega, hx⟩
      have hdata := hbegins.undecided_start (by decide)
      rw [map_noteTable, ByteMap.kind_eq_unprocessed_iff, ByteMap.marks_markData,
        if_pos ⟨hmem, ByteMap.contains_of_unprocessed (htable.undecided x hmem)⟩] at hdata
      simp at hdata
  · intro x hx
    exact absurd hx (Nat.not_lt_zero _)

/-- **After a search there is no table left.** -/
lemma not_tabulates_detect (hscan : detect image m index = some scan) (a : Address) :
    ¬Tabulates image scan.map a minSlots := by
  obtain ⟨first, second, -, hsecond, rfl⟩ := detect_eq_some_iff.mp hscan
  exact not_tabulates_searchAll hplaced hsecond a

/-- Where there is no table the search changes nothing. -/
lemma searchAll_of_not_tabulates (aligned : Bool) (h : ∀ a, ¬Tabulates image scan.map a minSlots)
    (hlast : scan.map.kind (Address.last - 1) ≠ .unprocessed) :
    searchAll image aligned scan = some scan := by
  obtain ⟨found, hfound⟩ := @exists_searchAll image scan aligned hlast
  refine hfound.trans (congrArg some ?_)
  refine (@comes_searchAll image scan (fun _ s => s = scan) aligned found hplaced
    (fun hs _ _ => hs) ?_ rfl hfound).holds
  rintro a n s rfl hn htable
  exact absurd (htable.mono hn) (h a)

lemma detect_of_not_tabulates (h : ∀ a, ¬Tabulates image m a minSlots)
    (hlast : m.kind (Address.last - 1) ≠ .unprocessed) (index : ReferenceIndex) :
    detect image m index = some { map := m, index } := by
  have haligned := @searchAll_of_not_tabulates image { map := m, index } hplaced true h hlast
  have hunaligned := @searchAll_of_not_tabulates image { map := m, index } hplaced false h hlast
  exact detect_eq_some_iff.mpr ⟨_, _, haligned, hunaligned, rfl⟩

/-- **The search for tables comes to an end**, unless the bytes up to the highest address are
undecided. -/
lemma exists_detect (hlast : m.kind (Address.last - 1) ≠ .unprocessed) (index : ReferenceIndex) :
    ∃ scan, detect image m index = some scan := by
  obtain ⟨first, hfirst⟩ := @exists_searchAll image { map := m, index } true hlast
  have hfills := fills_searchAll hplaced hfirst
  obtain ⟨second, hsecond⟩ :=
    @exists_searchAll image first false fun h => hlast (hfills.unprocessed_of h)
  exact ⟨_, detect_eq_some_iff.mpr ⟨first, second, hfirst, hsecond, rfl⟩⟩

end Detect

lemma pairwise_targets_detect {index : ReferenceIndex} (hscan : detect image m index = some scan) :
    scan.targets.Pairwise (· < ·) := by
  obtain ⟨first, second, -, -, rfl⟩ := detect_eq_some_iff.mp hscan
  exact pairwise_dropRepeats (pairwise_stableSort UInt32.toNat _)

/-- **One search finds every table.**  For every image that loads, every map none of whose ranges
ends at the highest address, and every index: the search comes to an end; the tables found have no
byte in common; each has at least four slots, undecided bytes, and the addresses of possible code in
its slots; the map is changed by making their bytes data of that class, and the index by inserting
the relations of their slots; the targets are what the slots point to, without known instructions
and strictly ascending.  In the map that is left there is no table any more, so that a second search
finds none and changes nothing. -/
theorem search_finds_every_table {file : Array UInt8} {layout : Layout}
    (hload : Image.load file layout = .ok image) (m : ByteMap) (hroom : m.LeavesRoom)
    (index : ReferenceIndex) :
    ∃ scan, detect image m index = some scan ∧
      scan.tables.Pairwise (fun s t => ∀ a ∈ s, a ∉ t) ∧
      (∀ t ∈ scan.tables, ∃ n, 4 ≤ n ∧ t = tableSpan t.start n ∧ Tabulates image m t.start n) ∧
      m.Marked (scan.tables.map fun t => (t, .pointerTable)) scan.map ∧
      (∀ r, (r ∈ scan.index.bySite ↔ r ∈ index.bySite ∨
          ∃ e ∈ entriesOf image scan.tables, r = e ∨ r = e.partner) ∧
        (r ∈ scan.index.byTarget ↔ r ∈ index.byTarget ∨
          ∃ e ∈ entriesOf image scan.tables, r = e ∨ r = e.partner)) ∧
      scan.targets.Pairwise (· < ·) ∧
      (∀ a, a ∈ scan.targets ↔
        (∃ e ∈ entriesOf image scan.tables, e.target = a) ∧ (m.marks a).start = false) ∧
      (∀ a, ¬Tabulates image scan.map a 4) ∧
      detect image scan.map scan.index = some { map := scan.map, index := scan.index } := by
  have hplaced := Image.placed_of_load hload
  obtain ⟨scan, hscan⟩ := exists_detect hplaced hroom.decided index
  have hrecorded := recorded_detect hplaced hscan
  have hnone := not_tabulates_detect hplaced hscan
  refine ⟨scan, hscan, hrecorded.apart, hrecorded.tables, hrecorded.marked, fun r => ?_,
    pairwise_targets_detect hscan, hrecorded.targets, hnone,
    detect_of_not_tabulates hplaced hnone (hroom.congr hrecorded.fills.coverage).decided scan.index⟩
  rw [hrecorded.index]
  exact ReferenceIndex.mem_foldl_insert index _ r

/-! ## Two tables

Four pointers to `0x401010`, the byte that they point to, and four more of them behind it, which do
not stand at an address divisible by four. -/

/-- The bytes of the two tables. -/
def twoTables : Array UInt8 :=
  #[0x10, 0x10, 0x40, 0, 0x10, 0x10, 0x40, 0, 0x10, 0x10, 0x40, 0, 0x10, 0x10, 0x40, 0, 0xc3,
    0x10, 0x10, 0x40, 0, 0x10, 0x10, 0x40, 0, 0x10, 0x10, 0x40, 0, 0x10, 0x10, 0x40, 0, 0, 0, 0]

/-- The search finds one of the tables when it looks at every fourth address, the other when it
looks at every address, and none of them again. -/
theorem search_finds_every_table_twice :
    ∃ image, Image.load twoTables (.flat 0x400000 0x1000 36) = .ok image ∧
      (ByteMap.ofImage image).LeavesRoom ∧ ∃ scan,
        detect image (.ofImage image) .empty = some scan ∧
        scan.tables = [⟨0x401000, 0x401010⟩, ⟨0x401011, 0x401021⟩] ∧
        (detect image scan.map scan.index).map Scan.tables = some [] := by
  have htables : ∃ image, Image.load twoTables (.flat 0x400000 0x1000 36) = .ok image ∧
      (ByteMap.ofImage image).LeavesRoom ∧
      (detect image (.ofImage image) .empty).map Scan.tables =
        some [⟨0x401000, 0x401010⟩, ⟨0x401011, 0x401021⟩] :=
    ⟨_, rfl, by decide +kernel, by decide +kernel⟩
  obtain ⟨image, hload, hroom, htables⟩ := htables
  obtain ⟨scan, hscan, -, -, -, -, -, -, -, hagain⟩ :=
    search_finds_every_table hload (.ofImage image) hroom .empty
  rw [hscan] at htables
  exact ⟨image, hload, hroom, scan, hscan, Option.some.inj htables, by rw [hagain]; rfl⟩

/-! ## Tables that point into themselves -/

/-- **A table points into itself ahead only.**  What a slot of a table that is found points to does
not lie in the part of the table that ends with the slot.  It lies in the table exactly if it lies
in the part behind the slot. -/
theorem slots_point_ahead_only {file : Array UInt8} {layout : Layout}
    (hload : Image.load file layout = .ok image) {m : ByteMap} {index : ReferenceIndex}
    (hscan : detect image m index = some scan) {t : Span} (ht : t ∈ scan.tables)
    (hslot : slot ∈ slotsIn t) :
    ∃ target, image.word? slot = some target ∧ m.admitsCode image target = true ∧
      target ∉ (⟨t.start, slot + 4⟩ : Span) ∧
        (target ∈ t ↔ target ∈ (⟨slot + 4, t.stop⟩ : Span)) := by
  obtain ⟨n, -, hspan, htable⟩ := (recorded_detect (Image.placed_of_load hload) hscan).tables t ht
  have hfits := htable.fits
  rw [hspan, slotsIn_tableSpan hfits] at hslot
  obtain ⟨target, hword, hadmits, hout⟩ := htable.points slot hslot
  refine ⟨target, hword, hadmits, hout, ?_⟩
  obtain ⟨i, hi, hplace⟩ := (mem_slotsOf hfits).mp hslot
  have hnext : (slot + 4).toNat = slot.toNat + 4 := Address.toNat_add_ofNat (n := 4) (by omega)
  have hstop : t.stop.toNat = t.start.toNat + 4 * n := by
    rw [hspan]
    exact toNat_stop_of_fits hfits
  rw [Span.mem_mk, hnext] at hout
  rw [Span.mem_iff, Span.mem_mk, hnext, hstop]
  omega

/-- A table of four slots, the first of which points to the last, and four zeros. -/
def pointsAhead : Array UInt8 :=
  #[0x0c, 0x10, 0x40, 0, 0x10, 0x10, 0x40, 0, 0x10, 0x10, 0x40, 0, 0x10, 0x10, 0x40, 0, 0, 0, 0, 0]

/-- A table that is found may point into itself. -/
theorem first_slot_points_to_last :
    ∃ image, Image.load pointsAhead (.flat 0x400000 0x1000 20) = .ok image ∧
      (detect image (.ofImage image) .empty).map Scan.tables = some [⟨0x401000, 0x401010⟩] ∧
      0x401000 ∈ slotsIn ⟨0x401000, 0x401010⟩ ∧ image.word? 0x401000 = some 0x40100c ∧
      0x40100c ∈ (⟨0x401000, 0x401010⟩ : Span) := by
  exact ⟨_, rfl, by decide +kernel, by decide +kernel, by decide +kernel, by decide⟩

/-- The second slot of that table points out of it. -/
theorem slots_point_ahead_only_second :
    ∃ image, Image.load pointsAhead (.flat 0x400000 0x1000 20) = .ok image ∧
      (detect image (.ofImage image) .empty).map Scan.tables = some [⟨0x401000, 0x401010⟩] ∧
      0x401004 ∈ slotsIn ⟨0x401000, 0x401010⟩ ∧
      ∃ target, image.word? 0x401004 = some target ∧ target ∉ (⟨0x401000, 0x401008⟩ : Span) := by
  have htables : ∃ image, Image.load pointsAhead (.flat 0x400000 0x1000 20) = .ok image ∧
      (detect image (.ofImage image) .empty).map Scan.tables = some [⟨0x401000, 0x401010⟩] :=
    ⟨_, rfl, by decide +kernel⟩
  obtain ⟨image, hload, htables⟩ := htables
  obtain ⟨scan, hscan, hfound⟩ := Option.map_eq_some_iff.mp htables
  have hslot : 0x401004 ∈ slotsIn ⟨0x401000, 0x401010⟩ := by decide
  obtain ⟨target, hword, -, hout, -⟩ :=
    slots_point_ahead_only hload hscan (hfound ▸ List.mem_singleton_self _) hslot
  exact ⟨image, hload, htables, hslot, target, hword, hout⟩

end PointerTables

end CodeSift
