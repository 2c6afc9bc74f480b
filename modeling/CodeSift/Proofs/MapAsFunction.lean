import CodeSift.Proofs.Image
import Mathlib.Data.Set.Card

/-!
# A map is a partial function

A map is asked about single addresses and listed as a whole.  Behind all its answers stands one
partial function from addresses to cells, the `Contents` of the map: it is defined at the covered
addresses, and outside them every address reads as data about which nothing more is known.  Each
kind of write changes the contents address by address, and changes nothing where the function is not
defined (`contents_perform`); so whatever was written, in whatever order and over whatever holes,
the map answers as the function does (`map_is_partial_function`).

What is covered is kept as spans.  Any list of spans, with overlaps, repetitions and empty spans in
any order, is brought into normal form: non-empty spans that ascend and do not even touch
(`Normalizes`).  Spans in normal form can be searched by halving.  Those that begin at or before an
address are the first ones, and only the last of them can hold the address (`Coverage.lookup_iff`).
-/

namespace CodeSift

/-- A list without repetitions has as many members as elements. -/
lemma ncard_setOf_mem {α : Type} {l : List α} (h : l.Nodup) : {a | a ∈ l}.ncard = l.length := by
  classical
  have hset : {a | a ∈ l} = (l.toFinset : Set α) := by
    ext a
    rw [List.coe_toFinset]
  rw [hset, Set.ncard_coe_finset, List.toFinset_card_of_nodup h]

/-! ## Covered addresses -/

/-- **The spans are the normal form of the given ones.**  They hold addresses, ascend with a gap
between each and the next, and cover what the given ones cover. -/
structure Normalizes (spans given : List Span) : Prop where
  nonempty : ∀ s ∈ spans, s.start < s.stop
  apart : spans.Pairwise fun s t => s.stop < t.start
  covers : ∀ a, (∃ s ∈ spans, a ∈ s) ↔ ∃ s ∈ given, a ∈ s

namespace Coverage

lemma normalizes_ofSpans (given : List Span) : Normalizes (ofSpans given).spans given where
  nonempty := (ofSpans given).separated.nonempty
  apart := (ofSpans given).separated.apart
  covers _ := contains_iff_exists_span.symm.trans contains_ofSpans

/-- The span to look an address up in: the last of those in front that begin at or before it. -/
def lookup? (c : Coverage) (a : Address) : Option Span :=
  (c.spans.takeWhile fun s => decide (s.start ≤ a)).getLast?

/-- **Only one span can hold an address**, the one in which it is looked up. -/
lemma lookup_iff {c : Coverage} {a : Address} {s : Span} :
    c.lookup? a = some s ∧ a < s.stop ↔ s ∈ c.spans ∧ a ∈ s := by
  constructor
  · rintro ⟨hlookup, hstop⟩
    have hmem := List.mem_of_getLast? hlookup
    have hstart : s.start ≤ a := of_decide_eq_true (List.all_eq_true.mp List.all_takeWhile s hmem)
    exact ⟨(List.takeWhile_sublist _).mem hmem, hstart, hstop⟩
  · rintro ⟨hs, ha⟩
    obtain ⟨before, behind, hspans⟩ := List.append_of_mem hs
    have hapart := c.separated.apart
    have hnonempty := c.separated.nonempty
    rw [hspans] at hapart hnonempty
    obtain ⟨-, hrest, hbefore⟩ := List.pairwise_append.mp hapart
    have hbounds := Span.mem_iff.mp ha
    -- what comes before the span begins before it, and what comes behind begins behind the address
    have hpass : ∀ t ∈ before, decide (t.start ≤ a) = true := by
      intro t ht
      have hlt := UInt32.lt_iff_toNat_lt.mp (hbefore t ht s List.mem_cons_self)
      have htlt := UInt32.lt_iff_toNat_lt.mp (hnonempty t (List.mem_append_left _ ht))
      rw [decide_eq_true_eq, UInt32.le_iff_toNat_le]
      omega
    have hfail : behind.takeWhile (fun t => decide (t.start ≤ a)) = [] := by
      cases behind with
      | nil => rfl
      | cons t others =>
        have hlt := UInt32.lt_iff_toNat_lt.mp ((List.pairwise_cons.mp hrest).1 t List.mem_cons_self)
        rw [List.takeWhile_cons_of_neg]
        rw [decide_eq_true_eq, UInt32.le_iff_toNat_le]
        omega
    have hspan : (s :: behind).takeWhile (fun t => decide (t.start ≤ a)) = [s] := by
      rw [List.takeWhile_cons, if_pos (decide_eq_true ha.1), hfail]
    refine ⟨?_, ha.2⟩
    rw [lookup?, hspans, List.takeWhile_append_of_pos hpass, hspan, List.getLast?_concat]

end Coverage

namespace ByteMap

/-! ## Contents -/

/-- A partial function from addresses to cells. -/
def Contents : Type := Address → Option Cell

/-- A write to a map. -/
inductive Write where
  /-- Replaces the marks of an address. -/
  | set (a : Address) (f : Marks)
  /-- Adds marks to those of an address. -/
  | add (a : Address) (f : Marks)
  /-- Takes marks from those of an address. -/
  | remove (a : Address) (f : Marks)
  /-- Makes the bytes of a span data. -/
  | makeData (s : Span) (cls : DataClass)
  /-- Forgets everything about the bytes of a span. -/
  | forget (s : Span)

/-- Makes a write. -/
def perform (m : ByteMap) : Write → ByteMap
  | .set a f => m.setMarks a f
  | .add a f => m.mark a f
  | .remove a f => m.unmark a f
  | .makeData s cls => m.markData s cls
  | .forget s => m.clear s

namespace Contents

/-- Nothing is decided about the addresses of the spans, and there are no others. -/
def blank (spans : List Span) : Contents :=
  fun a => if ∃ s ∈ spans, a ∈ s then some ⟨{}, .none⟩ else none

/-- The cells of some addresses changed, where there are any. -/
def change (f : Contents) (place : Address → Prop) [DecidablePred place] (g : Cell → Cell) :
    Contents :=
  fun a => if place a then (f a).map g else f a

/-- **What a write does**, address by address. -/
def write (f : Contents) : Write → Contents
  | .set a new => f.change (· = a) fun c => ⟨new, c.dataClass⟩
  | .add a more => f.change (· = a) fun c => ⟨c.marks ||| more, c.dataClass⟩
  | .remove a fewer => f.change (· = a) fun c => ⟨c.marks.without fewer, c.dataClass⟩
  | .makeData s cls => f.change (· ∈ s) fun c => ⟨c.marks ||| { data := true }, cls⟩
  | .forget s => f.change (· ∈ s) fun _ => ⟨{}, .none⟩

end Contents

/-- The contents of a map: the cells of the covered addresses. -/
def contents (m : ByteMap) : Contents :=
  fun a => if m.contains a = true then some (m.cell a) else none

variable {m : ByteMap} {a : Address} {c : Cell}

lemma contents_eq_some_iff : m.contents a = some c ↔ m.contains a = true ∧ m.cell a = c := by
  unfold contents
  split <;> simp_all

lemma contents_ofSpans (spans : List Span) : (ofSpans spans).contents = Contents.blank spans := by
  funext a
  have hcontains : (ofSpans spans).contains a = true ↔ ∃ s ∈ spans, a ∈ s :=
    Coverage.contains_ofSpans
  unfold contents Contents.blank
  rw [cell_ofSpans]
  by_cases h : (ofSpans spans).contains a = true
  · rw [if_pos h, if_pos h, if_pos (hcontains.mp h)]
    rfl
  · rw [if_neg h, if_neg (mt hcontains.mpr h)]

/-- A map with the covered cells of some places changed has its contents changed there. -/
lemma contents_eq_change {m' : ByteMap} {place : Address → Prop} [DecidablePred place]
    {g : Cell → Cell} (hcoverage : m'.coverage = m.coverage)
    (hcell : ∀ b, m'.cell b = if place b ∧ m.contains b = true then g (m.cell b) else m.cell b) :
    m'.contents = m.contents.change place g := by
  funext b
  unfold contents Contents.change
  rw [contains_congr hcoverage, hcell]
  by_cases hcontains : m.contains b = true <;> by_cases hplace : place b <;>
    simp [hcontains, hplace]

/-- **A write to a map is a write to its contents.** -/
lemma contents_perform (m : ByteMap) (w : Write) : (m.perform w).contents = m.contents.write w := by
  -- a write to one address is guarded by that address, which is the place itself
  have hsingle : ∀ (a : Address) (g : Cell → Cell),
      (m.modify a g).contents = m.contents.change (· = a) g := by
    intro a g
    refine contents_eq_change (coverage_modify m a g) fun b => ?_
    rw [cell_modify]
    exact if_congr (and_congr_right fun hab => by rw [hab]) rfl rfl
  cases w with
  | set a f => exact hsingle a _
  | add a f => exact hsingle a _
  | remove a f => exact hsingle a _
  | makeData s cls => exact contents_eq_change (coverage_markData m s cls) (cell_markData m s cls)
  | forget s => exact contents_eq_change (coverage_clear m s) (cell_clear m s)

/-- **Any number of writes** to a map are writes to its contents. -/
lemma contents_foldl_perform (m : ByteMap) (writes : List Write) :
    (writes.foldl perform m).contents = writes.foldl Contents.write m.contents := by
  induction writes generalizing m with
  | nil => rfl
  | cons w rest ih => rw [List.foldl_cons, ih, contents_perform, List.foldl_cons]

lemma coverage_perform (m : ByteMap) (w : Write) : (m.perform w).coverage = m.coverage := by
  cases w with
  | set a f => exact coverage_modify m a _
  | add a f => exact coverage_mark m a f
  | remove a f => exact coverage_unmark m a f
  | makeData s cls => exact coverage_markData m s cls
  | forget s => exact coverage_clear m s

lemma coverage_foldl_perform (m : ByteMap) (writes : List Write) :
    (writes.foldl perform m).coverage = m.coverage := by
  induction writes generalizing m with
  | nil => rfl
  | cons w rest ih => rw [List.foldl_cons, ih, coverage_perform]

/-! ## Answers -/

/-- The number of addresses at which the function has a cell that passes the test. -/
noncomputable def Contents.count (f : Contents) (test : Cell → Prop) : Nat :=
  {a | ∃ c, f a = some c ∧ test c}.ncard

/-- **What a map answers, read off a partial function.**  Single addresses read as the function
gives them, and as raw data where it gives nothing.  The lists name every address once, in ascending
order, and the counts count addresses. -/
structure Answers (m : ByteMap) (f : Contents) : Prop where
  contains : ∀ a, m.contains a = (f a).isSome
  marks : ∀ a, m.marks a = (f a).elim { data := true } Cell.marks
  dataClass : ∀ a, m.dataClass a = (f a).elim .raw Cell.dataClass
  toList : ∀ a c, (a, c) ∈ m.toList ↔ f a = some c
  ascending : m.toList.Pairwise fun p q => p.1 < q.1
  size : m.size = f.count fun _ => True
  isEmpty : m.isEmpty = true ↔ ∀ a, f a = none
  countKind : ∀ k, m.countKind k = f.count fun c => c.marks.kind = k
  countClass : ∀ cls, m.countClass cls = f.count fun c => c.dataClass = cls
  starts : ∀ a, a ∈ m.starts ↔ ∃ c, f a = some c ∧ c.marks.start = true
  startsAscend : m.starts.Pairwise (· < ·)

/-- The addresses with cells that pass a test, counted along the map. -/
lemma count_contents (m : ByteMap) (test : Cell → Prop) [DecidablePred test] :
    m.contents.count test = (m.cells.toList.filter fun c => decide (test c)).length := by
  have hmem : {a | ∃ c, m.contents a = some c ∧ test c} =
      {a | a ∈ m.coverage.addresses.filter fun a => decide (test (m.cell a))} := by
    ext a
    simp only [Set.mem_ofPred_eq, contents_eq_some_iff, List.mem_filter, ← Coverage.contains_iff,
      decide_eq_true_eq]
    constructor
    · rintro ⟨_, ⟨hcontains, rfl⟩, htest⟩
      exact ⟨hcontains, htest⟩
    · rintro ⟨hcontains, htest⟩
      exact ⟨_, ⟨hcontains, rfl⟩, htest⟩
  rw [Contents.count, hmem, ncard_setOf_mem (m.coverage.nodup_addresses.filter _), cells_toList,
    List.filter_map, List.length_map]
  rfl

lemma mem_toList_iff : (a, c) ∈ m.toList ↔ m.contents a = some c := by
  rw [toList_eq, contents_eq_some_iff, contains, Coverage.contains_iff]
  simp only [List.mem_map, Prod.mk.injEq]
  constructor
  · rintro ⟨b, hb, rfl, rfl⟩
    exact ⟨hb, rfl⟩
  · rintro ⟨ha, rfl⟩
    exact ⟨a, ha, rfl, rfl⟩

/-- **A map answers as its contents do.** -/
lemma answers_contents (m : ByteMap) : Answers m m.contents := by
  have hread : ∀ {α : Type} (outside : α) (read : Cell → α) (a : Address), read .outside = outside →
      read (m.cell a) = (m.contents a).elim outside read := by
    intro α outside read a houtside
    unfold contents
    split
    · rfl
    · next hnot =>
      rw [cell_of_not_contains (Bool.eq_false_iff.mpr hnot), houtside, Option.elim_none]
  constructor
  case contains =>
    intro a
    rw [Bool.eq_iff_iff, Option.isSome_iff_exists]
    simp only [contents_eq_some_iff, exists_and_left, exists_eq', and_true]
  case marks => exact fun a => hread _ Cell.marks a rfl
  case dataClass => exact fun a => hread _ Cell.dataClass a rfl
  case toList => exact fun a c => mem_toList_iff
  case ascending =>
    rw [toList_eq, List.pairwise_map]
    exact m.coverage.pairwise_addresses
  case size => simp [count_contents, size]
  case isEmpty =>
    rw [isEmpty, Array.isEmpty_iff_size_eq_zero, ← size, size_eq, List.length_eq_zero_iff,
      List.eq_nil_iff_forall_not_mem]
    refine forall_congr' fun a => ?_
    rw [← Coverage.contains_iff]
    unfold contents
    exact ⟨fun h => if_neg h, fun h hcontains => by rw [contains, hcontains] at h; simp at h⟩
  case countKind =>
    intro k
    simp [count_contents, countKind, beq_eq_decide]
  case countClass =>
    intro cls
    simp [count_contents, countClass, beq_eq_decide]
  case starts =>
    intro a
    rw [mem_starts]
    simp only [contents_eq_some_iff]
    refine ⟨fun h => ⟨_, ⟨contains_of_isCode (by rw [Marks.isCode, h, Bool.true_or]), rfl⟩, h⟩, ?_⟩
    rintro ⟨_, ⟨-, rfl⟩, h⟩
    exact h
  case startsAscend => exact m.pairwise_starts

/-- **A map is a partial function.**  Whatever spans it is made over and whatever is written to it:
its spans are the normal form of the given ones, an address is covered exactly if it lies in the
span in which it is looked up, and the map answers as the function does that starts out blank over
the given spans and goes through the same writes. -/
theorem map_is_partial_function (given : List Span) (writes : List Write) :
    Normalizes (writes.foldl perform (ofSpans given)).spans given ∧
    (∀ a s, (writes.foldl perform (ofSpans given)).coverage.lookup? a = some s ∧ a < s.stop ↔
      s ∈ (writes.foldl perform (ofSpans given)).spans ∧ a ∈ s) ∧
    Answers (writes.foldl perform (ofSpans given))
    (writes.foldl Contents.write (Contents.blank given)) := by
  refine ⟨?_, fun a s => Coverage.lookup_iff, ?_⟩
  · rw [spans, coverage_foldl_perform]
    exact Coverage.normalizes_ofSpans given
  · rw [← contents_ofSpans, ← contents_foldl_perform]
    exact answers_contents _

end ByteMap

end CodeSift
