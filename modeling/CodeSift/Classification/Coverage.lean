import CodeSift.Address
import CodeSift.StableSort

/-!
# Coverage: the addresses that are classified

A `Coverage` is a set of addresses in normal form: non-empty spans, ascending, with at least one
uncovered address between each and the next.  Any list of spans has exactly one normal form,
`Coverage.ofSpans`, which sorts the spans and joins those that overlap or touch.

The covered addresses are numbered without gaps in ascending order.  `index?` gives the number
of an address, and `addresses` lists the addresses by their numbers, so a plain array can hold
one value for each.
-/

namespace CodeSift

/-- Non-empty spans, ascending and not touching. -/
structure Separated (spans : List Span) : Prop where
  nonempty : ∀ s ∈ spans, s.start < s.stop
  apart : spans.Pairwise fun s t => s.stop < t.start

/-- A set of addresses, as separated spans. -/
structure Coverage where
  spans : List Span
  separated : Separated spans
deriving DecidableEq

namespace Coverage

/-! ## The normal form of a list of spans -/

/-- Joins `current` with the spans behind it as long as they overlap or touch it. -/
def join (current : Span) : List Span → List Span
  | [] => [current]
  | s :: rest =>
    if s.start ≤ current.stop then join ⟨current.start, max current.stop s.stop⟩ rest
    else current :: join s rest

/-- Joins the spans of an ascending list that overlap or touch. -/
def joinAll : List Span → List Span
  | [] => []
  | s :: rest => join s rest

theorem start_le_of_mem_join {current s : Span} {rest : List Span}
    (hstart : ∀ t ∈ rest, current.start ≤ t.start)
    (hsorted : rest.Pairwise fun t u => t.start ≤ u.start)
    (h : s ∈ join current rest) : current.start ≤ s.start := by
  induction rest generalizing current with
  | nil =>
    rcases List.mem_singleton.mp h with rfl
    exact UInt32.le_refl _
  | cons t rest ih =>
    obtain ⟨ht, hrest⟩ := List.pairwise_cons.mp hsorted
    simp only [join] at h
    split at h
    · exact @ih ⟨current.start, max current.stop t.stop⟩
        (fun u hu => hstart u (List.mem_cons_of_mem _ hu)) hrest h
    · rcases List.mem_cons.mp h with rfl | h
      · exact UInt32.le_refl _
      · exact UInt32.le_trans (hstart t List.mem_cons_self) (ih ht hrest h)

theorem separated_join {current : Span} {rest : List Span}
    (hcurrent : current.start < current.stop) (hrest : ∀ t ∈ rest, t.start < t.stop)
    (hstart : ∀ t ∈ rest, current.start ≤ t.start)
    (hsorted : rest.Pairwise fun t u => t.start ≤ u.start) : Separated (join current rest) := by
  induction rest generalizing current with
  | nil => exact ⟨by simpa [join] using hcurrent, List.pairwise_singleton _ _⟩
  | cons t rest ih =>
    obtain ⟨ht, htail⟩ := List.pairwise_cons.mp hsorted
    have hrest' : ∀ u ∈ rest, u.start < u.stop := fun u hu => hrest u (List.mem_cons_of_mem _ hu)
    simp only [join]
    split
    · refine @ih ⟨current.start, max current.stop t.stop⟩ ?_ hrest'
        (fun u hu => hstart u (List.mem_cons_of_mem _ hu)) htail
      show current.start < max current.stop t.stop
      rw [UInt32.lt_iff_toNat_lt] at hcurrent ⊢
      rw [Address.toNat_max]
      omega
    · next hgap =>
      have hjoined := ih (hrest t List.mem_cons_self) hrest' ht htail
      refine ⟨fun u hu => ?_, List.pairwise_cons.mpr ⟨fun u hu => ?_, hjoined.apart⟩⟩
      · rcases List.mem_cons.mp hu with rfl | hu
        · exact hcurrent
        · exact hjoined.nonempty u hu
      · exact UInt32.lt_of_lt_of_le (UInt32.not_le.mp hgap) (start_le_of_mem_join ht htail hu)

theorem separated_joinAll {spans : List Span} (hnonempty : ∀ t ∈ spans, t.start < t.stop)
    (hsorted : spans.Pairwise fun t u => t.start ≤ u.start) : Separated (joinAll spans) := by
  cases spans with
  | nil => exact ⟨by simp [joinAll], List.Pairwise.nil⟩
  | cons s rest =>
    obtain ⟨hs, hrest⟩ := List.pairwise_cons.mp hsorted
    exact separated_join (hnonempty s List.mem_cons_self)
      (fun t ht => hnonempty t (List.mem_cons_of_mem _ ht)) hs hrest

/-- The non-empty spans of a list by ascending starts. -/
def sorted (spans : List Span) : List Span :=
  stableSort (fun s => s.start.toNat) (spans.filter fun s => !s.isEmpty)

/-- The addresses of all given spans together. -/
def ofSpans (spans : List Span) : Coverage where
  spans := joinAll (sorted spans)
  separated := by
    apply separated_joinAll
    · intro t ht
      have ht := (List.mem_filter.mp (mem_stableSort.mp ht)).2
      simpa [Span.isEmpty, UInt32.not_le] using ht
    · exact (pairwise_stableSort (fun s : Span => s.start.toNat) _).imp fun h =>
        UInt32.le_iff_toNat_le.mpr h

/-! ## Numbering the covered addresses -/

def size (c : Coverage) : Nat := c.spans.foldr (fun s n => s.size + n) 0

def addresses (c : Coverage) : List Address := c.spans.flatMap Span.addresses

def within (c : Coverage) (s : Span) : List Address :=
  c.spans.flatMap fun covered => (covered.inter s).addresses

/-- The number of an address among those of the spans, counted from `before`. -/
def indexIn (a : Address) : List Span → Nat → Option Nat
  | [], _ => none
  | s :: rest, before =>
    if a ∈ s then some (before + (a - s.start).toNat) else indexIn a rest (before + s.size)

def index? (c : Coverage) (a : Address) : Option Nat := indexIn a c.spans 0

def contains (c : Coverage) (a : Address) : Bool := (c.index? a).isSome

end Coverage

end CodeSift
