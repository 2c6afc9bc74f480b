import CodeSift.Proofs.CrossReferences
import CodeSift.Proofs.Sessions
import Mathlib.Data.Finset.Card
import Mathlib.Data.Finset.Image
import Mathlib.Tactic.Tauto

/-!
# The index is a set of halves

Behind an index stands one finite set of halves that is closed under `partner`.  `Acts` says what
each change does to that set and what it answers, and nothing of how the set is kept.  An index
`Represents` a set when it holds the members of the set in both of its lists and holds no half
without its partner, and every change of the index is a change of the set (`simulates`).  A session
that starts with the empty index therefore answers as the set does.

What the index is asked is then read off the set.  `Lists` relates a set to the list of its members
in a given order; a test on the list is a test on the set.  The orders are spelled out as relations,
`SiteBefore` and `TargetBefore`.

An ordered set can be asked for a stretch between two bounds without going through all of its
members.  The halves at a site, at the sites of a span and to a target are such stretches
(`stretches`), their bounds completed with the least and the greatest address and tag.
-/

namespace CodeSift

open Std

/-! ## Stretches of an ordered set -/

namespace OrderedSet

variable {α : Type} {cmp : α → α → Ordering}

/-- The members from `low` on that reach up to `high`; `reaches` says whether `high` itself
counts. -/
def stretch (s : OrderedSet α cmp) (low : α) (reaches : Ordering → Bool) (high : α) : List α :=
  (s.toList.dropWhile fun y => (cmp y low).isLT).takeWhile fun y => reaches (cmp y high)

/-- In a list where the test only ever turns from true to false, its truth ends for good where it
ends first. -/
lemma takeWhile_eq_filter {test : α → Bool} {l : List α}
    (h : l.Pairwise fun x y => test y = true → test x = true) :
    l.takeWhile test = l.filter test := by
  induction l with
  | nil => rfl
  | cons x rest ih =>
    obtain ⟨hx, hrest⟩ := List.pairwise_cons.mp h
    by_cases htest : test x = true
    · rw [List.takeWhile_cons_of_pos htest, List.filter_cons_of_pos htest, ih hrest]
    · rw [List.takeWhile_cons_of_neg htest, List.filter_cons_of_neg htest, eq_comm,
        List.filter_eq_nil_iff]
      exact fun y hy hpass => htest (hx y hy hpass)

lemma dropWhile_eq_filter {test : α → Bool} {l : List α}
    (h : l.Pairwise fun x y => test y = true → test x = true) :
    l.dropWhile test = l.filter fun y => !test y := by
  induction l with
  | nil => rfl
  | cons x rest ih =>
    obtain ⟨hx, hrest⟩ := List.pairwise_cons.mp h
    by_cases htest : test x = true
    · rw [List.dropWhile_cons_of_pos htest, List.filter_cons_of_neg (by simp [htest]), ih hrest]
    · rw [List.dropWhile_cons_of_neg htest, eq_comm, List.filter_eq_self]
      intro y hy
      rcases List.mem_cons.mp hy with rfl | hy
      · simp [htest]
      · simpa using fun hpass => htest (hx y hy hpass)

/-- **A stretch is what lies between its bounds**, provided that what comes before something in
reach is in reach. -/
lemma stretch_eq_filter [TransCmp cmp] (s : OrderedSet α cmp) {low high : α}
    {reaches : Ordering → Bool}
    (hreaches : ∀ y z, cmp y z = .lt → reaches (cmp z high) = true → reaches (cmp y high) = true) :
    s.stretch low reaches high =
      s.toList.filter fun y => decide (¬ cmp y low = .lt ∧ reaches (cmp y high) = true) := by
  have hlow : s.toList.Pairwise fun y z => (cmp z low).isLT = true → (cmp y low).isLT = true := by
    refine s.ascending.imp fun hlt hz => ?_
    rw [Ordering.isLT_iff_eq_lt] at hz ⊢
    exact TransCmp.lt_trans hlt hz
  have hhigh : s.toList.Pairwise fun y z => reaches (cmp z high) = true →
      reaches (cmp y high) = true :=
    s.ascending.imp fun hlt hz => hreaches _ _ hlt hz
  rw [stretch, dropWhile_eq_filter hlow, takeWhile_eq_filter (hhigh.filter _), List.filter_filter]
  refine List.filter_congr fun y _ => ?_
  rw [Bool.eq_iff_iff]
  simp [← Ordering.isLT_iff_eq_lt, and_comm]

lemma stretch_isLE [TransCmp cmp] (s : OrderedSet α cmp) (low high : α) :
    s.stretch low Ordering.isLE high =
      s.toList.filter fun y => decide (¬ cmp y low = .lt ∧ ¬ cmp high y = .lt) := by
  rw [stretch_eq_filter s fun y z hlt hz =>
    Ordering.isLE_of_eq_lt (TransCmp.lt_of_lt_of_isLE hlt hz)]
  simp only [Ordering.isLE_iff_ne_gt, OrientedCmp.gt_iff_lt]

lemma stretch_isLT [TransCmp cmp] (s : OrderedSet α cmp) (low high : α) :
    s.stretch low Ordering.isLT high =
      s.toList.filter fun y => decide (¬ cmp y low = .lt ∧ cmp y high = .lt) := by
  rw [stretch_eq_filter s fun y z hlt hz => ?_]
  · simp only [Ordering.isLT_iff_eq_lt]
  · rw [Ordering.isLT_iff_eq_lt] at hz ⊢
    exact TransCmp.lt_trans hlt hz

end OrderedSet

/-! ## The two orders as relations -/

namespace CrossReference

/-- The one address decides, then the other, then the tag. -/
def Before (first second : CrossReference → Address) (q r : CrossReference) : Prop :=
  first q < first r ∨
    first q = first r ∧ (second q < second r ∨ second q = second r ∧ q.cls.tag < r.cls.tag)

/-- The order by site, then target, then tag. -/
abbrev SiteBefore : CrossReference → CrossReference → Prop := Before site target

/-- The order by target, then site, then tag. -/
abbrev TargetBefore : CrossReference → CrossReference → Prop := Before target site

lemma compare_eq_lt_iff {first second : CrossReference → Address} {q r : CrossReference} :
    compareLex (compareOn first) (compareLex (compareOn second) (compareOn fun r => r.cls.tag))
      q r = .lt ↔ Before first second q r := by
  simp only [compareLex, compareOn, Ordering.then_eq_lt, LawfulEqCmp.compare_eq_iff_eq,
    compare_eq_lt, Before]

lemma compareSites_eq_lt {q r : CrossReference} : compareSites q r = .lt ↔ SiteBefore q r :=
  compare_eq_lt_iff

lemma compareTargets_eq_lt {q r : CrossReference} : compareTargets q r = .lt ↔ TargetBefore q r :=
  compare_eq_lt_iff

/-- With the least address and tag in the other places, only the first address decides. -/
lemma before_least_iff {first second : CrossReference → Address} {q r : CrossReference}
    (hsecond : second r = 0) (htag : r.cls.tag = Int8.minValue) :
    Before first second q r ↔ first q < first r := by
  simp [Before, hsecond, htag, Int8.not_lt_minValue]

/-- So it does with the greatest address and tag on the other side. -/
lemma greatest_before_iff {first second : CrossReference → Address} {q r : CrossReference}
    (hsecond : second q = Address.last) (htag : q.cls.tag = Int8.maxValue) :
    Before first second q r ↔ first q < first r := by
  have hlast : ¬ Address.last < second r := by
    have hbound := (second r).toNat_lt
    rw [UInt32.lt_iff_toNat_lt, show Address.last.toNat = 4294967295 from rfl]
    omega
  simp [Before, hsecond, htag, hlast, Int8.not_maxValue_lt]

lemma between_iff {first second : CrossReference → Address} {q low high : CrossReference}
    (hfirst : first high = first low) (hleast : second low = 0 ∧ low.cls.tag = Int8.minValue)
    (hgreatest : second high = Address.last ∧ high.cls.tag = Int8.maxValue) :
    ¬ Before first second q low ∧ ¬ Before first second high q ↔ first q = first low := by
  rw [before_least_iff hleast.1 hleast.2, greatest_before_iff hgreatest.1 hgreatest.2,
    hfirst, UInt32.not_lt, UInt32.not_lt, and_comm, UInt32.le_antisymm_iff]

end CrossReference

/-! ## Lists of a set -/

/-- The list holds the members of the set, each before those that come after it. -/
structure Lists {α : Type} (before : α → α → Prop) (l : List α) (S : Finset α) : Prop where
  ordered : l.Pairwise before
  mem_iff : ∀ r, r ∈ l ↔ r ∈ S

namespace Lists

variable {α : Type} {before : α → α → Prop} {l : List α} {S : Finset α}

lemma filter (h : Lists before l S) (test : α → Prop) [DecidablePred test] :
    Lists before (l.filter fun r => decide (test r)) (S.filter test) where
  ordered := h.ordered.filter _
  mem_iff r := by simp [h.mem_iff]

lemma length_eq_card [DecidableEq α] (h : Lists before l S) (hirrefl : ∀ r, ¬ before r r) :
    l.length = S.card := by
  have hnodup : l.Nodup := by
    refine h.ordered.imp ?_
    rintro r _ hbefore rfl
    exact hirrefl r hbefore
  rw [← List.toFinset_card_of_nodup hnodup]
  congr 1
  ext r
  rw [List.mem_toFinset, h.mem_iff]

lemma eq_nil_iff (h : Lists before l S) : l = [] ↔ S = ∅ := by
  rw [List.eq_nil_iff_forall_not_mem, Finset.eq_empty_iff_forall_notMem]
  simp only [h.mem_iff]

end Lists

namespace ReferenceIndex

open CrossReference

/-! ## Changes of an index and of a set -/

/-- A change of the relations held. -/
inductive Change where
  | insert (r : CrossReference)
  | erase (r : CrossReference)
  | eraseSites (s : Span)

/-- What a change answers: whether the relation was new, whether it was found, what was dropped. -/
inductive Answer where
  | inserted (fresh : Bool)
  | erased (found : Bool)
  | dropped (relations : List CrossReference)

/-- Makes a change. -/
def perform (x : ReferenceIndex) : Change → Answer × ReferenceIndex
  | .insert r => (.inserted !x.contains r, x.insert r)
  | .erase r => (.erased (x.holdsEither r), x.erase r)
  | .eraseSites s => (.dropped (x.madeIn s), x.eraseSites s)

/-- The members of a set that are relations made in a span. -/
def forwardIn (S : Finset CrossReference) (s : Span) : Finset CrossReference :=
  S.filter fun r => r.isForward = true ∧ r.site ∈ s

/-- **What a change does to a set of halves** and what it answers. -/
inductive Acts : Finset CrossReference → Change → Answer → Finset CrossReference → Prop
  | insert {S : Finset CrossReference} {r : CrossReference} {fresh : Bool}
      (answer : fresh = true ↔ r ∉ S) :
      Acts S (.insert r) (.inserted fresh) (S ∪ {r, r.partner})
  | erase {S : Finset CrossReference} {r : CrossReference} {found : Bool}
      (answer : found = true ↔ r ∈ S) :
      Acts S (.erase r) (.erased found) (S \ {r, r.partner})
  | eraseSites {S : Finset CrossReference} {s : Span} {relations : List CrossReference}
      (answer : Lists SiteBefore relations (forwardIn S s)) :
      Acts S (.eraseSites s) (.dropped relations)
        (S \ (forwardIn S s ∪ (forwardIn S s).image partner))

/-- The index holds the halves of the set, in both lists, and each with its partner. -/
structure Represents (x : ReferenceIndex) (S : Finset CrossReference) : Prop where
  mem_iff : ∀ r, r ∈ x ↔ r ∈ S
  mirrored : x.Mirrored
  paired : x.Paired

lemma represents_empty : Represents .empty ∅ where
  mem_iff r := by simp [not_mem_empty]
  mirrored := mirrored_empty
  paired := paired_empty

namespace Represents

variable {x : ReferenceIndex} {S : Finset CrossReference}

lemma contains_iff (h : Represents x S) (r : CrossReference) : x.contains r = true ↔ r ∈ S := by
  rw [contains, decide_eq_true_eq]
  exact h.mem_iff r

lemma partner_mem_iff (h : Represents x S) (r : CrossReference) : r.partner ∈ S ↔ r ∈ S := by
  rw [← h.mem_iff, ← h.mem_iff]
  exact ⟨fun hpartner => partner_partner r ▸ h.paired _ hpartner, h.paired r⟩

/-- One half is found when both are. -/
lemma holdsEither_iff (h : Represents x S) (r : CrossReference) :
    x.holdsEither r = true ↔ r ∈ S := by
  rw [holdsEither, Bool.or_eq_true, h.contains_iff, h.contains_iff, h.partner_mem_iff, or_self]

lemma lists_toList (h : Represents x S) : Lists SiteBefore x.toList S where
  ordered := x.bySite.ascending.imp compareSites_eq_lt.mp
  mem_iff := h.mem_iff

lemma lists_byTarget (h : Represents x S) : Lists TargetBefore x.byTarget.toList S where
  ordered := x.byTarget.ascending.imp compareTargets_eq_lt.mp
  mem_iff r := (h.mirrored r).trans (h.mem_iff r)

lemma lists_madeIn (h : Represents x S) (s : Span) :
    Lists SiteBefore (x.madeIn s) (forwardIn S s) where
  ordered := (h.lists_toList.ordered.filter _).filter _
  mem_iff r := by
    rw [mem_madeIn, h.mem_iff, forwardIn, Finset.mem_filter, and_comm (a := r.site ∈ s)]

lemma insert (h : Represents x S) (r : CrossReference) :
    Represents (x.insert r) (S ∪ {r, r.partner}) where
  mem_iff q := by
    rw [mem_insert, h.mem_iff]
    simp only [Finset.mem_union, Finset.mem_insert, Finset.mem_singleton]
    tauto
  mirrored := h.mirrored.insert r
  paired := h.paired.insert r

lemma erase (h : Represents x S) (r : CrossReference) :
    Represents (x.erase r) (S \ {r, r.partner}) where
  mem_iff q := by
    rw [mem_erase, h.mem_iff]
    simp only [Finset.mem_sdiff, Finset.mem_insert, Finset.mem_singleton]
    tauto
  mirrored := h.mirrored.erase r
  paired := h.paired.erase r

lemma eraseSites (h : Represents x S) (s : Span) :
    Represents (x.eraseSites s) (S \ (forwardIn S s ∪ (forwardIn S s).image partner)) where
  mem_iff q := by
    rw [ReferenceIndex.eraseSites, mem_foldl_erase, h.mem_iff]
    simp only [(h.lists_madeIn s).mem_iff, Finset.mem_sdiff, Finset.mem_union, Finset.mem_image]
    refine and_congr_right fun _ => ⟨fun hkept => ?_, fun hkept r hr => ⟨?_, ?_⟩⟩
    · rintro (hq | ⟨r, hr, rfl⟩)
      · exact (hkept q hq).1 rfl
      · exact (hkept r hr).2 rfl
    · rintro rfl
      exact hkept (Or.inl hr)
    · rintro rfl
      exact hkept (Or.inr ⟨r, hr, rfl⟩)
  mirrored := h.mirrored.eraseSites s
  paired := h.paired.eraseSites s

end Represents

/-- **A change of the index is a change of the set.** -/
lemma simulates : Simulates perform Acts Represents := by
  intro x S change h
  cases change with
  | insert r => exact ⟨_, .insert (by simp [← h.contains_iff r]), h.insert r⟩
  | erase r => exact ⟨_, .erase (h.holdsEither_iff r), h.erase r⟩
  | eraseSites s => exact ⟨_, .eraseSites (h.lists_madeIn s), h.eraseSites s⟩

/-! ## Questions to an index and to a set -/

/-- What the index holds and is asked, read off the set. -/
structure Answers (x : ReferenceIndex) (S : Finset CrossReference) : Prop where
  bySite : Lists SiteBefore x.bySite.toList S
  byTarget : Lists TargetBefore x.byTarget.toList S
  partner : ∀ r, r.partner ∈ S ↔ r ∈ S
  contains : ∀ r, x.contains r = true ↔ r ∈ S
  size : x.size = S.card
  isEmpty : x.isEmpty = true ↔ S = ∅
  toList : Lists SiteBefore x.toList S
  atSite : ∀ a, Lists SiteBefore (x.atSite a) (S.filter fun r => r.site = a)
  atSites : ∀ s : Span, Lists SiteBefore (x.atSites s) (S.filter fun r => r.site ∈ s)
  toTarget : ∀ a, Lists TargetBefore (x.toTarget a) (S.filter fun r => r.target = a)
  ofClass : ∀ cls, Lists SiteBefore (x.ofClass cls) (S.filter fun r => r.cls = cls)

lemma Represents.answers {x : ReferenceIndex} {S : Finset CrossReference} (h : Represents x S) :
    Answers x S where
  bySite := h.lists_toList
  byTarget := h.lists_byTarget
  partner := h.partner_mem_iff
  contains := h.contains_iff
  size := h.lists_toList.length_eq_card fun r => by simp [Before, UInt32.lt_irrefl, Int8.lt_irrefl]
  isEmpty := List.isEmpty_iff.trans h.lists_toList.eq_nil_iff
  toList := h.lists_toList
  atSite a := h.lists_toList.filter fun r => r.site = a
  atSites s := h.lists_toList.filter fun r => r.site ∈ s
  toTarget a := h.lists_byTarget.filter fun r => r.target = a
  ofClass cls := h.lists_toList.filter fun r => r.cls = cls

/-! ## The questions as stretches -/

/-- The questions about an address or a span are answered between two bounds. -/
structure Stretches (x : ReferenceIndex) : Prop where
  atSite : ∀ a, x.atSite a =
    x.bySite.stretch ⟨⟨Int8.minValue⟩, a, 0⟩ Ordering.isLE ⟨⟨Int8.maxValue⟩, a, Address.last⟩
  atSites : ∀ s : Span, x.atSites s =
    x.bySite.stretch ⟨⟨Int8.minValue⟩, s.start, 0⟩ Ordering.isLT ⟨⟨Int8.minValue⟩, s.stop, 0⟩
  toTarget : ∀ a, x.toTarget a =
    x.byTarget.stretch ⟨⟨Int8.minValue⟩, 0, a⟩ Ordering.isLE ⟨⟨Int8.maxValue⟩, Address.last, a⟩

/-- **Every question is a stretch.**  The halves at a site run from the least half there to the
greatest, those to a target likewise in the other order, and those of a span stop before the least
half at its end. -/
lemma stretches (x : ReferenceIndex) : Stretches x where
  atSite a := by
    rw [OrderedSet.stretch_isLE]
    refine List.filter_congr fun r _ => ?_
    rw [Bool.eq_iff_iff, beq_iff_eq, decide_eq_true_eq, compareSites_eq_lt, compareSites_eq_lt]
    exact Iff.symm (between_iff rfl ⟨rfl, rfl⟩ ⟨rfl, rfl⟩)
  atSites s := by
    rw [OrderedSet.stretch_isLT]
    refine List.filter_congr fun r _ => ?_
    rw [decide_eq_decide, compareSites_eq_lt, compareSites_eq_lt]
    exact Iff.symm (and_congr ((before_least_iff rfl rfl).not.trans UInt32.not_lt)
      (before_least_iff rfl rfl))
  toTarget a := by
    rw [OrderedSet.stretch_isLE]
    refine List.filter_congr fun r _ => ?_
    rw [Bool.eq_iff_iff, beq_iff_eq, decide_eq_true_eq, compareTargets_eq_lt, compareTargets_eq_lt]
    exact Iff.symm (between_iff rfl ⟨rfl, rfl⟩ ⟨rfl, rfl⟩)

/-- **An index is a set of halves closed under taking the partner.**  Whatever relations are
inserted and erased, one by one or by the span they are made in, and whatever their classes: there
is a set that goes through the same changes from `∅` with the same answers, and the index answers
every question as that set does.  The questions about one address or one span are answered by a
stretch of the index. -/
theorem index_is_partnered_set (changes : List Change) :
    ∃ S, Conforms Acts ∅ changes (session perform .empty changes).1 S ∧
      Answers (session perform .empty changes).2 S ∧
        Stretches (session perform .empty changes).2 := by
  obtain ⟨S, hconforms, hrepresents⟩ := simulates.conforms changes represents_empty
  exact ⟨S, hconforms, hrepresents.answers, stretches _⟩

end ReferenceIndex

end CodeSift
