import CodeSift.CrossReference.Index
import Mathlib.Tactic.Lemma

/-!
# Relations and their two halves

An index is read here through one set, the halves that it lists by site.  Inserting a relation adds
it and its partner and nothing else; erasing the relations made in a span removes those, their
partners and nothing else (`mem_eraseSites`).  Since taking the partner twice gives back the
relation, an index that is changed in these ways only holds the partner of everything it holds
(`Paired`).  It also lists the same halves by target as by site (`Mirrored`), so that asking what
refers to an address is asking for a relation to it (`Mirrored.isReferenced_iff`).
-/

namespace CodeSift

namespace CrossReference

@[simp] lemma partner_partner (r : CrossReference) : r.partner.partner = r := by
  simp [partner, ReferenceClass.reversed]

lemma partner_eq_iff {q r : CrossReference} : q = r.partner ↔ r = q.partner := by
  constructor
  · rintro rfl
    exact (partner_partner r).symm
  · rintro rfl
    exact (partner_partner q).symm

end CrossReference

namespace ReferenceIndex

/-- The index holds the half. -/
instance : Membership CrossReference ReferenceIndex := ⟨fun x r => r ∈ x.bySite⟩

lemma not_mem_empty (r : CrossReference) : r ∉ ReferenceIndex.empty := List.not_mem_nil

lemma mem_insert {x : ReferenceIndex} {q r : CrossReference} :
    q ∈ x.insert r ↔ q = r.partner ∨ q = r ∨ q ∈ x := by
  show q ∈ (x.bySite.insert r).insert r.partner ↔ _
  rw [OrderedSet.mem_insert, OrderedSet.mem_insert]
  exact Iff.rfl

lemma mem_byTarget_insert {x : ReferenceIndex} {q r : CrossReference} :
    q ∈ (x.insert r).byTarget ↔ q = r.partner ∨ q = r ∨ q ∈ x.byTarget := by
  show q ∈ (x.byTarget.insert r).insert r.partner ↔ _
  rw [OrderedSet.mem_insert, OrderedSet.mem_insert]

/-- **Inserting relations one after the other** adds them and their partners, in either order. -/
lemma mem_foldl_insert (x : ReferenceIndex) (new : List CrossReference) (q : CrossReference) :
    (q ∈ new.foldl insert x ↔ q ∈ x ∨ ∃ r ∈ new, q = r ∨ q = r.partner) ∧
      (q ∈ (new.foldl insert x).byTarget ↔ q ∈ x.byTarget ∨ ∃ r ∈ new, q = r ∨ q = r.partner) := by
  induction new generalizing x with
  | nil => simp
  | cons r rest ih =>
    obtain ⟨hsite, htarget⟩ := ih (x.insert r)
    have hcons : (∃ s ∈ r :: rest, q = s ∨ q = s.partner) ↔
        q = r.partner ∨ q = r ∨ ∃ s ∈ rest, q = s ∨ q = s.partner := by
      simp only [List.mem_cons, or_and_right, exists_or, exists_eq_left, or_assoc, or_left_comm]
    rw [List.foldl_cons, hsite, htarget, mem_insert, mem_byTarget_insert, hcons]
    simp only [or_assoc, or_left_comm, and_self, or_comm]

lemma mem_insert_self (x : ReferenceIndex) (r : CrossReference) : r ∈ x.insert r :=
  mem_insert.mpr (Or.inr (Or.inl rfl))

lemma mem_insert_of_mem {x : ReferenceIndex} {q : CrossReference} (r : CrossReference) (h : q ∈ x) :
    q ∈ x.insert r :=
  mem_insert.mpr (Or.inr (Or.inr h))

lemma mem_erase {x : ReferenceIndex} {q r : CrossReference} :
    q ∈ x.erase r ↔ q ≠ r ∧ q ≠ r.partner ∧ q ∈ x := by
  show q ∈ (x.bySite.erase r).erase r.partner ↔ _
  rw [OrderedSet.mem_erase, OrderedSet.mem_erase]
  exact and_left_comm

lemma mem_foldl_erase {x : ReferenceIndex} {q : CrossReference} (doomed : List CrossReference) :
    q ∈ doomed.foldl erase x ↔ q ∈ x ∧ ∀ r ∈ doomed, q ≠ r ∧ q ≠ r.partner := by
  induction doomed generalizing x with
  | nil => simp
  | cons r rest ih =>
    rw [List.foldl_cons, ih, mem_erase, List.forall_mem_cons]
    constructor
    · rintro ⟨⟨hr, hpartner, hx⟩, hrest⟩
      exact ⟨hx, ⟨hr, hpartner⟩, hrest⟩
    · rintro ⟨hx, ⟨hr, hpartner⟩, hrest⟩
      exact ⟨⟨hr, hpartner, hx⟩, hrest⟩

lemma mem_madeIn {x : ReferenceIndex} {s : Span} {r : CrossReference} :
    r ∈ x.madeIn s ↔ r ∈ x ∧ r.site ∈ s ∧ r.isForward = true := by
  simp only [madeIn, atSites, List.mem_filter, decide_eq_true_eq, and_assoc]
  exact Iff.rfl

/-- **What erasing leaves.**  A half stays unless it, or the half it is the partner of, is a forward
relation made in the span. -/
lemma mem_eraseSites {x : ReferenceIndex} {s : Span} {q : CrossReference} :
    q ∈ x.eraseSites s ↔
      q ∈ x ∧ ∀ r ∈ x, r.site ∈ s → r.isForward = true → q ≠ r ∧ q ≠ r.partner := by
  rw [eraseSites, mem_foldl_erase]
  simp only [mem_madeIn, and_imp]

lemma not_mem_span_of_mem_eraseSites {x : ReferenceIndex} {s : Span} {q : CrossReference}
    (h : q ∈ x.eraseSites s) (hforward : q.isForward = true) : q.site ∉ s := by
  obtain ⟨hx, hkept⟩ := mem_eraseSites.mp h
  intro hsite
  exact (hkept q hx hsite hforward).1 rfl

/-- A relation made outside a span stays when the relations made in the span are erased. -/
lemma mem_eraseSites_of_not_mem {x : ReferenceIndex} {s : Span} {q : CrossReference} (hq : q ∈ x)
    (hsite : q.site ∉ s) (hpartner : q.partner.isForward = false) : q ∈ x.eraseSites s := by
  refine mem_eraseSites.mpr ⟨hq, fun r _ hr hforward => ⟨?_, fun heq => ?_⟩⟩
  · rintro rfl
    exact hsite hr
  · rw [CrossReference.partner_eq_iff] at heq
    rw [heq, hpartner] at hforward
    cases hforward

/-- What erasing a relation keeps, erasing those of a span keeps. -/
lemma eraseSites_of_erase {P : ReferenceIndex → Prop} {x : ReferenceIndex} (s : Span) (h : P x)
    (hstep : ∀ {y : ReferenceIndex}, P y → ∀ r, P (y.erase r)) : P (x.eraseSites s) :=
  List.foldlRecOn (x.madeIn s) erase h fun _ hy r _ => hstep hy r

/-! ## Partners -/

/-- The index holds relations by both halves. -/
def Paired (x : ReferenceIndex) : Prop := ∀ r ∈ x, r.partner ∈ x

lemma paired_empty : Paired .empty := fun r hr => absurd hr (not_mem_empty r)

lemma Paired.insert {x : ReferenceIndex} (h : x.Paired) (r : CrossReference) :
    (x.insert r).Paired := by
  intro q hq
  rw [mem_insert] at hq ⊢
  rcases hq with rfl | rfl | hq
  · exact Or.inr (Or.inl (CrossReference.partner_partner r))
  · exact Or.inl rfl
  · exact Or.inr (Or.inr (h q hq))

lemma Paired.erase {x : ReferenceIndex} (h : x.Paired) (r : CrossReference) :
    (x.erase r).Paired := by
  intro q hq
  rw [mem_erase] at hq ⊢
  obtain ⟨hne, hnePartner, hq⟩ := hq
  refine ⟨fun heq => hnePartner (CrossReference.partner_eq_iff.mpr heq.symm),
    fun heq => hne ?_, h q hq⟩
  rw [← CrossReference.partner_partner q, heq, CrossReference.partner_partner]

lemma Paired.eraseSites {x : ReferenceIndex} (h : x.Paired) (s : Span) : (x.eraseSites s).Paired :=
  eraseSites_of_erase s h fun hpaired r => hpaired.erase r

/-- **What erasing takes from an index of pairs.**  A half goes when it, or its partner, is a
relation made in the span. -/
lemma Paired.mem_eraseSites {x : ReferenceIndex} (h : x.Paired) {s : Span} {q : CrossReference} :
    q ∈ x.eraseSites s ↔ q ∈ x ∧ ¬(q.isForward = true ∧ q.site ∈ s) ∧
      ¬(q.partner.isForward = true ∧ q.partner.site ∈ s) := by
  rw [ReferenceIndex.mem_eraseSites]
  refine and_congr_right fun hq => ⟨fun hkept => ⟨?_, ?_⟩, ?_⟩
  · rintro ⟨hforward, hsite⟩
    exact (hkept q hq hsite hforward).1 rfl
  · rintro ⟨hforward, hsite⟩
    exact (hkept _ (h q hq) hsite hforward).2 (CrossReference.partner_partner q).symm
  · rintro ⟨hself, hpartner⟩ r - hsite hforward
    refine ⟨?_, fun heq => ?_⟩
    · rintro rfl
      exact hself ⟨hforward, hsite⟩
    · rw [CrossReference.partner_eq_iff] at heq
      subst heq
      exact hpartner ⟨hforward, hsite⟩

/-! ## The two orders -/

/-- The index lists the same halves by target as by site. -/
def Mirrored (x : ReferenceIndex) : Prop := ∀ r, r ∈ x.byTarget ↔ r ∈ x

lemma mirrored_empty : Mirrored .empty := fun _ => Iff.rfl

lemma Mirrored.insert {x : ReferenceIndex} (h : x.Mirrored) (r : CrossReference) :
    (x.insert r).Mirrored := by
  intro q
  rw [mem_byTarget_insert, mem_insert, h q]

lemma Mirrored.erase {x : ReferenceIndex} (h : x.Mirrored) (r : CrossReference) :
    (x.erase r).Mirrored := by
  intro q
  rw [mem_erase, ← h q]
  show q ∈ (x.byTarget.erase r).erase r.partner ↔ _
  rw [OrderedSet.mem_erase, OrderedSet.mem_erase]
  exact and_left_comm

lemma Mirrored.eraseSites {x : ReferenceIndex} (h : x.Mirrored) (s : Span) :
    (x.eraseSites s).Mirrored :=
  eraseSites_of_erase s h fun hmirrored r => hmirrored.erase r

/-- **Something refers to an address** when a relation leads to it. -/
lemma Mirrored.isReferenced_iff {x : ReferenceIndex} (h : x.Mirrored) {target : Address} :
    x.isReferenced target = true ↔ ∃ r ∈ x, r.isForward = true ∧ r.target = target := by
  simp only [isReferenced, toTarget, List.any_eq_true, List.mem_filter, beq_iff_eq,
    OrderedSet.mem_toList]
  constructor
  · rintro ⟨r, ⟨hr, htarget⟩, hforward⟩
    exact ⟨r, (h r).mp hr, hforward, htarget⟩
  · rintro ⟨r, hr, hforward, htarget⟩
    exact ⟨r, ⟨(h r).mpr hr, htarget⟩, hforward⟩

end ReferenceIndex

end CodeSift
