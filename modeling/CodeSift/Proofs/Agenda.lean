import CodeSift.Agenda
import Mathlib.Data.List.Nodup

/-!
# Which addresses wait

Pushing a lead makes its address wait and changes nothing else; taking an address off or popping its
lead makes it wait no longer and changes nothing else.

An agenda is known by the confidence at which each address waits (`ext_confidence?`).  Pushing a
lead changes that of its address only, so leads of one confidence may be pushed in any order
(`push_comm`).

The order of the agenda matters in one way.  The lead that is popped is one of the surest, so when
it is a guess, all leads are guesses (`speculative_of_pop?`).
-/

namespace CodeSift

open Std

/-- A set is known by its members. -/
lemma OrderedSet.ext_mem {α : Type} {cmp : α → α → Ordering} [OrientedCmp cmp]
    {s t : OrderedSet α cmp} (h : ∀ x, x ∈ s ↔ x ∈ t) : s = t := by
  have hnodup : ∀ s : OrderedSet α cmp, s.toList.Nodup := by
    intro s
    refine s.ascending.imp ?_
    rintro x y hxy rfl
    have hself : cmp x x = .eq := ReflCmp.compare_self
    rw [hself] at hxy
    cases hxy
  have hlists : s.toList = t.toList := by
    refine List.Perm.eq_of_pairwise (fun x y _ _ hxy hyx => ?_) s.ascending t.ascending
      ((List.perm_ext_iff_of_nodup (hnodup s) (hnodup t)).mpr h)
    rw [OrientedCmp.gt_of_lt hxy] at hyx
    cases hyx
  cases s
  cases t
  cases hlists
  rfl

namespace Lead

lemma delay_lt_iff {l m : Lead} : l.delay < m.delay ↔ m.confidence < l.confidence := by
  have hbound : ∀ c : Confidence, c.rank ≤ Confidence.entry.rank := by
    intro c
    cases c <;> decide
  have hl := hbound l.confidence
  have hm := hbound m.confidence
  show Confidence.entry.rank - _ < Confidence.entry.rank - _ ↔ m.confidence.rank < l.confidence.rank
  omega

end Lead

namespace Agenda

lemma contains_iff {w : Agenda} {a : Address} :
    w.contains a = true ↔ ∃ l ∈ w.leads, l.address = a := by
  simp only [contains, confidence?, Option.isSome_map, List.find?_isSome, beq_iff_eq]
  exact Iff.rfl

lemma contains_mono {w w' : Agenda} {a : Address} (h : ∀ l ∈ w.leads, l ∈ w'.leads)
    (ha : w.contains a = true) : w'.contains a = true := by
  obtain ⟨l, hl, hla⟩ := contains_iff.mp ha
  exact contains_iff.mpr ⟨l, h l hl, hla⟩

lemma eq_empty_of_isEmpty {w : Agenda} (h : w.isEmpty = true) : w = empty := by
  obtain ⟨⟨leads, hascending⟩, hdistinct⟩ := w
  have hnil : leads = [] := List.isEmpty_iff.mp h
  subst hnil
  rfl

lemma eq_empty_of_forall {w : Agenda} (h : ∀ a, w.contains a = false) : w = empty := by
  refine eq_empty_of_isEmpty
    (List.isEmpty_iff.mpr (List.eq_nil_iff_forall_not_mem.mpr fun l hl => ?_))
  have hl := contains_iff.mpr ⟨l, hl, rfl⟩
  rw [h] at hl
  cases hl

lemma contains_remove {w : Agenda} {a b : Address} :
    (w.remove a).contains b = true ↔ b ≠ a ∧ w.contains b = true := by
  rw [contains_iff, contains_iff]
  simp only [remove, OrderedSet.mem_filter, bne_iff_ne]
  constructor
  · rintro ⟨l, ⟨hl, hne⟩, rfl⟩
    exact ⟨hne, l, hl, rfl⟩
  · rintro ⟨hne, l, hl, rfl⟩
    exact ⟨l, ⟨hl, hne⟩, rfl⟩

lemma contains_put {w : Agenda} {l : Lead} {a : Address} :
    (w.put l).contains a = true ↔ a = l.address ∨ w.contains a = true := by
  have hremoved := @contains_remove w l.address a
  rw [contains_iff] at hremoved ⊢
  show (∃ m ∈ (w.remove l.address).leads.insert l, m.address = a) ↔ _
  simp only [OrderedSet.mem_insert, or_and_right, exists_or, exists_eq_left]
  rw [hremoved, eq_comm]
  constructor
  · rintro (h | ⟨-, h⟩)
    · exact Or.inl h
    · exact Or.inr h
  · rintro (h | h)
    · exact Or.inl h
    · by_cases heq : a = l.address
      · exact Or.inl heq
      · exact Or.inr ⟨heq, h⟩

/-- An address waits after a push when it is the pushed one or waited before. -/
lemma contains_push {w : Agenda} {l : Lead} {a : Address} :
    (w.push l).contains a = true ↔ a = l.address ∨ w.contains a = true := by
  unfold push
  split
  · exact contains_put
  · next hrefused =>
    have hwaits : w.contains l.address = true := by
      rw [contains, Option.isSome_iff_ne_none]
      intro hnone
      simp [accepts, hnone] at hrefused
    constructor
    · exact Or.inr
    · rintro (rfl | h)
      · exact hwaits
      · exact h

lemma pop?_eq_none {w : Agenda} (h : w.pop? = none) : w.isEmpty = true := by
  unfold pop? at h
  split at h
  · next hnil => exact List.isEmpty_iff.mpr hnil
  · cases h

/-- **Popping takes the address off.** -/
lemma contains_of_pop? {w rest : Agenda} {l : Lead} (h : w.pop? = some (l, rest)) (a : Address) :
    w.contains a = true ↔ a = l.address ∨ rest.contains a = true := by
  unfold pop? at h
  split at h
  · cases h
  · next first others hlist =>
    cases h
    rw [contains_iff, contains_iff]
    show (∃ m ∈ w.leads.toList, m.address = a) ↔ a = l.address ∨ ∃ m ∈ others, m.address = a
    rw [hlist]
    simp only [List.mem_cons, exists_eq_or_imp]
    rw [@eq_comm _ a l.address]

lemma not_contains_of_pop? {w rest : Agenda} {l : Lead} (h : w.pop? = some (l, rest)) :
    rest.contains l.address = false := by
  unfold pop? at h
  split at h
  · cases h
  · next first others hlist =>
    cases h
    have hdistinct := (List.pairwise_cons.mp (hlist ▸ w.distinct)).1
    rw [Bool.eq_false_iff, ne_eq, contains_iff]
    rintro ⟨m, hm, heq⟩
    exact hdistinct m hm heq.symm

/-! ## At which confidence an address waits -/

lemma nodup_addresses (w : Agenda) : (w.leads.toList.map Lead.address).Nodup :=
  List.pairwise_map.mpr w.distinct

/-- **An address waits at the confidence of its lead.** -/
lemma confidence?_eq_some {w : Agenda} {l : Lead} :
    w.confidence? l.address = some l.confidence ↔ l ∈ w.leads := by
  rw [confidence?, Option.map_eq_some_iff]
  constructor
  · rintro ⟨⟨a, c⟩, hfind, rfl⟩
    obtain rfl : a = l.address := by simpa using List.find?_some hfind
    exact List.mem_of_find?_eq_some hfind
  · intro hl
    have hsome : (w.leads.toList.find? fun m => m.address == l.address).isSome = true := by
      rw [List.find?_isSome]
      exact ⟨l, hl, beq_self_eq_true _⟩
    obtain ⟨m, hfind⟩ := Option.isSome_iff_exists.mp hsome
    have haddress : m.address = l.address := by simpa using List.find?_some hfind
    obtain rfl :=
      List.inj_on_of_nodup_map w.nodup_addresses (List.mem_of_find?_eq_some hfind) hl haddress
    exact ⟨m, hfind, rfl⟩

lemma ext_confidence? {w w' : Agenda} (h : ∀ a, w.confidence? a = w'.confidence? a) : w = w' := by
  have hleads : w.leads = w'.leads := by
    apply OrderedSet.ext_mem
    intro l
    rw [← confidence?_eq_some, h, confidence?_eq_some]
  cases w
  cases w'
  cases hleads
  rfl

lemma confidence?_put (w : Agenda) (l : Lead) (a : Address) :
    (w.put l).confidence? a = if a = l.address then some l.confidence else w.confidence? a := by
  have hmem : ∀ m, m ∈ (w.put l).leads ↔ m = l ∨ m ∈ w.leads ∧ m.address ≠ l.address := by
    intro m
    simp [put, remove, OrderedSet.mem_insert, OrderedSet.mem_filter]
  obtain ⟨b, d⟩ := l
  apply Option.ext
  intro c
  have hnew := @confidence?_eq_some (w.put ⟨b, d⟩) ⟨a, c⟩
  have hold := @confidence?_eq_some w ⟨a, c⟩
  rw [hnew, hmem]
  split
  · next ha => simp [ha, eq_comm]
  · next ha => simp [ha, hold]

lemma confidence?_push (w : Agenda) (l : Lead) (a : Address) :
    (w.push l).confidence? a =
      if a = l.address ∧ w.accepts l = true then some l.confidence else w.confidence? a := by
  unfold push
  split
  · next haccepts => simp [confidence?_put, haccepts]
  · next hrefused => simp [hrefused]

/-- **Leads of one confidence may be pushed in any order.** -/
lemma push_comm (w : Agenda) (c : Confidence) (a b : Address) :
    (w.push ⟨a, c⟩).push ⟨b, c⟩ = (w.push ⟨b, c⟩).push ⟨a, c⟩ := by
  by_cases hab : a = b
  · rw [hab]
  · have hba : b ≠ a := fun h => hab h.symm
    -- whether the one is accepted does not depend on the other
    have haccepts : ∀ {x y : Address},
        x ≠ y → (w.push ⟨x, c⟩).accepts ⟨y, c⟩ = w.accepts ⟨y, c⟩ := by
      intro x y hxy
      simp only [accepts, confidence?_push, hxy.symm, false_and, if_false]
    apply ext_confidence?
    intro x
    simp only [confidence?_push, haccepts hab, haccepts hba]
    by_cases hxa : x = a
    · subst hxa
      simp [hab]
    · simp [hxa]

/-! ## Which leads wait -/

/-- Popping takes the first lead off and leaves the others. -/
lemma leads_of_pop? {w rest : Agenda} {l : Lead} (h : w.pop? = some (l, rest)) :
    w.leads.toList = l :: rest.leads.toList := by
  unfold pop? at h
  split at h
  · cases h
  · next first others hlist =>
    cases h
    exact hlist

lemma mem_of_mem_rest {w rest : Agenda} {l m : Lead} (h : w.pop? = some (l, rest))
    (hm : m ∈ rest.leads) : m ∈ w.leads := by
  show m ∈ w.leads.toList
  rw [leads_of_pop? h]
  exact List.mem_cons_of_mem l hm

lemma mem_of_mem_push {w : Agenda} {l m : Lead} (h : m ∈ (w.push l).leads) :
    m = l ∨ m ∈ w.leads := by
  unfold push at h
  split at h
  · rcases OrderedSet.mem_insert.mp h with hnew | hold
    · exact Or.inl hnew
    · exact Or.inr (OrderedSet.mem_filter.mp hold).1
  · exact Or.inr h

/-- Every lead that waits is a guess. -/
def Speculative (w : Agenda) : Prop := ∀ l ∈ w.leads, l.confidence.isSpeculative = true

lemma speculative_empty : empty.Speculative := fun l hl => absurd hl (OrderedSet.not_mem_empty l)

lemma Speculative.push {w : Agenda} (h : w.Speculative) {l : Lead}
    (hl : l.confidence.isSpeculative = true) : (w.push l).Speculative := by
  intro m hm
  rcases mem_of_mem_push hm with rfl | hold
  · exact hl
  · exact h m hold

/-- No lead that waits is surer than the one that is popped. -/
lemma delay_le_of_pop? {w rest : Agenda} {l m : Lead} (h : w.pop? = some (l, rest))
    (hm : m ∈ w.leads) : l.delay ≤ m.delay := by
  have hlist := leads_of_pop? h
  have hascending := w.leads.ascending
  rw [hlist] at hascending
  change m ∈ w.leads.toList at hm
  rw [hlist] at hm
  rcases List.mem_cons.mp hm with rfl | hbehind
  · exact Nat.le_refl _
  · have hlt := (List.pairwise_cons.mp hascending).1 m hbehind
    rw [Lead.compare, compareLex, Ordering.then_eq_lt, compareOn, Nat.compare_eq_lt,
      Nat.compare_eq_eq] at hlt
    omega

/-- **When a guess is popped, only guesses wait.** -/
lemma speculative_of_pop? {w rest : Agenda} {l : Lead} (h : w.pop? = some (l, rest))
    (hl : l.confidence.isSpeculative = true) : w.Speculative := by
  intro m hm
  have hdelay := delay_le_of_pop? h hm
  have hsurest : ¬ l.confidence < m.confidence :=
    fun hlt => Nat.not_le.mpr (Lead.delay_lt_iff.mpr hlt) hdelay
  rw [Confidence.isSpeculative, decide_eq_true_eq] at hl ⊢
  exact Nat.le_trans (Nat.le_of_not_lt hsurest) hl

end Agenda

end CodeSift
