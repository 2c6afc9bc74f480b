import CodeSift.Proofs.Agenda
import CodeSift.Proofs.Sessions
import Mathlib.Data.Finmap
import Mathlib.Data.Multiset.Sort

/-!
# The agenda is a map

Behind an agenda stands a finite map from addresses to confidences.  `Acts` says what each action
does to that map and what it answers: a lead is accepted when its address is absent or waits less
surely, and what is popped is the surest entry, the lowest address of several.  Every action of the
agenda is one of the map (`simulates`), and so is every session.

The map leaves no choice (`Acts.unique`), so whatever else acts as it does gives the same answers.
A `LazyQueue` is another way to keep such a map: a table of what waits, and beside it a heap of all
leads that were accepted.  Taking an address off, or asking for it more surely, leaves its old lead
in the heap; only popping throws away what the table no longer confirms.  Stale leads pile up, and
one of them may become current again when its address is pushed once more at the same confidence, so
that a lead may stand in the heap twice and be current twice.  None of that matters, since all that
is needed is that the heap holds at least what the table says (`Covers`): the first lead that the
table confirms is then before every other one in the table.

Of the heap only the laws of a priority queue are used.  `Heap` states them, and a multiset that is
sorted anew for each lead has them.
-/

namespace CodeSift

open Std

/-! ## The order of leads -/

namespace Lead

/-- The lead is followed first, or it is the same: it is surer, or as sure and not higher up. -/
def Precedes (l m : Lead) : Prop :=
  m.confidence < l.confidence ∨ m.confidence = l.confidence ∧ l.address ≤ m.address

instance : DecidableRel Precedes := fun l m =>
  inferInstanceAs
    (Decidable (m.confidence < l.confidence ∨ m.confidence = l.confidence ∧ l.address ≤ m.address))

lemma isLE_compare_iff {l m : Lead} : (compare l m).isLE = true ↔ l.Precedes m := by
  have heq : l.delay = m.delay ↔ m.confidence = l.confidence :=
    ⟨fun h => (confidence_eq_of_delay_eq h).symm, fun h => by rw [delay, delay, h]⟩
  simp only [compare, compareLex, compareOn, Ordering.isLE_then_iff_or, compare_eq_lt, isLE_compare,
    LawfulEqCmp.compare_eq_iff_eq, delay_lt_iff, heq, Precedes]

instance : IsTrans Lead Precedes where
  trans _ _ _ h h' := isLE_compare_iff.mp
    (TransCmp.isLE_trans (isLE_compare_iff.mpr h) (isLE_compare_iff.mpr h'))

instance : Std.Antisymm Precedes where
  antisymm _ _ h h' := LawfulEqCmp.eq_of_compare
    (OrientedCmp.isLE_antisymm (isLE_compare_iff.mpr h) (isLE_compare_iff.mpr h'))

instance : Std.Total Precedes where
  total l m := by
    rw [← isLE_compare_iff, ← isLE_compare_iff, Ordering.isLE_iff_ne_gt, OrientedCmp.gt_iff_lt]
    by_cases h : compare m l = .lt
    · exact Or.inr (Ordering.isLE_of_eq_lt h)
    · exact Or.inl h

end Lead

/-! ## Actions on a map -/

namespace Agenda

/-- What waits: addresses and their confidences. -/
abbrev Waiting := Finmap fun _ : Address => Confidence

/-- An action on what waits. -/
inductive Action where
  | push (l : Lead)
  | pop
  | remove (a : Address)
  | clear

/-- What an action answers: whether something changed, which lead was popped, or nothing. -/
inductive Answer where
  | flag (changed : Bool)
  | popped (l : Option Lead)
  | silent

/-- **What an action does to a map** and what it answers. -/
inductive Acts : Waiting → Action → Answer → Waiting → Prop
  | accept {m : Waiting} {l : Lead} (lower : ∀ c, m.lookup l.address = some c → c < l.confidence) :
      Acts m (.push l) (.flag true) (m.insert l.address l.confidence)
  | refuse {m : Waiting} {l : Lead} {c : Confidence} (waits : m.lookup l.address = some c)
      (enough : ¬ c < l.confidence) : Acts m (.push l) (.flag false) m
  | pop {m : Waiting} {l : Lead} (waits : m.lookup l.address = some l.confidence)
      (first : ∀ a c, m.lookup a = some c → l.Precedes ⟨a, c⟩) :
      Acts m .pop (.popped (some l)) (m.erase l.address)
  | drained : Acts ∅ .pop (.popped none) ∅
  | remove {m : Waiting} {a : Address} : Acts m (.remove a) (.flag (decide (a ∈ m))) (m.erase a)
  | clear {m : Waiting} : Acts m .clear .silent ∅

/-- **A map leaves no choice.** -/
lemma Acts.unique {m n p : Waiting} {action : Action} {a b : Answer} (h : Acts m action a n)
    (h' : Acts m action b p) : a = b ∧ n = p := by
  cases h with
  | accept lower =>
    cases h' with
    | accept => exact ⟨rfl, rfl⟩
    | refuse waits enough => exact absurd (lower _ waits) enough
  | refuse waits enough =>
    cases h' with
    | accept lower => exact absurd (lower _ waits) enough
    | refuse => exact ⟨rfl, rfl⟩
  | pop waits first =>
    cases h' with
    | pop waits' first' =>
      have heq := Std.Antisymm.antisymm _ _ (first _ _ waits') (first' _ _ waits)
      cases heq
      exact ⟨rfl, rfl⟩
    | drained => cases waits
  | drained =>
    cases h' with
    | pop waits => cases waits
    | drained => exact ⟨rfl, rfl⟩
  | remove =>
    cases h'
    exact ⟨rfl, rfl⟩
  | clear =>
    cases h'
    exact ⟨rfl, rfl⟩

/-! ## The agenda acts as its map -/

/-- Performs an action on the agenda. -/
def perform (w : Agenda) : Action → Answer × Agenda
  | .push l => (.flag (w.accepts l), w.push l)
  | .pop =>
    match w.pop? with
    | none => (.popped none, w)
    | some (l, rest) => (.popped (some l), rest)
  | .remove a => (.flag (w.contains a), w.remove a)
  | .clear => (.silent, empty)

/-- The leads of the agenda are the entries of the map. -/
def Represents (w : Agenda) (m : Waiting) : Prop :=
  ∀ l : Lead, l ∈ w.leads ↔ m.lookup l.address = some l.confidence

lemma represents_empty : Represents empty ∅ := fun l => by simp [empty]

namespace Represents

variable {w : Agenda} {m : Waiting}

lemma confidence?_eq (h : Represents w m) (a : Address) : w.confidence? a = m.lookup a :=
  Option.ext fun c => (confidence?_eq_some (l := ⟨a, c⟩)).trans (h ⟨a, c⟩)

lemma contains_eq (h : Represents w m) (a : Address) : w.contains a = decide (a ∈ m) := by
  rw [Bool.eq_iff_iff, decide_eq_true_eq, contains, h.confidence?_eq, Finmap.lookup_isSome]

lemma remove (h : Represents w m) (a : Address) : Represents (w.remove a) (m.erase a) := by
  intro l
  rw [Agenda.remove, OrderedSet.mem_filter, bne_iff_ne, h]
  by_cases haddress : l.address = a
  · subst haddress
    simp
  · simp [haddress, Finmap.lookup_erase_ne haddress]

lemma put (h : Represents w m) (l : Lead) :
    Represents (w.put l) (m.insert l.address l.confidence) := by
  intro k
  rw [Agenda.put, OrderedSet.mem_insert, h.remove]
  by_cases haddress : k.address = l.address
  · rw [haddress, Finmap.lookup_erase, Finmap.lookup_insert]
    obtain ⟨a, c⟩ := k
    obtain ⟨b, d⟩ := l
    simp_all [eq_comm]
  · rw [Finmap.lookup_erase_ne haddress, Finmap.lookup_insert_of_ne _ haddress, or_iff_right]
    rintro rfl
    exact haddress rfl

/-- The map accepts and refuses as the agenda does. -/
lemma push (h : Represents w m) (l : Lead) :
    ∃ n, Acts m (.push l) (.flag (w.accepts l)) n ∧ Represents (w.push l) n := by
  rw [Agenda.push, accepts, h.confidence?_eq]
  cases hlookup : m.lookup l.address with
  | none => exact ⟨_, .accept (by simp [hlookup]), h.put l⟩
  | some c =>
    by_cases hlower : c < l.confidence
    · simp only [hlower, decide_true, if_true]
      exact ⟨_, .accept (by simp [hlookup, hlower]), h.put l⟩
    · simp only [hlower, decide_false, Bool.false_eq_true, if_false]
      exact ⟨_, .refuse hlookup hlower, h⟩

/-- What the agenda pops is first in the map. -/
lemma pop {rest : Agenda} {l : Lead} (h : Represents w m) (hpop : w.pop? = some (l, rest)) :
    Acts m .pop (.popped (some l)) (m.erase l.address) ∧ Represents rest (m.erase l.address) := by
  have hleads := leads_of_pop? hpop
  have hwaits : m.lookup l.address = some l.confidence := by
    rw [← h, ← OrderedSet.mem_toList, hleads]
    exact List.mem_cons_self
  constructor
  · refine .pop hwaits fun a c hlookup => ?_
    have hmem : (⟨a, c⟩ : Lead) ∈ l :: rest.leads.toList := hleads ▸ (h ⟨a, c⟩).mpr hlookup
    rcases List.mem_cons.mp hmem with rfl | hbehind
    · exact Or.inr ⟨rfl, UInt32.le_refl a⟩
    · have hascending := (List.pairwise_cons.mp (hleads ▸ w.leads.ascending)).1
      exact Lead.isLE_compare_iff.mp (Ordering.isLE_of_eq_lt (hascending _ hbehind))
  · intro k
    have hdistinct := (List.pairwise_cons.mp (hleads ▸ w.distinct)).1
    by_cases haddress : k.address = l.address
    · rw [haddress, Finmap.lookup_erase]
      exact iff_of_false (fun hk => hdistinct k hk haddress.symm) (by simp)
    · rw [Finmap.lookup_erase_ne haddress, ← h, ← OrderedSet.mem_toList,
        ← OrderedSet.mem_toList, hleads, List.mem_cons, or_iff_right]
      rintro rfl
      exact haddress rfl

lemma isEmpty_iff (h : Represents w m) : w.isEmpty = true ↔ m = ∅ := by
  constructor
  · intro hempty
    refine Finmap.ext_lookup fun a => ?_
    rw [← h.confidence?_eq, eq_empty_of_isEmpty hempty]
    rfl
  · rintro rfl
    refine List.isEmpty_iff.mpr (List.eq_nil_iff_forall_not_mem.mpr fun l hl => ?_)
    cases (h l).mp hl

end Represents

/-- **An action on the agenda is one on its map.** -/
lemma simulates : Simulates perform Acts Represents := by
  intro w m action h
  cases action with
  | push l => exact h.push l
  | pop =>
    cases hpop : w.pop? with
    | none =>
      obtain rfl := h.isEmpty_iff.mp (pop?_eq_none hpop)
      simp only [perform, hpop]
      exact ⟨∅, .drained, h⟩
    | some next =>
      simp only [perform, hpop]
      exact ⟨_, h.pop hpop⟩
  | remove a =>
    simp only [perform, h.contains_eq]
    exact ⟨_, .remove, h.remove a⟩
  | clear => exact ⟨∅, .clear, represents_empty⟩

/-- What the agenda is asked, read off the map. -/
structure Answers (w : Agenda) (m : Waiting) : Prop where
  confidence? : ∀ a, w.confidence? a = m.lookup a
  contains : ∀ a, w.contains a = true ↔ a ∈ m
  size : w.size = m.keys.card
  isEmpty : w.isEmpty = true ↔ m = ∅

lemma Represents.answers {w : Agenda} {m : Waiting} (h : Represents w m) : Answers w m where
  confidence? := h.confidence?_eq
  contains a := by rw [h.contains_eq, decide_eq_true_eq]
  size := by
    have hkeys : m.keys = (w.leads.toList.map Lead.address).toFinset := by
      ext a
      rw [Finmap.mem_keys, ← decide_eq_true_eq (p := a ∈ m), ← h.contains_eq, contains_iff]
      simp
    rw [hkeys, List.toFinset_card_of_nodup w.nodup_addresses, List.length_map]
    rfl
  isEmpty := h.isEmpty_iff

end Agenda

/-! ## A queue that leaves stale leads behind -/

/-- A priority queue of leads that may hold a lead several times. -/
structure Heap where
  Carrier : Type
  items : Carrier → Multiset Lead
  empty : Carrier
  push : Lead → Carrier → Carrier
  pop? : Carrier → Option (Lead × Carrier)
  items_empty : items empty = 0
  items_push : ∀ l h, items (push l h) = l ::ₘ items h
  items_of_pop?_eq_none : ∀ {h}, pop? h = none → items h = 0
  items_of_pop? : ∀ {h l rest}, pop? h = some (l, rest) → items h = l ::ₘ items rest
  precedes_of_pop? : ∀ {h l rest}, pop? h = some (l, rest) → ∀ m ∈ items rest, l.Precedes m

lemma Heap.card_lt_of_pop? (H : Heap) {h rest : H.Carrier} {l : Lead}
    (hpop : H.pop? h = some (l, rest)) : (H.items rest).card < (H.items h).card := by
  rw [H.items_of_pop? hpop, Multiset.card_cons]
  exact Nat.lt_succ_self _

/-- Multisets, sorted anew for each lead. -/
def Heap.sorting : Heap where
  Carrier := Multiset Lead
  items := id
  empty := 0
  push := Multiset.cons
  pop? h :=
    match h.sort Lead.Precedes with
    | [] => none
    | l :: rest => some (l, rest)
  items_empty := rfl
  items_push _ _ := rfl
  items_of_pop?_eq_none {h} hpop := by
    have hsort := h.sort_eq Lead.Precedes
    split at hpop
    · next hnil => rw [id, ← hsort, hnil, Multiset.coe_nil]
    · cases hpop
  items_of_pop? {h l rest} hpop := by
    have hsort := h.sort_eq Lead.Precedes
    split at hpop
    · cases hpop
    · next hcons =>
      cases hpop
      rw [id, ← hsort, hcons, id, Multiset.cons_coe]
  precedes_of_pop? {h l rest} hpop := by
    have hpairwise := h.pairwise_sort Lead.Precedes
    split at hpop
    · cases hpop
    · next hcons =>
      cases hpop
      exact (List.pairwise_cons.mp (hcons ▸ hpairwise)).1

instance : Inhabited Heap := ⟨.sorting⟩

/-- A table of what waits, and a heap of leads that may be out of date. -/
structure LazyQueue (H : Heap) where
  heap : H.Carrier
  table : Agenda.Waiting

namespace LazyQueue

variable {H : Heap}

open Agenda

/-- The queue without leads. -/
def empty : LazyQueue H := ⟨H.empty, ∅⟩

/-- Lets the table say that the lead waits, and adds the lead to the heap. -/
def add (q : LazyQueue H) (l : Lead) : LazyQueue H :=
  ⟨H.push l q.heap, q.table.insert l.address l.confidence⟩

/-- Pops from the heap until the table confirms a lead. -/
def firstLive (table : Waiting) (h : H.Carrier) : Option Lead × H.Carrier :=
  match hpop : H.pop? h with
  | none => (none, h)
  | some (l, rest) =>
    have := H.card_lt_of_pop? hpop
    if table.lookup l.address = some l.confidence then (some l, rest) else firstLive table rest
termination_by (H.items h).card

/-- Performs an action on the queue. -/
def perform (q : LazyQueue H) : Action → Answer × LazyQueue H
  | .push l =>
    match q.table.lookup l.address with
    | none => (.flag true, q.add l)
    | some c => if c < l.confidence then (.flag true, q.add l) else (.flag false, q)
  | .pop =>
    match firstLive q.table q.heap with
    | (none, rest) => (.popped none, ⟨rest, q.table⟩)
    | (some l, rest) => (.popped (some l), ⟨rest, q.table.erase l.address⟩)
  | .remove a => (.flag (q.table.lookup a).isSome, ⟨q.heap, q.table.erase a⟩)
  | .clear => (.silent, empty)

/-- Every entry of the table has its lead in the heap. -/
def Covers (h : H.Carrier) (table : Waiting) : Prop :=
  ∀ l : Lead, table.lookup l.address = some l.confidence → l ∈ H.items h

variable {h rest : H.Carrier} {table : Waiting} {l : Lead}

lemma covers_empty : Covers h ∅ := fun _ hlive => by cases hlive

/-- A lead that the table does not confirm may go. -/
lemma Covers.of_stale (hcovers : Covers h table) (hpop : H.pop? h = some (l, rest))
    (hstale : table.lookup l.address ≠ some l.confidence) : Covers rest table := by
  intro k hlive
  have hk := hcovers k hlive
  rw [H.items_of_pop? hpop, Multiset.mem_cons] at hk
  rcases hk with rfl | hk
  · exact absurd hlive hstale
  · exact hk

lemma Covers.erase (hcovers : Covers h table) (a : Address) : Covers h (table.erase a) := by
  intro k hlive
  have haddress : k.address ≠ a := by
    rintro rfl
    rw [Finmap.lookup_erase] at hlive
    cases hlive
  rw [Finmap.lookup_erase_ne haddress] at hlive
  exact hcovers k hlive

lemma Covers.push (hcovers : Covers h table) (l : Lead) :
    Covers (H.push l h) (table.insert l.address l.confidence) := by
  intro k hlive
  rw [H.items_push, Multiset.mem_cons]
  by_cases haddress : k.address = l.address
  · obtain ⟨a, c⟩ := k
    obtain rfl : a = l.address := haddress
    rw [Finmap.lookup_insert] at hlive
    cases hlive
    exact Or.inl rfl
  · rw [Finmap.lookup_insert_of_ne _ haddress] at hlive
    exact Or.inr (hcovers k hlive)

/-- **Popping from the heap finds the first entry of the table**, however many stale leads come
before it. -/
lemma acts_firstLive (hcovers : Covers h table) :
    match firstLive table h with
    | (none, _) => table = ∅
    | (some l, rest) => Acts table .pop (.popped (some l)) (table.erase l.address) ∧
        Covers rest (table.erase l.address) := by
  fun_induction firstLive table h with
  | case1 h hpop =>
    refine Finmap.ext_lookup fun a => Option.eq_none_iff_forall_ne_some.mpr fun c hlive => ?_
    have hmem := hcovers ⟨a, c⟩ hlive
    rw [H.items_of_pop?_eq_none hpop] at hmem
    exact Multiset.notMem_zero _ hmem
  | case2 h l rest hpop _ hlive =>
    -- once its address is taken off, the popped lead is a stale one
    refine ⟨.pop hlive fun a c hlookup => ?_, (hcovers.erase l.address).of_stale hpop (by simp)⟩
    have hmem := hcovers ⟨a, c⟩ hlookup
    rw [H.items_of_pop? hpop, Multiset.mem_cons] at hmem
    rcases hmem with rfl | hmem
    · exact Or.inr ⟨rfl, UInt32.le_refl a⟩
    · exact H.precedes_of_pop? hpop _ hmem
  | case3 h l rest hpop _ hstale ih => exact ih (hcovers.of_stale hpop hstale)

/-- **An action on the queue is one on its table.** -/
lemma simulates :
    Simulates perform Acts fun (q : LazyQueue H) m => q.table = m ∧ Covers q.heap q.table := by
  rintro q _ action ⟨rfl, hcovers⟩
  cases action with
  | push l =>
    cases hlookup : q.table.lookup l.address with
    | none =>
      simp only [perform, hlookup]
      exact ⟨_, .accept (by simp [hlookup]), rfl, hcovers.push l⟩
    | some c =>
      by_cases hlower : c < l.confidence
      · simp only [perform, hlookup, if_pos hlower]
        exact ⟨_, .accept (by simp [hlookup, hlower]), rfl, hcovers.push l⟩
      · simp only [perform, hlookup, if_neg hlower]
        exact ⟨_, .refuse hlookup hlower, rfl, hcovers⟩
  | pop =>
    have hfirst := acts_firstLive hcovers
    rcases hlive : firstLive q.table q.heap with ⟨_ | l, rest⟩
    · rw [hlive] at hfirst
      simp only [perform, hlive]
      rw [hfirst]
      exact ⟨∅, .drained, rfl, covers_empty⟩
    · rw [hlive] at hfirst
      simp only [perform, hlive]
      exact ⟨_, hfirst.1, rfl, hfirst.2⟩
  | remove a =>
    have hwaits : (q.table.lookup a).isSome = decide (a ∈ q.table) := by
      rw [Bool.eq_iff_iff, decide_eq_true_eq, Finmap.lookup_isSome]
    simp only [perform, hwaits]
    exact ⟨_, .remove, rfl, hcovers.erase a⟩
  | clear => exact ⟨∅, .clear, rfl, covers_empty⟩

end LazyQueue

/-- **An agenda is a map from addresses to confidences.**  Whatever is pushed, popped and taken off,
in whatever order: there is a map that goes through the same actions from `∅` with the same answers,
and the agenda answers every question as that map does.  A queue that leaves stale leads in its heap
answers the same and has that map as its table, whichever heap it uses. -/
theorem agenda_is_map (actions : List Agenda.Action) :
    ∃ m, Conforms Agenda.Acts ∅ actions (session Agenda.perform .empty actions).1 m ∧
      Agenda.Answers (session Agenda.perform .empty actions).2 m ∧
      ∀ H : Heap, (session LazyQueue.perform (.empty : LazyQueue H) actions).1 =
          (session Agenda.perform .empty actions).1 ∧
        (session LazyQueue.perform (.empty : LazyQueue H) actions).2.table = m := by
  obtain ⟨m, hconforms, hrepresents⟩ := Agenda.simulates.conforms actions Agenda.represents_empty
  refine ⟨m, hconforms, hrepresents.answers, fun H => ?_⟩
  obtain ⟨_, hlazy, rfl, -⟩ := LazyQueue.simulates.conforms actions
    (show (LazyQueue.empty : LazyQueue H).table = ∅ ∧ _ from ⟨rfl, LazyQueue.covers_empty⟩)
  exact hlazy.unique hconforms Agenda.Acts.unique

end CodeSift
