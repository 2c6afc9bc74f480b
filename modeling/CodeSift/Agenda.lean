import CodeSift.Address
import CodeSift.OrderedSet

/-!
# The agenda: addresses waiting to be decoded

An address on the agenda waits with a `Confidence`: how sure it is that code starts there.  The
agenda hands out the surest address first, and of equally sure ones the lowest.  An address waits
at most once; asking for it again counts only when it is asked for more surely than before.

The entries are kept in the order in which they will be handed out.
-/

namespace CodeSift

open Std

/-- How sure it is that code starts at an address, from a guess to the entry of the program. -/
inductive Confidence where
  | guess
  | tableEntry
  | computedJump
  | directJump
  | directCall
  | exported
  | entry
deriving DecidableEq, Repr, Inhabited

namespace Confidence

/-- The place of a confidence in the order, the least sure first. -/
def rank : Confidence → Nat
  | .guess => 0
  | .tableEntry => 1
  | .computedJump => 2
  | .directJump => 3
  | .directCall => 4
  | .exported => 5
  | .entry => 6

instance : LT Confidence := ⟨fun c d => c.rank < d.rank⟩

instance : LE Confidence := ⟨fun c d => c.rank ≤ d.rank⟩

instance (c d : Confidence) : Decidable (c < d) := inferInstanceAs (Decidable (c.rank < d.rank))

instance (c d : Confidence) : Decidable (c ≤ d) := inferInstanceAs (Decidable (c.rank ≤ d.rank))

theorem rank_injective {c d : Confidence} (h : c.rank = d.rank) : c = d := by
  revert h
  cases c <;> cases d <;> decide

/-- The address comes from data rather than from code, and has to be tried out first. -/
def isSpeculative (c : Confidence) : Bool := c.rank ≤ tableEntry.rank

def description : Confidence → String
  | .guess => "guess"
  | .tableEntry => "table entry"
  | .computedJump => "computed jump"
  | .directJump => "direct jump"
  | .directCall => "direct call"
  | .exported => "export"
  | .entry => "entry"

end Confidence

/-- An address and how sure it is that code starts there. -/
structure Lead where
  address : Address
  confidence : Confidence
deriving DecidableEq, Repr, Inhabited

namespace Lead

/-- How many confidences are surer. -/
def delay (l : Lead) : Nat := Confidence.entry.rank - l.confidence.rank

/-- The order of following leads: the surest first, then the lowest address. -/
def compare : Lead → Lead → Ordering :=
  compareLex (compareOn delay) (compareOn address)

instance : TransCmp compare := inferInstanceAs (TransCmp (compareLex _ _))

theorem confidence_eq_of_delay_eq {l m : Lead} (h : l.delay = m.delay) :
    l.confidence = m.confidence := by
  apply Confidence.rank_injective
  have bound : ∀ c : Confidence, c.rank ≤ Confidence.entry.rank := by intro c; cases c <;> decide
  have hl := bound l.confidence
  have hm := bound m.confidence
  simp only [delay] at h
  omega

instance : LawfulEqCmp compare where
  eq_of_compare {l m} h := by
    simp only [compare, compareLex, Ordering.then_eq_eq, compareOn,
      LawfulEqCmp.compare_eq_iff_eq] at h
    obtain ⟨a, c⟩ := l
    obtain ⟨b, d⟩ := m
    exact congr (congrArg Lead.mk h.2) (confidence_eq_of_delay_eq h.1)

end Lead

/-- The leads to follow, in the order of following them; each address at most once. -/
structure Agenda where
  leads : OrderedSet Lead Lead.compare
  distinct : leads.toList.Pairwise fun l m => l.address ≠ m.address
deriving DecidableEq

namespace Agenda

def empty : Agenda := ⟨∅, List.Pairwise.nil⟩

instance : Inhabited Agenda := ⟨empty⟩

def confidence? (w : Agenda) (a : Address) : Option Confidence :=
  (w.leads.toList.find? fun l => l.address == a).map Lead.confidence

def contains (w : Agenda) (a : Address) : Bool := (w.confidence? a).isSome

def size (w : Agenda) : Nat := w.leads.size

def isEmpty (w : Agenda) : Bool := w.leads.isEmpty

def remove (w : Agenda) (a : Address) : Agenda :=
  ⟨w.leads.filter fun l => l.address != a, w.distinct.filter _⟩

/-- A lead counts when its address does not wait yet, or less surely. -/
def accepts (w : Agenda) (l : Lead) : Bool :=
  match w.confidence? l.address with
  | none => true
  | some c => decide (c < l.confidence)

/-- Lets an address wait with the given confidence, whatever it was before. -/
def put (w : Agenda) (l : Lead) : Agenda where
  leads := (w.remove l.address).leads.insert l
  distinct := by
    refine OrderedSet.pairwise_place (fun h => Ne.symm h)
      (w.remove l.address).distinct fun m hm => ?_
    have hm := (List.mem_filter.mp hm).2
    exact fun h => by simp [h] at hm

def push (w : Agenda) (l : Lead) : Agenda := if w.accepts l then w.put l else w

/-- The lead to follow next, and the agenda without it. -/
def pop? (w : Agenda) : Option (Lead × Agenda) :=
  match h : w.leads.toList with
  | [] => none
  | l :: rest => some (l,
      ⟨⟨rest, (List.pairwise_cons.mp (h ▸ w.leads.ascending)).2⟩,
        (List.pairwise_cons.mp (h ▸ w.distinct)).2⟩)

end Agenda

end CodeSift
