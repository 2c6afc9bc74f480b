/-!
# Ordered sets

An `OrderedSet α cmp` is a finite set kept as a strictly ascending list.  Two sets with the
same members are the same list, so equality of sets is equality of what they hold, and listing
a set in order costs nothing.

The facts that other modules use are the two membership rules, `mem_insert` and `mem_erase`.
-/

namespace CodeSift

open Std

/-- A finite set, kept as a strictly ascending list. -/
structure OrderedSet (α : Type) (cmp : α → α → Ordering) where
  toList : List α
  ascending : toList.Pairwise fun x y => cmp x y = .lt

namespace OrderedSet

variable {α : Type} {cmp : α → α → Ordering}

instance [DecidableEq α] : DecidableEq (OrderedSet α cmp) := fun s t =>
  decidable_of_iff (s.toList = t.toList)
    ⟨fun h => by cases s; cases t; cases h; rfl, fun h => h ▸ rfl⟩

def empty : OrderedSet α cmp := ⟨[], List.Pairwise.nil⟩

instance : EmptyCollection (OrderedSet α cmp) := ⟨empty⟩

instance : Inhabited (OrderedSet α cmp) := ⟨empty⟩

instance : Membership α (OrderedSet α cmp) := ⟨fun s x => x ∈ s.toList⟩

instance [DecidableEq α] (x : α) (s : OrderedSet α cmp) : Decidable (x ∈ s) :=
  inferInstanceAs (Decidable (x ∈ s.toList))

def size (s : OrderedSet α cmp) : Nat := s.toList.length

def isEmpty (s : OrderedSet α cmp) : Bool := s.toList.isEmpty

/-- The ascending list with `x` at its place; a member that compares equal stays. -/
def place (cmp : α → α → Ordering) (x : α) : List α → List α
  | [] => [x]
  | y :: rest =>
    match cmp x y with
    | .lt => x :: y :: rest
    | .eq => y :: rest
    | .gt => y :: place cmp x rest

theorem eq_or_mem_of_mem_place {x z : α} {l : List α} (h : z ∈ place cmp x l) : z = x ∨ z ∈ l := by
  induction l with
  | nil => exact Or.inl (List.mem_singleton.mp h)
  | cons y rest ih =>
    simp only [place] at h
    split at h
    · exact List.mem_cons.mp h
    · exact Or.inr h
    · rcases List.mem_cons.mp h with rfl | h
      · exact Or.inr List.mem_cons_self
      · exact (ih h).imp_right (List.mem_cons_of_mem y)

theorem mem_place_of_mem {x z : α} {l : List α} (h : z ∈ l) : z ∈ place cmp x l := by
  induction l with
  | nil => cases h
  | cons y rest ih =>
    simp only [place]
    split
    · exact List.mem_cons_of_mem _ h
    · exact h
    · rcases List.mem_cons.mp h with rfl | h
      · exact List.mem_cons_self
      · exact List.mem_cons_of_mem _ (ih h)

theorem self_mem_place [LawfulEqCmp cmp] (x : α) (l : List α) : x ∈ place cmp x l := by
  induction l with
  | nil => exact List.mem_singleton_self x
  | cons y rest ih =>
    simp only [place]
    split
    · exact List.mem_cons_self
    · next h => exact LawfulEqCmp.compare_eq_iff_eq.mp h ▸ List.mem_cons_self
    · exact List.mem_cons_of_mem _ ih

theorem ascending_place [TransCmp cmp] (x : α) {l : List α}
    (h : l.Pairwise fun x y => cmp x y = .lt) :
    (place cmp x l).Pairwise fun x y => cmp x y = .lt := by
  induction l with
  | nil => exact List.pairwise_singleton _ x
  | cons y rest ih =>
    obtain ⟨hy, hrest⟩ := List.pairwise_cons.mp h
    simp only [place]
    split
    · next hxy =>
      refine List.pairwise_cons.mpr ⟨fun z hz => ?_, h⟩
      rcases List.mem_cons.mp hz with rfl | hz
      · exact hxy
      · exact TransCmp.lt_trans hxy (hy z hz)
    · exact h
    · next hxy =>
      refine List.pairwise_cons.mpr ⟨fun z hz => ?_, ih hrest⟩
      rcases eq_or_mem_of_mem_place hz with rfl | hz
      · exact OrientedCmp.lt_of_gt hxy
      · exact hy z hz

/-- A relation that holds both ways between members, and between them and `x`, holds between the
members with `x` placed among them. -/
theorem pairwise_place {R : α → α → Prop} (symm : ∀ {y z}, R y z → R z y) {x : α} {l : List α}
    (h : l.Pairwise R) (hx : ∀ z ∈ l, R x z) : (place cmp x l).Pairwise R := by
  induction l with
  | nil => exact List.pairwise_singleton R x
  | cons y rest ih =>
    obtain ⟨hy, hrest⟩ := List.pairwise_cons.mp h
    simp only [place]
    split
    · exact List.pairwise_cons.mpr ⟨hx, h⟩
    · exact h
    · refine List.pairwise_cons.mpr
        ⟨fun z hz => ?_, ih hrest fun z hz => hx z (List.mem_cons_of_mem _ hz)⟩
      rcases eq_or_mem_of_mem_place hz with rfl | hz
      · exact symm (hx y List.mem_cons_self)
      · exact hy z hz

/-- The set with `x` among its members. -/
def insert [TransCmp cmp] (s : OrderedSet α cmp) (x : α) : OrderedSet α cmp :=
  ⟨place cmp x s.toList, ascending_place x s.ascending⟩

def filter (s : OrderedSet α cmp) (test : α → Bool) : OrderedSet α cmp :=
  ⟨s.toList.filter test, s.ascending.filter test⟩

/-- The set with `x` not among its members. -/
def erase [DecidableEq α] (s : OrderedSet α cmp) (x : α) : OrderedSet α cmp :=
  s.filter fun y => y != x

@[simp] theorem mem_toList {s : OrderedSet α cmp} {x : α} : x ∈ s.toList ↔ x ∈ s := Iff.rfl

@[simp] theorem not_mem_empty (x : α) : ¬ x ∈ (∅ : OrderedSet α cmp) := List.not_mem_nil

@[simp] theorem mem_insert [TransCmp cmp] [LawfulEqCmp cmp] {s : OrderedSet α cmp} {x z : α} :
    z ∈ s.insert x ↔ z = x ∨ z ∈ s := by
  constructor
  · exact eq_or_mem_of_mem_place
  · rintro (rfl | h)
    · exact self_mem_place z s.toList
    · exact mem_place_of_mem h

@[simp] theorem mem_filter {s : OrderedSet α cmp} {test : α → Bool} {z : α} :
    z ∈ s.filter test ↔ z ∈ s ∧ test z = true := List.mem_filter

@[simp] theorem mem_erase [DecidableEq α] {s : OrderedSet α cmp} {x z : α} :
    z ∈ s.erase x ↔ z ≠ x ∧ z ∈ s := by
  simp [erase, and_comm]

end OrderedSet

end CodeSift
