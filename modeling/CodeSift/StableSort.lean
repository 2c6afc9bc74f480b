/-!
# Sorting by a key

`stableSort key` sorts a list by ascending keys and keeps elements with equal keys in the order
they came in.  It is an insertion sort: the lists sorted here are the sections of an image and
the spans they cover, a handful each.
-/

namespace CodeSift

variable {α : Type}

/-- Puts `x` in front of the first element whose key is not below its own. -/
def insertByKey (key : α → Nat) (x : α) : List α → List α
  | [] => [x]
  | y :: rest => if key x ≤ key y then x :: y :: rest else y :: insertByKey key x rest

/-- The list by ascending keys; elements with equal keys keep their order. -/
def stableSort (key : α → Nat) : List α → List α
  | [] => []
  | x :: rest => insertByKey key x (stableSort key rest)

theorem perm_insertByKey (key : α → Nat) (x : α) (l : List α) :
    (insertByKey key x l).Perm (x :: l) := by
  induction l with
  | nil => exact List.Perm.refl _
  | cons y rest ih =>
    simp only [insertByKey]
    split
    · exact List.Perm.refl _
    · exact (ih.cons y).trans (List.Perm.swap x y rest)

/-- Sorting keeps the elements. -/
theorem perm_stableSort (key : α → Nat) (l : List α) : (stableSort key l).Perm l := by
  induction l with
  | nil => exact List.Perm.refl _
  | cons x rest ih => exact (perm_insertByKey key x _).trans (ih.cons x)

@[simp] theorem mem_stableSort {key : α → Nat} {l : List α} {x : α} :
    x ∈ stableSort key l ↔ x ∈ l :=
  (perm_stableSort key l).mem_iff

theorem pairwise_insertByKey (key : α → Nat) (x : α) {l : List α}
    (h : l.Pairwise fun y z => key y ≤ key z) :
    (insertByKey key x l).Pairwise fun y z => key y ≤ key z := by
  induction l with
  | nil => exact List.pairwise_singleton _ x
  | cons y rest ih =>
    obtain ⟨hy, hrest⟩ := List.pairwise_cons.mp h
    simp only [insertByKey]
    split
    · next hxy =>
      refine List.pairwise_cons.mpr ⟨fun z hz => ?_, h⟩
      rcases List.mem_cons.mp hz with rfl | hz
      · exact hxy
      · exact Nat.le_trans hxy (hy z hz)
    · next hxy =>
      refine List.pairwise_cons.mpr ⟨fun z hz => ?_, ih hrest⟩
      rcases List.mem_cons.mp ((perm_insertByKey key x rest).mem_iff.mp hz) with rfl | hz
      · exact Nat.le_of_not_le hxy
      · exact hy z hz

/-- A sorted list has ascending keys. -/
theorem pairwise_stableSort (key : α → Nat) (l : List α) :
    (stableSort key l).Pairwise fun y z => key y ≤ key z := by
  induction l with
  | nil => exact List.Pairwise.nil
  | cons x rest ih => exact pairwise_insertByKey key x ih

end CodeSift
