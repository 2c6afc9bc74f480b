/-!
# Addresses and spans of addresses

A 32-bit image places its bytes at 32-bit virtual addresses.  An `Address` is such a word:
plain sums wrap around at `2 ^ 32`, and the sums that must not wrap are named, `addSaturated`
for the one that stops at the last address and `addChecked?` for the one that fails.

A `Span` is a half-open range of addresses.  Membership, size and the ascending list of its
addresses are the three views the rest of the library works with.
-/

namespace CodeSift

/-- A virtual address of a 32-bit image; sums of addresses wrap around. -/
abbrev Address := UInt32

namespace Address

def last : Address := 0xffffffff

/-- The address `n` bytes further on, stopped at the highest address. -/
def addSaturated (a : Address) (n : Nat) : Address :=
  UInt32.ofNat (min (a.toNat + n) last.toNat)

/-- The address `n` bytes further on, unless it lies past the highest address. -/
def addChecked? (a : Address) (n : Nat) : Option Address :=
  if a.toNat + n ≤ last.toNat then some (UInt32.ofNat (a.toNat + n)) else none

/-- The address `n` bytes back, unless it lies below zero. -/
def subChecked? (a : Address) (n : Nat) : Option Address :=
  if n ≤ a.toNat then some (UInt32.ofNat (a.toNat - n)) else none

def consecutive (n : Nat) (a : Address) : List Address :=
  (List.range n).map fun i => a + UInt32.ofNat i

/-- Whether the `n` consecutive addresses from `a` on all pass the test; the first that fails
ends the search. -/
def allConsecutive (test : Address → Bool) : Nat → Address → Bool
  | 0, _ => true
  | n + 1, a => test a && allConsecutive test n (a + 1)

@[simp] theorem toNat_max (a b : Address) : (max a b).toNat = max a.toNat b.toNat := by
  show (if a ≤ b then b else a).toNat = _
  split
  next h => rw [UInt32.le_iff_toNat_le] at h; omega
  next h => rw [UInt32.le_iff_toNat_le] at h; omega

@[simp] theorem toNat_min (a b : Address) : (min a b).toNat = min a.toNat b.toNat := by
  show (if a ≤ b then a else b).toNat = _
  split
  next h => rw [UInt32.le_iff_toNat_le] at h; omega
  next h => rw [UInt32.le_iff_toNat_le] at h; omega

end Address

/-- The addresses from `start` up to but not including `stop`. -/
structure Span where
  start : Address
  stop : Address
deriving DecidableEq, Repr, Inhabited

namespace Span

instance : Membership Address Span := ⟨fun s a => s.start ≤ a ∧ a < s.stop⟩

instance (a : Address) (s : Span) : Decidable (a ∈ s) :=
  inferInstanceAs (Decidable (s.start ≤ a ∧ a < s.stop))

/-- A span holds no address when it does not reach past its start. -/
def isEmpty (s : Span) : Bool := s.stop ≤ s.start

def size (s : Span) : Nat := s.stop.toNat - s.start.toNat

def addresses (s : Span) : List Address := Address.consecutive s.size s.start

def all (s : Span) (test : Address → Bool) : Bool := Address.allConsecutive test s.size s.start

/-- The part of the span that lies in `other` too. -/
def inter (s other : Span) : Span := ⟨max s.start other.start, min s.stop other.stop⟩

/-- The `n` bytes from `a` on, as far as addresses reach. -/
def ofSize (a : Address) (n : Nat) : Span := ⟨a, Address.addSaturated a n⟩

end Span

end CodeSift
