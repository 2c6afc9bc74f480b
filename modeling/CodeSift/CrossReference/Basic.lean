import CodeSift.Address
import CodeSift.Text.Hex

/-!
# Cross-references

A `CrossReference` says that one address refers to another, and in which way.  The way is a
`ReferenceClass`, a signed tag: positive tags name the kinds of reference the library finds, and
the negated tag is the same relation seen from the other end.  Negation wraps around, so the
lowest tag is its own negation.

The two orders of cross-references, by site and by target, are those in which an index lists
them.
-/

namespace CodeSift

open Std

/-- The way in which an address refers to another; a negative tag is the way back. -/
structure ReferenceClass where
  tag : Int8
deriving DecidableEq, Repr, Inhabited

namespace ReferenceClass

def call : ReferenceClass := ⟨1⟩

/-- The target of an unconditional direct jump, or of an entry of its table. -/
def jump : ReferenceClass := ⟨2⟩

def branch : ReferenceClass := ⟨3⟩

/-- A memory operand at a fixed address. -/
def data : ReferenceClass := ⟨4⟩

/-- A slot of a table of pointers, and the code it points to. -/
def tableEntry : ReferenceClass := ⟨5⟩

/-- An indirect jump, and the table behind it. -/
def jumpTable : ReferenceClass := ⟨6⟩

/-- A memory operand at the slot of an imported function. -/
def importSlot : ReferenceClass := ⟨7⟩

/-- An immediate operand that is the address of code. -/
def immediate : ReferenceClass := ⟨8⟩

/-- The same relation seen from the other end. -/
def reversed (c : ReferenceClass) : ReferenceClass := ⟨-c.tag⟩

def isReverse (c : ReferenceClass) : Bool := c.tag < 0

def forward (c : ReferenceClass) : ReferenceClass := if c.isReverse then c.reversed else c

/-- The name of the relation, the same from both ends. -/
def name (c : ReferenceClass) : String :=
  let f := c.forward
  if f = call then "call"
  else if f = jump then "jump"
  else if f = branch then "branch"
  else if f = data then "data"
  else if f = tableEntry then "table_entry"
  else if f = jumpTable then "jump_table"
  else if f = importSlot then "import"
  else if f = immediate then "immediate"
  else "unknown"

def description (c : ReferenceClass) : String := if c.isReverse then c.name ++ "<-" else c.name

end ReferenceClass

/-- One address refers to another. -/
structure CrossReference where
  cls : ReferenceClass
  site : Address
  target : Address
deriving DecidableEq, Repr, Inhabited

namespace CrossReference

/-- The same relation seen from the other end. -/
def partner (r : CrossReference) : CrossReference := ⟨r.cls.reversed, r.target, r.site⟩

/-- The relation is seen from the end that refers. -/
def isForward (r : CrossReference) : Bool := !r.cls.isReverse

def description (r : CrossReference) : String :=
  Hex.marked 8 r.site.toNat ++ " -" ++ r.cls.description ++ "-> " ++ Hex.marked 8 r.target.toNat

/-- The order by site, then target, then class. -/
def compareSites : CrossReference → CrossReference → Ordering :=
  compareLex (compareOn site) (compareLex (compareOn target) (compareOn fun r => r.cls.tag))

/-- The order by target, then site, then class. -/
def compareTargets : CrossReference → CrossReference → Ordering :=
  compareLex (compareOn target) (compareLex (compareOn site) (compareOn fun r => r.cls.tag))

instance : TransCmp compareSites := inferInstanceAs (TransCmp (compareLex _ _))

instance : TransCmp compareTargets := inferInstanceAs (TransCmp (compareLex _ _))

theorem eq_of_fields {r s : CrossReference} (hsite : r.site = s.site)
    (htarget : r.target = s.target) (htag : r.cls.tag = s.cls.tag) : r = s := by
  obtain ⟨⟨c⟩, p, t⟩ := r
  obtain ⟨⟨d⟩, q, u⟩ := s
  simp_all

instance : LawfulEqCmp compareSites where
  eq_of_compare h := by
    simp only [compareSites, compareLex, Ordering.then_eq_eq, compareOn,
      LawfulEqCmp.compare_eq_iff_eq] at h
    exact eq_of_fields h.1 h.2.1 h.2.2

instance : LawfulEqCmp compareTargets where
  eq_of_compare h := by
    simp only [compareTargets, compareLex, Ordering.then_eq_eq, compareOn,
      LawfulEqCmp.compare_eq_iff_eq] at h
    exact eq_of_fields h.2.1 h.1 h.2.2

end CrossReference

end CodeSift
