import CodeSift.CrossReference.Basic
import CodeSift.OrderedSet

/-!
# The index of cross-references

Every relation is held twice, as seen from either end, and every half stands in two ordered sets,
one by site and one by target.  So "what does this address refer to" and "what refers to this
address" are both questions to one ordered list.

Inserting and erasing always act on both halves.  `eraseSites` erases the relations that a span of
code makes; relations made elsewhere that point into the span are left alone.
-/

namespace CodeSift

/-- The cross-references found so far, both halves of each. -/
structure ReferenceIndex where
  bySite : OrderedSet CrossReference CrossReference.compareSites := ∅
  byTarget : OrderedSet CrossReference CrossReference.compareTargets := ∅
deriving DecidableEq, Inhabited

namespace ReferenceIndex

def empty : ReferenceIndex := {}

/-! ## Changing the index -/

def insertHalf (x : ReferenceIndex) (r : CrossReference) : ReferenceIndex :=
  ⟨x.bySite.insert r, x.byTarget.insert r⟩

def eraseHalf (x : ReferenceIndex) (r : CrossReference) : ReferenceIndex :=
  ⟨x.bySite.erase r, x.byTarget.erase r⟩

/-- Adds a relation, both halves. -/
def insert (x : ReferenceIndex) (r : CrossReference) : ReferenceIndex :=
  (x.insertHalf r).insertHalf r.partner

/-- Drops a relation, both halves. -/
def erase (x : ReferenceIndex) (r : CrossReference) : ReferenceIndex :=
  (x.eraseHalf r).eraseHalf r.partner

/-! ## Asking the index -/

def contains (x : ReferenceIndex) (r : CrossReference) : Bool := decide (r ∈ x.bySite)

/-- One of the two halves is held. -/
def holdsEither (x : ReferenceIndex) (r : CrossReference) : Bool :=
  x.contains r || x.contains r.partner

/-- All halves by site. -/
def toList (x : ReferenceIndex) : List CrossReference := x.bySite.toList

def size (x : ReferenceIndex) : Nat := x.bySite.size

def isEmpty (x : ReferenceIndex) : Bool := x.bySite.isEmpty

def atSite (x : ReferenceIndex) (site : Address) : List CrossReference :=
  x.bySite.toList.filter fun r => r.site == site

/-- The halves at the sites of a span, by site. -/
def atSites (x : ReferenceIndex) (s : Span) : List CrossReference :=
  x.bySite.toList.filter fun r => decide (r.site ∈ s)

def toTarget (x : ReferenceIndex) (target : Address) : List CrossReference :=
  x.byTarget.toList.filter fun r => r.target == target

def ofClass (x : ReferenceIndex) (cls : ReferenceClass) : List CrossReference :=
  x.toList.filter fun r => r.cls = cls

/-- The relations, each seen from the end that refers, by site. -/
def forward (x : ReferenceIndex) : List CrossReference := x.toList.filter CrossReference.isForward

/-- The relations made at the sites of a span, each seen from the end that refers. -/
def madeIn (x : ReferenceIndex) (s : Span) : List CrossReference :=
  (x.atSites s).filter CrossReference.isForward

/-- Something refers to the address. -/
def isReferenced (x : ReferenceIndex) (target : Address) : Bool :=
  (x.toTarget target).any CrossReference.isForward

/-- Drops the relations made at the sites of a span. -/
def eraseSites (x : ReferenceIndex) (s : Span) : ReferenceIndex := (x.madeIn s).foldl erase x

end ReferenceIndex

end CodeSift
