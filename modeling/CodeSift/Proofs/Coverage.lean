import CodeSift.Classification.Coverage
import CodeSift.Proofs.Address
import Mathlib.Data.List.Perm.Subperm

/-!
# The covered addresses and their numbers

A coverage lists its addresses without gaps, and `index?` finds an address in that list: the
address with number `i` is the one at place `i` (`index?_eq_some_iff`).  Since the list ascends
strictly, distinct addresses have distinct numbers, so one array can hold a value for each.

`contains_ofSpans` says that the normal form of a list of spans covers what the spans cover,
however they overlap, touch or repeat.
-/

namespace CodeSift

namespace Coverage

/-! ## The list of addresses -/

lemma mem_addresses {c : Coverage} {a : Address} : a ∈ c.addresses ↔ ∃ s ∈ c.spans, a ∈ s := by
  simp [addresses]

lemma pairwise_addresses (c : Coverage) : c.addresses.Pairwise (· < ·) := by
  rw [addresses, List.pairwise_flatMap]
  refine ⟨fun s _ => s.pairwise_addresses, c.separated.apart.imp fun {s t} hst a ha b hb => ?_⟩
  rw [Span.mem_addresses, Span.mem_iff] at ha hb
  rw [UInt32.lt_iff_toNat_lt] at hst ⊢
  omega

lemma nodup_addresses (c : Coverage) : c.addresses.Nodup :=
  c.pairwise_addresses.imp fun h => UInt32.ne_of_lt h

lemma length_addresses (c : Coverage) : c.addresses.length = c.size := by
  simp [addresses, size, List.length_flatMap, List.sum_eq_foldr, List.foldr_map]

/-! ## Numbers -/

lemma getElem?_span_addresses {s : Span} {a : Address} (h : a ∈ s) :
    s.addresses[(a - s.start).toNat]? = some a := by
  have hstop := s.stop.toNat_lt
  rw [Span.mem_iff] at h
  have hsub := Address.toNat_sub_of_le h.1
  have hlt : (a - s.start).toNat < s.size := by
    unfold Span.size
    omega
  simp only [Span.addresses, Address.consecutive, List.getElem?_map, List.getElem?_range hlt,
    Option.map_some, Option.some.injEq]
  apply UInt32.toNat_inj.mp
  rw [Address.toNat_add_ofNat (by omega)]
  omega

/-- A number found from `before` on is the place of the address, counted from `before`. -/
lemma getElem?_of_indexIn {a : Address} {spans : List Span} {before i : Nat}
    (h : indexIn a spans before = some i) :
    before ≤ i ∧ (spans.flatMap Span.addresses)[i - before]? = some a := by
  induction spans generalizing before with
  | nil => cases h
  | cons s rest ih =>
    rw [indexIn] at h
    split at h
    · next hmem =>
      cases h
      have hplace := getElem?_span_addresses hmem
      have hlt : (a - s.start).toNat < s.addresses.length := by
        obtain ⟨hlt, -⟩ := List.getElem?_eq_some_iff.mp hplace
        exact hlt
      refine ⟨by omega, ?_⟩
      rw [List.flatMap_cons, Nat.add_sub_cancel_left, List.getElem?_append_left hlt, hplace]
    · obtain ⟨hle, hplace⟩ := ih h
      refine ⟨by omega, ?_⟩
      rw [List.flatMap_cons, List.getElem?_append_right (by rw [Span.length_addresses]; omega),
        Span.length_addresses, ← hplace]
      congr 1
      omega

lemma exists_indexIn {a : Address} {spans : List Span} {s : Span} (hs : s ∈ spans) (ha : a ∈ s)
    (before : Nat) : ∃ i, indexIn a spans before = some i := by
  induction spans generalizing before with
  | nil => cases hs
  | cons t rest ih =>
    rw [indexIn]
    split
    · exact ⟨_, rfl⟩
    · next hnot =>
      rcases List.mem_cons.mp hs with rfl | hs
      · exact absurd ha hnot
      · exact ih hs _

/-- **The number of an address is its place.** -/
lemma index?_eq_some_iff {c : Coverage} {a : Address} {i : Nat} :
    c.index? a = some i ↔ c.addresses[i]? = some a := by
  constructor
  · intro h
    exact (getElem?_of_indexIn h).2
  · intro h
    obtain ⟨s, hs, ha⟩ := mem_addresses.mp (List.mem_of_getElem? h)
    obtain ⟨j, hj⟩ := exists_indexIn hs ha 0
    have hplace : c.addresses[j]? = some a := (getElem?_of_indexIn hj).2
    obtain ⟨hjlt, -⟩ := List.getElem?_eq_some_iff.mp hplace
    have hij : j = i := (List.getElem?_inj hjlt c.nodup_addresses).mp (hplace.trans h.symm)
    exact hij ▸ hj

lemma contains_iff {c : Coverage} {a : Address} : c.contains a = true ↔ a ∈ c.addresses := by
  rw [contains, Option.isSome_iff_exists, List.mem_iff_getElem?]
  simp only [index?_eq_some_iff]

lemma contains_iff_exists_span {c : Coverage} {a : Address} :
    c.contains a = true ↔ ∃ s ∈ c.spans, a ∈ s := contains_iff.trans mem_addresses

lemma lt_size_of_index? {c : Coverage} {a : Address} {i : Nat} (h : c.index? a = some i) :
    i < c.size := by
  rw [← c.length_addresses]
  obtain ⟨hlt, -⟩ := List.getElem?_eq_some_iff.mp (index?_eq_some_iff.mp h)
  exact hlt

lemma index?_inj {c : Coverage} {a b : Address} {i : Nat} (ha : c.index? a = some i)
    (hb : c.index? b = some i) : a = b := by
  rw [index?_eq_some_iff] at ha hb
  exact Option.some.inj (ha.symm.trans hb)

/-- The address behind a covered one does not wrap around. -/
lemma toNat_succ_of_contains {c : Coverage} {a : Address} (h : c.contains a = true) :
    (a + 1).toNat = a.toNat + 1 := by
  obtain ⟨s, -, ha⟩ := contains_iff_exists_span.mp h
  exact Span.toNat_succ_of_mem ha

/-! ## The part of a span that is covered -/

lemma mem_within {c : Coverage} {s : Span} {a : Address} :
    a ∈ c.within s ↔ a ∈ s ∧ c.contains a = true := by
  rw [contains_iff_exists_span]
  simp only [within, List.mem_flatMap, Span.mem_addresses, Span.mem_inter]
  constructor
  · rintro ⟨t, ht, hat, has⟩
    exact ⟨has, t, ht, hat⟩
  · rintro ⟨has, t, ht, hat⟩
    exact ⟨t, ht, hat, has⟩

lemma nodup_within (c : Coverage) (s : Span) : (c.within s).Nodup := by
  have hpairs : (c.within s).Pairwise (· < ·) := by
    rw [within, List.pairwise_flatMap]
    refine ⟨fun t _ => Span.pairwise_addresses _, c.separated.apart.imp
      fun {t u} htu a ha b hb => ?_⟩
    rw [Span.mem_addresses, Span.mem_inter] at ha hb
    have hat := Span.mem_iff.mp ha.1
    have hbu := Span.mem_iff.mp hb.1
    rw [UInt32.lt_iff_toNat_lt] at htu ⊢
    omega
  exact hpairs.imp fun h => UInt32.ne_of_lt h

/-- A span of covered addresses is not larger than the coverage. -/
lemma size_le_of_covered {c : Coverage} {s : Span} (h : ∀ a ∈ s, c.contains a = true) :
    s.size ≤ c.size := by
  have hsub : s.addresses ⊆ c.addresses :=
    fun a ha => contains_iff.mp (h a (Span.mem_addresses.mp ha))
  rw [← s.length_addresses, ← c.length_addresses]
  exact (List.Nodup.subperm s.nodup_addresses hsub).length_le

/-! ## Joining spans -/

lemma mem_join_iff {current : Span} {rest : List Span} {a : Address}
    (hcurrent : current.start.toNat ≤ current.stop.toNat)
    (hstart : ∀ t ∈ rest, current.start.toNat ≤ t.start.toNat)
    (hsorted : rest.Pairwise fun t u => t.start.toNat ≤ u.start.toNat)
    (hrest : ∀ t ∈ rest, t.start.toNat ≤ t.stop.toNat) :
    (∃ s ∈ join current rest, a ∈ s) ↔ a ∈ current ∨ ∃ s ∈ rest, a ∈ s := by
  induction rest generalizing current with
  | nil => simp [join]
  | cons t rest ih =>
    obtain ⟨ht, htail⟩ := List.pairwise_cons.mp hsorted
    have hct := hstart t List.mem_cons_self
    have htt := hrest t List.mem_cons_self
    have hrest' : ∀ u ∈ rest, u.start.toNat ≤ u.stop.toNat := fun u hu =>
      hrest u (List.mem_cons_of_mem _ hu)
    simp only [join, List.exists_mem_cons_iff]
    split
    · next htouch =>
      rw [UInt32.le_iff_toNat_le] at htouch
      have hjoined := @ih ⟨current.start, max current.stop t.stop⟩
        (by rw [Address.toNat_max]; show current.start.toNat ≤ _; omega)
        (fun u hu => hstart u (List.mem_cons_of_mem _ hu)) htail hrest'
      rw [hjoined, ← or_assoc]
      refine or_congr_left ?_
      simp only [Span.mem_iff, Address.toNat_max]
      omega
    · rw [List.exists_mem_cons_iff, ih htt ht htail hrest']

/-- **Joining keeps the covered addresses.** -/
lemma contains_ofSpans {spans : List Span} {a : Address} :
    (ofSpans spans).contains a = true ↔ ∃ s ∈ spans, a ∈ s := by
  have hmem : (∃ s ∈ sorted spans, a ∈ s) ↔ ∃ s ∈ spans, a ∈ s := by
    simp only [sorted, mem_stableSort, List.mem_filter, Bool.not_eq_true', Bool.eq_false_iff,
      ne_eq, Span.isEmpty_iff]
    constructor
    · rintro ⟨s, ⟨hs, -⟩, ha⟩
      exact ⟨s, hs, ha⟩
    · rintro ⟨s, hs, ha⟩
      have hbounds := Span.mem_iff.mp ha
      exact ⟨s, ⟨hs, by omega⟩, ha⟩
  have hnonempty : ∀ t ∈ sorted spans, t.start.toNat ≤ t.stop.toNat := by
    intro t ht
    have hfilter := (List.mem_filter.mp (mem_stableSort.mp ht)).2
    rw [Bool.not_eq_true', Bool.eq_false_iff, ne_eq, Span.isEmpty_iff] at hfilter
    omega
  have hascending : (sorted spans).Pairwise fun t u => t.start.toNat ≤ u.start.toNat :=
    pairwise_stableSort _ _
  rw [contains_iff_exists_span, ← hmem]
  show (∃ s ∈ joinAll (sorted spans), a ∈ s) ↔ _
  revert hnonempty hascending
  cases sorted spans with
  | nil => simp [joinAll]
  | cons t rest =>
    intro hnonempty hascending
    obtain ⟨ht, hrest⟩ := List.pairwise_cons.mp hascending
    rw [joinAll, mem_join_iff (hnonempty t List.mem_cons_self) ht hrest fun u hu =>
      hnonempty u (List.mem_cons_of_mem _ hu)]
    simp

end Coverage

end CodeSift
