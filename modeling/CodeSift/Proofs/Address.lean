import CodeSift.Address
import Mathlib.Algebra.Group.Nat.Defs
import Mathlib.Tactic.Lemma

/-!
# Addresses as numbers

Everything about the order of addresses is decided by their numbers.  This file moves the sums of
addresses to natural numbers, where they are exact as long as they stay below `2 ^ 32`, and gives
the three views of a span, membership, size and list, in terms of each other.

A span that holds an address stops behind it, so the address after one of its members is again an
address (`toNat_succ_of_mem`).  This is why walking along a span never wraps around.
-/

namespace CodeSift

namespace Address

/-! ## Sums -/

lemma toNat_ofNat {n : Nat} (h : n < 2 ^ 32) : (UInt32.ofNat n).toNat = n :=
  UInt32.toNat_ofNat_of_lt' h

lemma toNat_add_ofNat {a : Address} {n : Nat} (h : a.toNat + n < 2 ^ 32) :
    (a + UInt32.ofNat n).toNat = a.toNat + n := by
  rw [UInt32.toNat_add, toNat_ofNat (by omega)]
  omega

lemma toNat_succ {a : Address} (h : a.toNat + 1 < 2 ^ 32) : (a + 1).toNat = a.toNat + 1 :=
  toNat_add_ofNat (n := 1) h

lemma toNat_sub_of_le {a b : Address} (h : b.toNat ≤ a.toNat) : (a - b).toNat = a.toNat - b.toNat :=
  UInt32.toNat_sub_of_le a b (UInt32.le_iff_toNat_le.mpr h)

lemma toNat_addSaturated (a : Address) (n : Nat) :
    (addSaturated a n).toNat = min (a.toNat + n) (2 ^ 32 - 1) := by
  have hlast : last.toNat = 2 ^ 32 - 1 := rfl
  rw [addSaturated, hlast, toNat_ofNat (by omega)]

lemma addChecked?_eq_some {a b : Address} {n : Nat} :
    addChecked? a n = some b ↔ b.toNat = a.toNat + n := by
  have hlast : last.toNat = 2 ^ 32 - 1 := rfl
  have hb := b.toNat_lt
  unfold addChecked?
  split
  · next hle =>
    rw [Option.some.injEq, ← UInt32.toNat_inj, toNat_ofNat (by omega)]
    exact eq_comm
  · next hgt =>
    constructor
    · intro h
      cases h
    · intro h
      omega

lemma addChecked?_eq_none {a : Address} {n : Nat} :
    addChecked? a n = none ↔ 2 ^ 32 ≤ a.toNat + n := by
  rw [Option.eq_none_iff_forall_ne_some]
  constructor
  · intro h
    refine Nat.le_of_not_lt fun hfits => ?_
    exact h (a + UInt32.ofNat n) (addChecked?_eq_some.mpr (toNat_add_ofNat hfits))
  · intro hover b hb
    have hplace := addChecked?_eq_some.mp hb
    have hbound := b.toNat_lt
    omega

lemma subChecked?_eq_some {a b : Address} {n : Nat} :
    subChecked? a n = some b ↔ b.toNat + n = a.toNat := by
  have ha := a.toNat_lt
  unfold subChecked?
  split
  · next hle =>
    rw [Option.some.injEq, ← UInt32.toNat_inj, toNat_ofNat (by omega)]
    omega
  · next hgt =>
    constructor
    · intro h
      cases h
    · intro h
      omega

/-! ## Consecutive addresses -/

lemma mem_consecutive {n : Nat} {a b : Address} (h : a.toNat + n < 2 ^ 32) :
    b ∈ consecutive n a ↔ a.toNat ≤ b.toNat ∧ b.toNat < a.toNat + n := by
  simp only [consecutive, List.mem_map, List.mem_range]
  constructor
  · rintro ⟨i, hi, rfl⟩
    rw [toNat_add_ofNat (by omega)]
    omega
  · rintro ⟨hle, hlt⟩
    refine ⟨b.toNat - a.toNat, by omega, UInt32.toNat_inj.mp ?_⟩
    rw [toNat_add_ofNat (by omega)]
    omega

lemma pairwise_consecutive {n : Nat} {a : Address} (h : a.toNat + n < 2 ^ 32) :
    (consecutive n a).Pairwise (· < ·) := by
  rw [consecutive, List.pairwise_map]
  refine List.pairwise_lt_range.imp_of_mem fun {i j} hi hj hij => ?_
  rw [List.mem_range] at hi hj
  rw [UInt32.lt_iff_toNat_lt, toNat_add_ofNat (by omega), toNat_add_ofNat (by omega)]
  omega

lemma allConsecutive_iff {test : Address → Bool} {n : Nat} {a : Address}
    (h : a.toNat + n < 2 ^ 32) :
    allConsecutive test n a = true ↔
      ∀ b : Address, a.toNat ≤ b.toNat → b.toNat < a.toNat + n → test b = true := by
  induction n generalizing a with
  | zero =>
    simp only [allConsecutive, true_iff]
    intro b hle hlt
    omega
  | succ n ih =>
    have hnext : (a + 1).toNat = a.toNat + 1 := toNat_succ (by omega)
    rw [allConsecutive, Bool.and_eq_true, ih (by omega), hnext]
    constructor
    · rintro ⟨ha, hrest⟩ b hle hlt
      by_cases hab : b = a
      · exact hab ▸ ha
      · have hne : b.toNat ≠ a.toNat := fun hnat => hab (UInt32.toNat_inj.mp hnat)
        exact hrest b (by omega) (by omega)
    · intro hall
      exact ⟨hall a (by omega) (by omega), fun b hle hlt => hall b (by omega) (by omega)⟩

/-! ## Cutting bits off -/

/-- Clearing the `k` lowest bits goes down to the next multiple of `2 ^ k`. -/
lemma toNat_and_high {a mask : Address} {k : Nat} (hmask : mask.toNat = (2 ^ (32 - k) - 1) <<< k) :
    (a &&& mask).toNat = a.toNat / 2 ^ k * 2 ^ k := by
  have hshift : a.toNat / 2 ^ k * 2 ^ k = (a.toNat >>> k) <<< k := by
    rw [Nat.shiftRight_eq_div_pow, Nat.shiftLeft_eq]
  rw [UInt32.toNat_and, hmask, hshift]
  apply Nat.eq_of_testBit_eq
  intro i
  rw [Nat.testBit_and, Nat.testBit_shiftLeft, Nat.testBit_shiftLeft, Nat.testBit_two_pow_sub_one,
    Nat.testBit_shiftRight]
  by_cases hlow : k ≤ i
  · have hadd : k + (i - k) = i := by omega
    by_cases hbit : i - k < 32 - k
    · simp [hlow, hadd, hbit]
    · have hzero : a.toNat.testBit i = false :=
        Nat.testBit_lt_two_pow
          (Nat.lt_of_lt_of_le a.toNat_lt (Nat.pow_le_pow_right (by decide) (by omega)))
      simp [hadd, hzero]
  · simp [hlow]

/-- The low half of an address. -/
lemma toNat_and_low (a : Address) : (a &&& 0xffff).toNat = a.toNat % 2 ^ 16 := by
  rw [UInt32.toNat_and]
  exact Nat.and_two_pow_sub_one_eq_mod a.toNat 16

/-- The high half of one address and the low half of another. -/
lemma toNat_or_halves (a b : Address) :
    ((a &&& 0xffff0000) ||| (b &&& 0xffff)).toNat =
      a.toNat / 2 ^ 16 * 2 ^ 16 + b.toNat % 2 ^ 16 := by
  rw [UInt32.toNat_or, toNat_and_high (k := 16) rfl, toNat_and_low, Nat.mul_comm]
  exact (Nat.two_pow_add_eq_or_of_lt (Nat.mod_lt _ (by decide)) _).symm

end Address

namespace Span

/-! ## Spans -/

lemma mem_iff {s : Span} {a : Address} :
    a ∈ s ↔ s.start.toNat ≤ a.toNat ∧ a.toNat < s.stop.toNat := by
  show s.start ≤ a ∧ a < s.stop ↔ _
  rw [UInt32.le_iff_toNat_le, UInt32.lt_iff_toNat_lt]

lemma mem_mk {a b c : Address} : b ∈ (⟨a, c⟩ : Span) ↔ a.toNat ≤ b.toNat ∧ b.toNat < c.toNat :=
  mem_iff

lemma size_mk (a b : Address) : (⟨a, b⟩ : Span).size = b.toNat - a.toNat := rfl

lemma isEmpty_iff {s : Span} : s.isEmpty = true ↔ s.stop.toNat ≤ s.start.toNat := by
  rw [isEmpty, decide_eq_true_eq, UInt32.le_iff_toNat_le]

lemma toNat_succ_of_mem {s : Span} {a : Address} (h : a ∈ s) : (a + 1).toNat = a.toNat + 1 := by
  have hstop := s.stop.toNat_lt
  rw [mem_iff] at h
  exact Address.toNat_succ (by omega)

@[simp] lemma length_addresses (s : Span) : s.addresses.length = s.size := by
  simp [addresses, Address.consecutive]

/-- The addresses of a span that is cut in two. -/
lemma addresses_append {a b c : Address} (hab : a.toNat ≤ b.toNat) (hbc : b.toNat ≤ c.toNat) :
    (⟨a, c⟩ : Span).addresses = (⟨a, b⟩ : Span).addresses ++ (⟨b, c⟩ : Span).addresses := by
  have hsize : (⟨a, c⟩ : Span).size = (⟨a, b⟩ : Span).size + (⟨b, c⟩ : Span).size := by
    rw [size_mk, size_mk, size_mk]
    omega
  have hmiddle : a + UInt32.ofNat (⟨a, b⟩ : Span).size = b := by
    have hbound := b.toNat_lt
    rw [size_mk, ← UInt32.toNat_inj, Address.toNat_add_ofNat (by omega)]
    omega
  simp only [addresses, Address.consecutive, hsize, List.range_add, List.map_append, List.map_map]
  refine congrArg _ (List.map_congr_left fun i _ => ?_)
  rw [Function.comp_apply, UInt32.ofNat_add, ← UInt32.add_assoc, hmiddle]

/-- The list of a span holds exactly its members. -/
@[simp] lemma mem_addresses {s : Span} {a : Address} : a ∈ s.addresses ↔ a ∈ s := by
  have hstop := s.stop.toNat_lt
  by_cases hempty : s.stop.toNat ≤ s.start.toNat
  · have hsize : s.size = 0 := by
      unfold size
      omega
    rw [addresses, hsize, mem_iff]
    simp only [Address.consecutive, List.range_zero, List.map_nil, List.not_mem_nil, false_iff]
    omega
  · rw [addresses, Address.mem_consecutive (by unfold size; omega), mem_iff]
    unfold size
    omega

lemma pairwise_addresses (s : Span) : s.addresses.Pairwise (· < ·) := by
  have hstop := s.stop.toNat_lt
  have hstart := s.start.toNat_lt
  by_cases hempty : s.stop.toNat ≤ s.start.toNat
  · have hsize : s.size = 0 := by
      unfold size
      omega
    rw [addresses, hsize]
    exact List.Pairwise.nil
  · exact Address.pairwise_consecutive (by unfold size; omega)

lemma nodup_addresses (s : Span) : s.addresses.Nodup :=
  s.pairwise_addresses.imp fun h => UInt32.ne_of_lt h

lemma mem_inter {s t : Span} {a : Address} : a ∈ s.inter t ↔ a ∈ s ∧ a ∈ t := by
  simp only [mem_iff, inter, Address.toNat_max, Address.toNat_min]
  omega

/-- The test of all members of a span. -/
lemma all_iff {s : Span} {test : Address → Bool} : s.all test = true ↔ ∀ a ∈ s, test a = true := by
  have hstop := s.stop.toNat_lt
  have hstart := s.start.toNat_lt
  by_cases hempty : s.stop.toNat ≤ s.start.toNat
  · have hsize : s.size = 0 := by
      unfold size
      omega
    rw [all, hsize]
    simp only [Address.allConsecutive, true_iff]
    intro a ha
    rw [mem_iff] at ha
    omega
  · rw [all, Address.allConsecutive_iff (by unfold size; omega)]
    constructor
    · intro h a ha
      rw [mem_iff] at ha
      exact h a (by omega) (by unfold size; omega)
    · intro h a hle hlt
      exact h a (mem_iff.mpr ⟨hle, by unfold size at hlt; omega⟩)

end Span

end CodeSift
