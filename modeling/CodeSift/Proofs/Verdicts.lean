import CodeSift.Proofs.MapAsFunction
import CodeSift.Proofs.Reachability
import CodeSift.Proofs.Windows

/-!
# The verdicts of a review

A review passes a verdict on every block of guessed code.  This file says what the verdicts are and
what comes of them, without reference to how a review goes about it.

## Shares

A block is kept when it ends somewhere and its letters, its small numbers and its instructions have
the right share in it.  The limits are percentages, and the shares are compared with them after
rounding down.  For the least number of instructions this makes no difference.  For the two upper
limits it does: a share is within the limit as long as it stays below the next full percent, so that
a little more than the limit passes (`plausible_below_next_percent`,
`letters_over_half_are_plausible`).

## Rows

What is judged are the longest rows of adjacent suspicious instructions (`MaximalRow`).  A review
finds exactly these, judges each as the map was in the beginning, and turns the bytes of those that
are not plausible into data; all other bytes and all relations made elsewhere stay
(`review_reclassifies_implausible_rows`).
-/

namespace CodeSift

open Survey

/-! ## Shares of a block -/

namespace Signature

variable {part whole n : Nat} {s : Signature}

lemma percent?_of_fits (hfits : part * 100 < UInt64.size) : ∃ p, percent? part whole = some p := by
  rw [percent?, if_pos hfits]
  split
  · exact ⟨0, rfl⟩
  · exact ⟨_, rfl⟩

lemma percent?_eq_some_iff (h : 0 < whole) :
    percent? part whole = some n ↔ part * 100 < UInt64.size ∧ part * 100 / whole = n := by
  rw [percent?, if_neg (Nat.ne_of_gt h)]
  split
  · next hfits =>
    exact ⟨fun heq => ⟨hfits, Option.some.inj heq⟩, fun ⟨_, heq⟩ => congrArg some heq⟩
  · next hover => exact ⟨nofun, fun ⟨hfits, _⟩ => absurd hfits hover⟩

/-- A share rounded down is within a limit when it is below the next full percent. -/
lemma exists_percent?_le_iff (h : 0 < whole) :
    (∃ p ≤ n, percent? part whole = some p) ↔
      part * 100 < UInt64.size ∧ 100 * part < (n + 1) * whole := by
  rw [Nat.mul_comm 100 part, ← Nat.div_lt_iff_lt_mul h]
  simp only [percent?_eq_some_iff h]
  exact ⟨fun ⟨p, hp, hfits, heq⟩ => ⟨hfits, heq ▸ Nat.lt_succ_of_le hp⟩,
    fun ⟨hfits, hlt⟩ => ⟨_, Nat.le_of_lt_succ hlt, hfits, rfl⟩⟩

/-- A share rounded down reaches a limit when the share does. -/
lemma exists_le_percent?_iff (h : 0 < whole) :
    (∃ p, n ≤ p ∧ percent? part whole = some p) ↔
      part * 100 < UInt64.size ∧ n * whole ≤ 100 * part := by
  rw [Nat.mul_comm 100 part, ← Nat.le_div_iff_mul_le h]
  simp only [percent?_eq_some_iff h]
  exact ⟨fun ⟨p, hp, hfits, heq⟩ => ⟨hfits, heq ▸ hp⟩, fun ⟨hfits, hle⟩ => ⟨_, hle, hfits, rfl⟩⟩

/-- A test of a share passes, and so does what is looked at behind it. -/
lemma bind_limit_eq_some_true {share : Option Nat} {rest : Option Bool} :
    (share.bind fun p => if n < p then some false else rest) = some true ↔
      (∃ p ≤ n, share = some p) ∧ rest = some true := by
  cases share with
  | none => simp
  | some p =>
    by_cases hover : n < p
    · simp [hover]
    · simp [hover, Nat.le_of_not_lt hover]

/-- In fewer than twenty-two bytes, no share lies between forty and forty-one percent. -/
lemma share_le_of_lt_next (hsmall : whole < 22) (h : 100 * part < 41 * whole) :
    100 * part ≤ 40 * whole := by
  by_contra hover
  have hwhole : whole = 21 := by omega
  omega

/-- The block ends with a terminator or runs into code. -/
def Ends (s : Signature) : Prop := 0 < s.terminators ∨ s.flowsIntoCode = true

/-- The hundredfold counts are numbers of 64 bits. -/
structure Fits (s : Signature) : Prop where
  letters : s.letters * 100 < UInt64.size
  lowBytes : s.lowBytes * 100 < UInt64.size
  instructions : s.instructions * 100 < UInt64.size

/-- **The shares as they are meant**: not more than half letters, not more than forty percent small
numbers, and not fewer than fifteen instructions in a hundred bytes. -/
structure WithinLimits (s : Signature) : Prop where
  ends : s.Ends
  letters : 100 * s.letters ≤ 50 * s.bytes
  lowBytes : 100 * s.lowBytes ≤ 40 * s.bytes
  instructions : 15 * s.bytes ≤ 100 * s.instructions

/-- A verdict is reached by looking at all shares that have to be known. -/
lemma isPlausible?_eq_some_true_iff (h : 0 < s.bytes) :
    s.isPlausible? = some true ↔ s.Fits ∧ s.Ends ∧ 100 * s.letters < 51 * s.bytes ∧
      100 * s.lowBytes < 41 * s.bytes ∧ 15 * s.bytes ≤ 100 * s.instructions := by
  have hends : ¬(decide (s.terminators = 0) && !s.flowsIntoCode) = true ↔ s.Ends := by
    rw [Ends, Nat.pos_iff_ne_zero]
    cases s.flowsIntoCode <;> simp
  have hdense :
      (s.densityPercent?.bind fun p => some (decide (minDensityPercent ≤ p))) = some true ↔
      ∃ p, minDensityPercent ≤ p ∧ s.densityPercent? = some p := by
    simp [Option.bind_eq_some_iff, and_comm]
  have hverdict : s.isPlausible? = some true ↔ s.Ends ∧
      (∃ p ≤ maxLetterPercent, s.letterPercent? = some p) ∧
      (∃ p ≤ maxLowBytePercent, s.lowBytePercent? = some p) ∧
      ∃ p, minDensityPercent ≤ p ∧ s.densityPercent? = some p := by
    rw [← hends, ← hdense, ← bind_limit_eq_some_true, ← bind_limit_eq_some_true]
    unfold isPlausible?
    simp only [bind, pure]
    split
    · next hopen => simp [hopen]
    · next hopen => simp [hopen]
  unfold letterPercent? lowBytePercent? densityPercent? at hverdict
  rw [exists_percent?_le_iff h, exists_percent?_le_iff h, exists_le_percent?_iff h] at hverdict
  rw [hverdict]
  constructor
  · rintro ⟨hends, ⟨hletters, hfew⟩, ⟨hlow, hlittle⟩, hinstructions, hmany⟩
    exact ⟨⟨hletters, hlow, hinstructions⟩, hends, hfew, hlittle, hmany⟩
  · rintro ⟨hfits, hends, hfew, hlittle, hmany⟩
    exact ⟨hends, ⟨hfits.letters, hfew⟩, ⟨hfits.lowBytes, hlittle⟩, hfits.instructions, hmany⟩

lemma Fits.exists_verdict (hfits : s.Fits) : ∃ verdict, s.isPlausible? = some verdict := by
  obtain ⟨p, hp⟩ := @percent?_of_fits s.letters s.bytes hfits.letters
  obtain ⟨q, hq⟩ := @percent?_of_fits s.lowBytes s.bytes hfits.lowBytes
  obtain ⟨r, hr⟩ := @percent?_of_fits s.instructions s.bytes hfits.instructions
  unfold isPlausible? letterPercent? lowBytePercent? densityPercent?
  simp only [hp, hq, hr, bind, pure, Option.bind_some]
  split
  · exact ⟨false, rfl⟩
  · split
    · exact ⟨false, rfl⟩
    · split
      · exact ⟨false, rfl⟩
      · exact ⟨_, rfl⟩

lemma WithinLimits.isPlausible (hs : s.WithinLimits) (h : 0 < s.bytes) (hfits : s.Fits) :
    s.isPlausible? = some true := by
  have hletters := hs.letters
  have hlow := hs.lowBytes
  exact (isPlausible?_eq_some_true_iff h).mpr ⟨hfits, hs.ends, by omega, by omega, hs.instructions⟩

/-- A plausible block that is not within the limits exceeds an upper one by less than a percent. -/
lemma withinLimits_or_over (h : 0 < s.bytes) (hpasses : s.isPlausible? = some true) :
    s.WithinLimits ∨ 50 * s.bytes < 100 * s.letters ∧ 100 * s.letters < 51 * s.bytes ∨
      40 * s.bytes < 100 * s.lowBytes ∧ 100 * s.lowBytes < 41 * s.bytes := by
  obtain ⟨-, hends, hletters, hlow, hdense⟩ := (isPlausible?_eq_some_true_iff h).mp hpasses
  by_cases hover : 50 * s.bytes < 100 * s.letters
  · exact Or.inr (Or.inl ⟨hover, hletters⟩)
  by_cases hlowOver : 40 * s.bytes < 100 * s.lowBytes
  · exact Or.inr (Or.inr ⟨hlowOver, hlow⟩)
  · exact Or.inl ⟨hends, by omega, by omega, hdense⟩

/-- In a block of fewer than twenty-two bytes no share lies that close to a limit. -/
lemma withinLimits_of_small (h : 0 < s.bytes) (hsmall : s.bytes < 22)
    (hpasses : s.isPlausible? = some true) : s.WithinLimits := by
  obtain ⟨-, hends, hletters, hlow, hdense⟩ := (isPlausible?_eq_some_true_iff h).mp hpasses
  exact ⟨hends, by omega, share_le_of_lt_next hsmall hlow, hdense⟩

/-- **A share passes as long as it stays below the next full percent.**  There is a verdict on every
signature whose hundredfold counts are numbers of 64 bits, and no other signature is plausible.  Of
those, a block within the limits is always plausible, and a plausible block is within the limits
unless one of the two upper limits is exceeded by less than a percent; in a block of fewer than
twenty-two bytes no share lies that close to a limit. -/
theorem plausible_below_next_percent (s : Signature) (h : 0 < s.bytes) :
    (s.isPlausible? = some true ↔ s.Fits ∧ s.Ends ∧ 100 * s.letters < 51 * s.bytes ∧
      100 * s.lowBytes < 41 * s.bytes ∧ 15 * s.bytes ≤ 100 * s.instructions) ∧
    (s.Fits → ∃ verdict, s.isPlausible? = some verdict) ∧
    (s.Fits → s.WithinLimits → s.isPlausible? = some true) ∧
    (s.isPlausible? = some true → s.WithinLimits ∨
      50 * s.bytes < 100 * s.letters ∧ 100 * s.letters < 51 * s.bytes ∨
      40 * s.bytes < 100 * s.lowBytes ∧ 100 * s.lowBytes < 41 * s.bytes) ∧
    (s.Fits → s.bytes < 22 → (s.isPlausible? = some true ↔ s.WithinLimits)) := by
  refine ⟨isPlausible?_eq_some_true_iff h, Fits.exists_verdict,
    fun hfits hs => hs.isPlausible h hfits, withinLimits_or_over h,
    fun hfits hsmall => ⟨withinLimits_of_small h hsmall, fun hs => ?_⟩⟩
  exact hs.isPlausible h hfits

/-- Fifty-one bytes of which twenty-six are letters. -/
def halfLetters : Signature := { bytes := 51, instructions := 20, letters := 26, terminators := 1 }

/-- Twenty-two bytes of which nine are small numbers. -/
def manyLowBytes : Signature := { bytes := 22, instructions := 10, lowBytes := 9, terminators := 1 }

/-- **More than half letters may pass**, and so may more than forty percent small numbers. -/
theorem letters_over_half_are_plausible :
    (halfLetters.isPlausible? = some true ∧ ¬halfLetters.WithinLimits) ∧
      manyLowBytes.isPlausible? = some true ∧ ¬manyLowBytes.WithinLimits :=
  ⟨⟨by decide, fun h => absurd h.letters (by decide)⟩, by decide,
    fun h => absurd h.lowBytes (by decide)⟩

/-- In both blocks only one limit is exceeded, by less than a percent. -/
theorem plausible_below_next_percent_half :
    0 < halfLetters.bytes ∧ 0 < manyLowBytes.bytes ∧
      (50 * 51 < 100 * halfLetters.letters ∧ 100 * halfLetters.letters < 51 * 51) ∧
      (40 * 22 < 100 * manyLowBytes.lowBytes ∧ 100 * manyLowBytes.lowBytes < 41 * 22) := by
  have hhalf := (plausible_below_next_percent halfLetters (by decide)).1.mp (by decide)
  have hmany := (plausible_below_next_percent manyLowBytes (by decide)).1.mp (by decide)
  exact ⟨by decide, by decide, ⟨by decide, hhalf.2.2.1⟩, by decide, hmany.2.2.2.1⟩

end Signature

/-! ## Rows of suspicious instructions -/

/-- A span that holds addresses and lies in another begins no earlier and ends no later. -/
lemma Span.bounds_of_subset {s t : Span} (hnonempty : s.start.toNat < s.stop.toNat)
    (h : ∀ b ∈ s, b ∈ t) : t.start.toNat ≤ s.start.toNat ∧ s.stop.toNat ≤ t.stop.toNat := by
  have hfirst := Span.mem_iff.mp (h s.start (Span.mem_iff.mpr ⟨Nat.le_refl _, hnonempty⟩))
  refine ⟨hfirst.1, ?_⟩
  by_contra hlt
  -- the address at which the other span stops lies in this one
  have hlast := Span.mem_iff.mp (h t.stop (Span.mem_iff.mpr ⟨by omega, by omega⟩))
  omega

/-- Spans that hold the same addresses, and hold some, are one. -/
lemma Span.eq_of_subset {s t : Span} (hs : s.start.toNat < s.stop.toNat)
    (ht : t.start.toNat < t.stop.toNat) (hst : ∀ b ∈ s, b ∈ t) (hts : ∀ b ∈ t, b ∈ s) : s = t := by
  obtain ⟨hstart, hstop⟩ := Span.bounds_of_subset hs hst
  obtain ⟨hstart', hstop'⟩ := Span.bounds_of_subset ht hts
  obtain ⟨first, last⟩ := s
  obtain ⟨first', last'⟩ := t
  obtain rfl : first = first' := UInt32.toNat_inj.mp (Nat.le_antisymm hstart' hstart)
  obtain rfl : last = last' := UInt32.toNat_inj.mp (Nat.le_antisymm hstop hstop')
  rfl

namespace CodeBlocks

variable {v : Survey} {m : ByteMap} {x : ReferenceIndex} {a b c : Address}
  {i : Instruction} {s t : Span} {spans : List Span}

/-- A row of adjacent suspicious instructions, from the first byte to behind the last. -/
inductive Row (v : Survey) (m : ByteMap) : Span → Prop
  | single {a : Address} {i : Instruction} (stands : v.Stands m a i)
      (suspicious : isSuspicious (m.marks a) = true) : Row v m ⟨a, i.stop⟩
  | join {a b c : Address} (first : Row v m ⟨a, b⟩) (second : Row v m ⟨b, c⟩) : Row v m ⟨a, c⟩

/-- A row that is part of no other. -/
structure MaximalRow (v : Survey) (m : ByteMap) (s : Span) : Prop where
  row : Row v m s
  maximal {t : Span} : Row v m t → (∀ b ∈ s, b ∈ t) → t = s

lemma Row.nonempty (hv : v.Proper) (h : Row v m s) : s.start.toNat < s.stop.toNat := by
  induction h with
  | single hi _ => exact hv.lt_stop hi.reads
  | join _ _ hfirst hsecond => exact Nat.lt_trans hfirst hsecond

/-- Every byte of a row belongs to a suspicious instruction. -/
lemma Row.covered (hv : v.Proper) (hm : v.Laid m) (h : Row v m s) :
    ∀ b ∈ s, ∃ t ∈ suspects m, b ∈ t := by
  induction h with
  | single hi hsuspicious =>
    exact fun b hb => ⟨_, (mem_suspects_iff hv hm).mpr ⟨_, hi, rfl, hsuspicious⟩, hb⟩
  | @join a b c _ _ hfirst hsecond =>
    intro y hy
    obtain ⟨hle, hlt⟩ := Span.mem_mk.mp hy
    by_cases hyb : y.toNat < b.toNat
    · exact hfirst y (Span.mem_mk.mpr ⟨hle, hyb⟩)
    · exact hsecond y (Span.mem_mk.mpr ⟨Nat.not_lt.mp hyb, hlt⟩)

/-- **A row lies in one block.** -/
lemma Row.exists_block (hv : v.Proper) (hm : v.Laid m) (h : Row v m t) :
    ∃ s ∈ blocks m, ∀ b ∈ t, b ∈ s :=
  (apart_suspects hv hm).exists_block_of_covered (h.nonempty hv) (h.covered hv hm)

lemma row_of_mem_blocks (hv : v.Proper) (hm : v.Laid m) : ∀ s ∈ blocks m, Row v m s := by
  refine forall_mem_foldr_extend Row.join fun s hs => ?_
  obtain ⟨i, hi, hstop, hsuspicious⟩ := (mem_suspects_iff hv hm).mp hs
  have hrow := Row.single hi hsuspicious
  rw [← hstop] at hrow
  exact hrow

/-- **The blocks are the maximal rows.** -/
lemma mem_blocks_iff (hv : v.Proper) (hm : v.Laid m) : s ∈ blocks m ↔ MaximalRow v m s := by
  constructor
  · intro hs
    have hrow := row_of_mem_blocks hv hm s hs
    have hnonempty := hrow.nonempty hv
    have hstart : s.start ∈ s := Span.mem_iff.mpr ⟨Nat.le_refl _, hnonempty⟩
    refine ⟨hrow, fun {t} ht hsub => ?_⟩
    -- the longer row lies in one block, which can only be this one
    obtain ⟨block, hblock, hmem⟩ := ht.exists_block hv hm
    obtain rfl := (apart_suspects hv hm).eq_of_mem hblock hs (hmem _ (hsub _ hstart)) hstart
    exact Span.eq_of_subset (ht.nonempty hv) hnonempty hmem hsub
  · intro h
    obtain ⟨block, hblock, hmem⟩ := h.row.exists_block hv hm
    rw [← h.maximal (row_of_mem_blocks hv hm block hblock) hmem]
    exact hblock

/-! ## What a signature counts -/

/-- A row begins with an instruction. -/
lemma Row.start (h : Row v m s) : (m.marks s.start).start = true := by
  induction h with
  | single hi _ => exact hi.start
  | join _ _ hfirst _ => exact hfirst

/-- Behind an instruction of a row, the row ends or goes on with the next. -/
lemma Row.next (hv : v.Proper) (hm : v.Laid m) (h : Row v m s) (ha : a ∈ s) (hi : v.Stands m a i) :
    i.stop = s.stop ∨ i.stop ∈ s ∧ (m.marks i.stop).start = true := by
  induction h with
  | @single c j hj _ =>
    obtain rfl := hi.eq_of_mem hv hm hj ((hv.mem_span_iff hi.reads).mpr (Or.inl rfl)) ha
    obtain rfl := Except.ok.inj (hi.reads.symm.trans hj.reads)
    exact Or.inl rfl
  | @join c d e hfirst hsecond ihfirst ihsecond =>
    have hcd := hfirst.nonempty hv
    have hde := hsecond.nonempty hv
    obtain ⟨hle, hlt⟩ := Span.mem_mk.mp ha
    by_cases had : a.toNat < d.toNat
    · rcases ihfirst (Span.mem_mk.mpr ⟨hle, had⟩) with hstop | ⟨hmem, hstart⟩
      · rw [hstop]
        exact Or.inr ⟨Span.mem_mk.mpr ⟨Nat.le_of_lt hcd, hde⟩, hsecond.start⟩
      · rw [Span.mem_mk] at hmem
        exact Or.inr ⟨Span.mem_mk.mpr ⟨hmem.1, Nat.lt_trans hmem.2 hde⟩, hstart⟩
    · rcases ihsecond (Span.mem_mk.mpr ⟨Nat.not_lt.mp had, hlt⟩) with hstop | ⟨hmem, hstart⟩
      · exact Or.inl hstop
      · rw [Span.mem_mk] at hmem
        exact Or.inr ⟨Span.mem_mk.mpr ⟨Nat.le_of_lt (Nat.lt_of_lt_of_le hcd hmem.1),
          hmem.2⟩, hstart⟩

/-- The instructions that start in a span and pass a test, by their addresses. -/
def standing (v : Survey) (m : ByteMap) (test : Instruction → Bool) (s : Span) : Set Address :=
  {a | a ∈ s ∧ ∃ i, v.Stands m a i ∧ test i = true}

lemma finite_standing (v : Survey) (m : ByteMap) (test : Instruction → Bool) (s : Span) :
    (standing v m test s).Finite :=
  (List.finite_toSet s.addresses).subset fun _ ha => Span.mem_addresses.mpr ha.1

lemma ncard_standing_empty (v : Survey) (m : ByteMap) (test : Instruction → Bool) (a : Address) :
    (standing v m test ⟨a, a⟩).ncard = 0 := by
  have hempty : standing v m test ⟨a, a⟩ = ∅ := by
    ext b
    simp only [standing, Set.mem_ofPred_eq, Span.mem_mk, Set.mem_empty_iff_false, iff_false]
    omega
  rw [hempty, Set.ncard_empty]

/-- No instruction starts inside another, so the next to count is the one behind. -/
lemma ncard_standing_step (hv : v.Proper) (hm : v.Laid m) (hi : v.Stands m a i)
    (hle : i.stop.toNat ≤ c.toNat) (test : Instruction → Bool) :
    (standing v m test ⟨a, c⟩).ncard =
      (standing v m test ⟨i.stop, c⟩).ncard + if test i then 1 else 0 := by
  have hlt := hv.lt_stop hi.reads
  have hsplit : ∀ b, b ∈ standing v m test ⟨a, c⟩ ↔
      b = a ∧ test i = true ∨ b ∈ standing v m test ⟨i.stop, c⟩ := by
    intro b
    simp only [standing, Set.mem_ofPred_eq, Span.mem_mk]
    constructor
    · rintro ⟨⟨hab, hbc⟩, j, hj, hpass⟩
      by_cases heq : b = a
      · subst heq
        obtain rfl := Except.ok.inj (hi.reads.symm.trans hj.reads)
        exact Or.inl ⟨rfl, hpass⟩
      · rw [← UInt32.toNat_inj] at heq
        exact Or.inr ⟨⟨hi.stop_le_of_not_body hv (hm.separate hj.start) (by omega), hbc⟩, j, hj,
          hpass⟩
    · rintro (⟨rfl, hpass⟩ | ⟨⟨hstop, hbc⟩, hj⟩)
      · exact ⟨⟨Nat.le_refl _, by omega⟩, i, hi, hpass⟩
      · exact ⟨⟨by omega, hbc⟩, hj⟩
  have hout : a ∉ standing v m test ⟨i.stop, c⟩ := by
    rintro ⟨hmem, -⟩
    rw [Span.mem_mk] at hmem
    omega
  cases hpass : test i with
  | false =>
    have heq : standing v m test ⟨a, c⟩ = standing v m test ⟨i.stop, c⟩ := by
      ext b
      simp [hsplit, hpass]
    rw [heq]
    rfl
  | true =>
    have heq : standing v m test ⟨a, c⟩ = insert a (standing v m test ⟨i.stop, c⟩) := by
      ext b
      simp [hsplit, hpass]
    rw [heq, Set.ncard_insert_of_notMem hout (finite_standing v m test _)]
    rfl

/-- **Counting along a row** meets every instruction of it. -/
lemma countInstructions_eq (hv : v.Proper) (hm : v.Laid m) (hrow : Row v m s) {fuel : Nat}
    (sig : Signature) (ha : a = s.stop ∨ a ∈ s ∧ (m.marks a).start = true)
    (hfuel : s.stop.toNat - a.toNat ≤ fuel) :
    countInstructions v.image v.decoder s.stop fuel a sig = { sig with
      instructions := sig.instructions + (standing v m (fun _ => true) ⟨a, s.stop⟩).ncard
      terminators :=
        sig.terminators + (standing v m Instruction.isTerminator ⟨a, s.stop⟩).ncard } := by
  -- the fuel is never used up before the end of the row, as every instruction has bytes
  induction fuel generalizing a sig with
  | zero =>
    rcases ha with rfl | ⟨ha, -⟩
    · simp only [countInstructions, ncard_standing_empty, Nat.add_zero]
    · rw [Span.mem_iff] at ha
      omega
  | succ fuel ih =>
    rcases ha with rfl | ⟨ha, hstart⟩
    · rw [countInstructions, if_neg (UInt32.lt_irrefl _)]
      simp only [ncard_standing_empty, Nat.add_zero]
    · obtain ⟨i, hi⟩ := hm.starts hstart
      have hnext := hrow.next hv hm ha hi
      have hlt := hv.lt_stop hi.reads
      have hle : i.stop.toNat ≤ s.stop.toNat := by
        rcases hnext with hstop | ⟨hmem, -⟩
        · rw [hstop]
        · exact Nat.le_of_lt (Span.mem_iff.mp hmem).2
      have hread : v.decoder (v.image.window a) a = .ok i := hi.reads
      rw [countInstructions, if_pos ha.2, hread]
      dsimp only
      rw [ih _ hnext (by omega), ncard_standing_step hv hm hi hle, ncard_standing_step hv hm hi hle]
      cases i.isTerminator <;> simp [Nat.add_assoc, Nat.add_comm]

lemma countInstructions_le (image : Image) (decoder : Decoder) (stop : Address) (fuel : Nat)
    (a : Address) (sig : Signature) :
    (countInstructions image decoder stop fuel a sig).instructions ≤ sig.instructions + fuel ∧
      (countInstructions image decoder stop fuel a sig).letters = sig.letters ∧
      (countInstructions image decoder stop fuel a sig).lowBytes = sig.lowBytes := by
  induction fuel generalizing a sig with
  | zero => exact ⟨Nat.le_refl _, rfl, rfl⟩
  | succ fuel ih =>
    unfold countInstructions
    split
    · split
      · exact ⟨Nat.le_add_right _ _, rfl, rfl⟩
      · next i _ =>
        obtain ⟨hinstructions, hletters, hlow⟩ := ih i.stop { sig with
          instructions := sig.instructions + 1
          terminators := if i.isTerminator then sig.terminators + 1 else sig.terminators }
        exact ⟨by dsimp only at hinstructions; omega, hletters, hlow⟩
    · exact ⟨Nat.le_add_right _ _, rfl, rfl⟩

/-- **There is a verdict on every block**: it has fewer bytes than there are addresses. -/
lemma fits_signature (image : Image) (decoder : Decoder) (m : ByteMap) (block : Span) :
    (signature image decoder m block).Fits := by
  have hsize : block.size < 2 ^ 32 := by
    have hbound := block.stop.toNat_lt
    unfold Span.size
    omega
  have hfilter : ∀ test : UInt8 → Bool,
      ((block.addresses.map fun a => (image.byte? a).getD 0).filter test).length ≤ block.size := by
    intro test
    refine (List.length_filter_le _ _).trans ?_
    rw [List.length_map, Span.length_addresses]
  have hletters := hfilter isLetter
  have hlow := hfilter fun b => b ≤ 3
  unfold signature
  dsimp only
  have hfits : ∀ n ≤ block.size, n * 100 < UInt64.size := by
    intro n hn
    unfold UInt64.size
    omega
  exact ⟨hfits _ ((countInstructions_le ..).2.1.trans_le hletters),
    hfits _ ((countInstructions_le ..).2.2.trans_le hlow),
    hfits _ ((countInstructions_le ..).1.trans_eq (Nat.zero_add _))⟩

/-- **What the signature of a row counts**: its bytes and the instructions that stand in it. -/
structure Counts (v : Survey) (m : ByteMap) (s : Span) (sig : Signature) : Prop where
  bytes : sig.bytes = {b | b ∈ s}.ncard
  letters : sig.letters = {b | b ∈ s ∧ ∃ c, v.image.byte? b = some c ∧ isLetter c = true}.ncard
  lowBytes : sig.lowBytes = {b | b ∈ s ∧ ∃ c, v.image.byte? b = some c ∧ c ≤ 3}.ncard
  instructions : sig.instructions = {a | a ∈ s ∧ ∃ i, v.Stands m a i}.ncard
  terminators : sig.terminators = {a | a ∈ s ∧ ∃ i, v.Stands m a i ∧ i.isTerminator = true}.ncard
  flowsIntoCode : sig.flowsIntoCode = (m.marks s.stop).start

/-- Every byte of a row is loaded. -/
lemma Row.exists_byte? (hv : v.Proper) (hm : v.Laid m) (h : Row v m s) (hb : b ∈ s) :
    ∃ c, v.image.byte? b = some c := by
  obtain ⟨t, ht, hbt⟩ := h.covered hv hm b hb
  obtain ⟨i, hi, hstop, -⟩ := (mem_suspects_iff hv hm).mp ht
  have hlength := hv.faithful.length_le hi.reads
  have hend := hv.toNat_stop hi.reads
  rw [Span.mem_iff, hstop] at hbt
  exact Image.exists_byte?_of_mem_window hv.placed hbt.1 (by omega)

/-- The bytes of a row that pass a test, counted along the row. -/
lemma Row.length_filter_bytes (hv : v.Proper) (hm : v.Laid m) (h : Row v m s)
    (test : UInt8 → Bool) :
    ((s.addresses.map fun a => (v.image.byte? a).getD 0).filter test).length =
      {b | b ∈ s ∧ ∃ c, v.image.byte? b = some c ∧ test c = true}.ncard := by
  have hmem : {b | b ∈ s ∧ ∃ c, v.image.byte? b = some c ∧ test c = true} =
      {b | b ∈ s.addresses.filter fun a => test ((v.image.byte? a).getD 0)} := by
    ext b
    simp only [Set.mem_ofPred_eq, List.mem_filter, Span.mem_addresses]
    refine and_congr_right fun hb => ?_
    obtain ⟨c, hc⟩ := h.exists_byte? hv hm hb
    simp [hc]
  rw [hmem, ncard_setOf_mem (s.nodup_addresses.filter _), List.filter_map, List.length_map]
  rfl

lemma counts_signature (hv : v.Proper) (hm : v.Laid m) (h : Row v m s) :
    Counts v m s (signature v.image v.decoder m s) := by
  have hbytes : s.size = {b | b ∈ s}.ncard := by
    rw [← Span.length_addresses, ← ncard_setOf_mem s.nodup_addresses]
    simp only [Span.mem_addresses]
  have hstart : s.start ∈ s := Span.mem_iff.mpr ⟨Nat.le_refl _, h.nonempty hv⟩
  have hfuel : s.stop.toNat - s.start.toNat ≤ s.size := Nat.le_refl _
  unfold signature
  dsimp only
  rw [countInstructions_eq hv hm h _ (Or.inr ⟨hstart, h.start⟩) hfuel]
  refine ⟨hbytes, h.length_filter_bytes hv hm isLetter, ?_, ?_, Nat.zero_add _, rfl⟩
  · simpa using h.length_filter_bytes hv hm fun c => decide (c ≤ 3)
  · simp [standing]

/-! ## What comes of a verdict -/

/-- The byte lies in a maximal row whose signature in the map is not plausible. -/
def Condemned (v : Survey) (m : ByteMap) (b : Address) : Prop :=
  ∃ s, MaximalRow v m s ∧ (signature v.image v.decoder m s).isPlausible? = some false ∧ b ∈ s

lemma mem_guilty_iff (hv : v.Proper) (hm : v.Laid m) :
    s ∈ guilty v m ↔
      MaximalRow v m s ∧ (signature v.image v.decoder m s).isPlausible? = some false := by
  obtain ⟨verdict, hverdict⟩ := (fits_signature v.image v.decoder m s).exists_verdict
  rw [guilty, List.mem_filter, mem_blocks_iff hv hm, isGuilty, hverdict]
  cases verdict <;> simp

lemma condemned_iff (hv : v.Proper) (hm : v.Laid m) :
    Condemned v m b ↔ ∃ s ∈ guilty v m, b ∈ s := by
  simp only [Condemned, mem_guilty_iff hv hm, and_assoc]

/-- **An instruction is convicted as a whole**, or not at all. -/
lemma exists_mem_guilty_of_stands (hv : v.Proper) (hm : v.Laid m) (hi : v.Stands m a i)
    (hb : b ∈ (⟨a, i.stop⟩ : Span)) (hc : c ∈ (⟨a, i.stop⟩ : Span)) (h : ∃ s ∈ guilty v m, b ∈ s) :
    ∃ s ∈ guilty v m, c ∈ s := by
  obtain ⟨s, hs, hbs⟩ := h
  have hblock := (List.mem_filter.mp hs).1
  obtain ⟨a', j, hj, hsuspicious, hbj⟩ := exists_stands_of_mem_blocks hv hm hblock hbs
  obtain rfl := hi.eq_of_mem hv hm hj hb hbj
  -- the instruction is a row, so it lies in one block, and that is the guilty one
  obtain ⟨block, hmem, hrow⟩ := (Row.single hi hsuspicious).exists_block hv hm
  obtain rfl := (apart_suspects hv hm).eq_of_mem hmem hblock (hrow b hb) hbs
  exact ⟨block, hs, hrow c hc⟩

/-- **A review leaves the map laid out in instructions.** -/
lemma laid_review (hv : v.Proper) (hm : v.Laid m) (x : ReferenceIndex) :
    v.Laid (review v.image v.decoder m x).map := by
  have hcell := cell_review hv hm x
  generalize (review v.image v.decoder m x).map = m' at hcell
  have hspared : ∀ {b}, (m'.marks b).isCode = true → ¬∃ s ∈ guilty v m, b ∈ s := by
    intro b hcode hguilty
    rw [ByteMap.marks, hcell, if_pos hguilty] at hcode
    cases hcode
  have hmarks : ∀ {b}, (¬∃ s ∈ guilty v m, b ∈ s) → m'.marks b = m.marks b := by
    intro b hout
    rw [ByteMap.marks, hcell, if_neg hout, ByteMap.marks]
  have hbody : ∀ {b}, (m.marks b).body = false → (m'.marks b).body = false := by
    intro b hb
    rw [ByteMap.marks, hcell]
    split
    · rfl
    · exact hb
  -- an instruction whose start is spared is spared as a whole
  have hstands : ∀ {a i}, (¬∃ s ∈ guilty v m, a ∈ s) → v.Stands m a i → v.Stands m' a i := by
    intro a i hout hi
    refine ⟨hi.reads, by rw [hmarks hout, hi.start], fun b hb => ?_, hbody hi.ends⟩
    rw [hmarks, hi.body b hb]
    have hself : a ∈ (⟨a, i.stop⟩ : Span) := (hv.mem_span_iff hi.reads).mpr (Or.inl rfl)
    have hmem := (hv.mem_span_iff hi.reads).mpr (Or.inr hb)
    exact fun hguilty => hout (exists_mem_guilty_of_stands hv hm hi hmem hself hguilty)
  refine ⟨fun {a} hstart => ?_, fun {a} hstart => ?_, fun {b} hb => ?_⟩
  · have hout := hspared (b := a) (by rw [Marks.isCode, hstart, Bool.true_or])
    rw [hmarks hout] at hstart ⊢
    exact hm.separate hstart
  · have hout := hspared (b := a) (by rw [Marks.isCode, hstart, Bool.true_or])
    rw [hmarks hout] at hstart
    obtain ⟨i, hi⟩ := hm.starts hstart
    exact ⟨i, hstands hout hi⟩
  · have hout := hspared (b := b) (by rw [Marks.isCode, hb, Bool.or_true])
    rw [hmarks hout] at hb
    obtain ⟨a, i, hi, htail⟩ := hm.bodies hb
    refine ⟨a, i, hstands (fun hguilty => hout ?_) hi, htail⟩
    have hself : a ∈ (⟨a, i.stop⟩ : Span) := (hv.mem_span_iff hi.reads).mpr (Or.inl rfl)
    have hmem := (hv.mem_span_iff hi.reads).mpr (Or.inr htail)
    exact exists_mem_guilty_of_stands hv hm hi hself hmem hguilty

/-- The relation is made by a condemned byte. -/
def MadeByCondemned (v : Survey) (m : ByteMap) (r : CrossReference) : Prop :=
  r.isForward = true ∧ Condemned v m r.site

/-- Convicting blocks takes the relations made in them and their partners from an index of pairs,
and leaves it one. -/
lemma index_foldl_convict (hpaired : x.Paired) :
    (spans.foldl convict (m, x)).2.Paired ∧ ∀ r, r ∈ (spans.foldl convict (m, x)).2 ↔
      r ∈ x ∧ ¬(r.isForward = true ∧ ∃ s ∈ spans, r.site ∈ s) ∧
        ¬(r.partner.isForward = true ∧ ∃ s ∈ spans, r.partner.site ∈ s) := by
  induction spans generalizing m x with
  | nil => simp [hpaired]
  | cons block rest ih =>
    obtain ⟨hafter, hmem⟩ := ih (m := (convict (m, x) block).1) (hpaired.eraseSites block)
    refine ⟨hafter, fun r => (hmem r).trans ?_⟩
    rw [hpaired.mem_eraseSites]
    simp only [List.exists_mem_cons_iff, and_or_left, not_or]
    constructor
    · rintro ⟨⟨hr, hblock, hpartner⟩, hrest, hpartners⟩
      exact ⟨hr, ⟨hblock, hrest⟩, hpartner, hpartners⟩
    · rintro ⟨hr, ⟨hblock, hrest⟩, hpartner, hpartners⟩
      exact ⟨⟨hr, hblock, hpartner⟩, hrest, hpartners⟩

/-! ## What a review counts -/

lemma Apart.nodup (h : Apart spans) : spans.Nodup := by
  refine h.ascending.imp_of_mem fun {s t} hs _ hle heq => ?_
  have hnonempty := h.nonempty hs
  rw [heq] at hle hnonempty
  omega

/-- Spans that lie apart have as many addresses as their sizes say. -/
lemma Apart.ncard_addresses (h : Apart spans) :
    {b | ∃ s ∈ spans, b ∈ s}.ncard = (spans.map Span.size).sum := by
  have hmem : {b | ∃ s ∈ spans, b ∈ s} = {b | b ∈ spans.flatMap Span.addresses} := by
    ext b
    simp only [Set.mem_ofPred_eq, List.mem_flatMap, Span.mem_addresses]
  have hnodup : (spans.flatMap Span.addresses).Nodup := by
    refine List.nodup_flatMap.mpr
      ⟨fun s _ => s.nodup_addresses, h.ascending.imp fun hle b hs ht => ?_⟩
    rw [Span.mem_addresses, Span.mem_iff] at hs ht
    omega
  rw [hmem, ncard_setOf_mem hnodup, List.length_flatMap]
  simp only [Span.length_addresses]

/-- A byte differs after a review exactly if it is condemned. -/
lemma cell_review_ne_iff (hv : v.Proper) (hm : v.Laid m) (x : ReferenceIndex) :
    (review v.image v.decoder m x).map.cell b ≠ m.cell b ↔ ∃ s ∈ guilty v m, b ∈ s := by
  rw [cell_review hv hm]
  split
  · next hguilty =>
    refine iff_of_true (fun heq => ?_) hguilty
    obtain ⟨s, hs, hb⟩ := hguilty
    -- the byte was code, and is so no longer
    have hcode := isCode_of_mem_blocks hv hm (List.mem_filter.mp hs).1 hb
    rw [ByteMap.marks, ← heq] at hcode
    cases hcode
  · next hguilty => exact iff_of_false (fun hne => hne rfl) hguilty

/-- **The verdicts about the rows of a map, carried out.**  Condemned bytes are plain data, and all
others are as they were; the index has lost what was made at condemned bytes, both ends, and nothing
else; map and index are in order again; and the numbers are those of the rows, of the rows turned
into data, and of the bytes that changed. -/
structure CarriedOut (v : Survey) (m : ByteMap) (x : ReferenceIndex) (o : Outcome) : Prop where
  condemned {b : Address} : Condemned v m b → o.map.cell b = ⟨{ data := true }, .raw⟩
  spared {b : Address} : ¬Condemned v m b → o.map.cell b = m.cell b
  changed {b : Address} : o.map.cell b ≠ m.cell b ↔ Condemned v m b
  coverage : o.map.coverage = m.coverage
  laid : v.Laid o.map
  relations {r : CrossReference} :
    r ∈ o.index ↔ r ∈ x ∧ ¬MadeByCondemned v m r ∧ ¬MadeByCondemned v m r.partner
  paired : o.index.Paired
  mirrored : o.index.Mirrored
  signatures {s : Span} : MaximalRow v m s → Counts v m s (signature v.image v.decoder m s)
  blocksReviewed : o.blocksReviewed = {s | MaximalRow v m s}.ncard
  blocksReclassified : o.blocksReclassified =
    {s | MaximalRow v m s ∧ (signature v.image v.decoder m s).isPlausible? = some false}.ncard
  bytesReclassified : o.bytesReclassified = {b | o.map.cell b ≠ m.cell b}.ncard

/-- **A review turns the implausible rows into data, and nothing else.**  The map may be any whose
code is laid out in instructions, and the index any that holds its relations by both ends. -/
theorem review_reclassifies_implausible_rows {file : Array UInt8} {layout : Layout}
    (hload : Image.load file layout = .ok v.image) (hdecoder : v.decoder.Faithful) (hm : v.Laid m)
    (hpaired : x.Paired) (hmirrored : x.Mirrored) :
    CarriedOut v m x (review v.image v.decoder m x) := by
  have hv : v.Proper := ⟨Image.placed_of_load hload, hdecoder⟩
  have hcell := cell_review hv hm x
  have hreview := review_eq hv hm x
  have hindex : (review v.image v.decoder m x).index = ((guilty v m).foldl convict (m, x)).2 :=
    congrArg Outcome.index hreview
  obtain ⟨hafter, hmem⟩ := @index_foldl_convict m x (guilty v m) hpaired
  constructor
  case condemned =>
    intro b hb
    rw [hcell, if_pos ((condemned_iff hv hm).mp hb)]
    rfl
  case spared =>
    intro b hb
    rw [hcell, if_neg fun hguilty => hb ((condemned_iff hv hm).mpr hguilty)]
  case changed => exact fun {b} => (cell_review_ne_iff hv hm x).trans (condemned_iff hv hm).symm
  case coverage =>
    rw [hreview]
    exact coverage_foldl_convict (m, x) (guilty v m)
  case laid => exact laid_review hv hm x
  case relations =>
    intro r
    rw [hindex, hmem, MadeByCondemned, MadeByCondemned, condemned_iff hv hm, condemned_iff hv hm]
  case paired =>
    rw [hindex]
    exact hafter
  case mirrored =>
    rw [hindex]
    exact mirrored_foldl_convict hmirrored
  case signatures => exact fun {s} hs => counts_signature hv hm hs.row
  case blocksReviewed =>
    simp only [← mem_blocks_iff hv hm]
    rw [hreview, ncard_setOf_mem (apart_blocks hv hm).nodup]
    exact Nat.zero_add _
  case blocksReclassified =>
    simp only [← mem_guilty_iff hv hm]
    rw [hreview, ncard_setOf_mem (apart_guilty hv hm).nodup]
    exact Nat.zero_add _
  case bytesReclassified =>
    simp only [cell_review_ne_iff hv hm]
    rw [hreview, (apart_guilty hv hm).ncard_addresses]
    exact Nat.zero_add _

/-- The map of the small survey with guesses before its review. -/
def guessedMap : ByteMap := (guessing.stateAt (fun _ => false) 4).map

/-- A relation made in the block at the first guess, and one that leads to it. -/
def guessedIndex : ReferenceIndex :=
  (ReferenceIndex.empty.insert ⟨.data, 0x101d, 0x1024⟩).insert ⟨.immediate, 0x1010, 0x101c⟩

/-- What the review makes of them. -/
def guessedOutcome : Outcome := review guessing.image guessing.decoder guessedMap guessedIndex

/-- Of the two blocks of guessed code the first is condemned, four bytes long.  The relation made
there goes, and the one that leads there stays. -/
theorem review_reclassifies_implausible_rows_guessing :
    Image.load guessFile guessImage.layout = .ok guessing.image ∧ guessing.Laid guessedMap ∧
      guessedIndex.Paired ∧ guessedIndex.Mirrored ∧
      Condemned guessing guessedMap 0x101d ∧ ¬Condemned guessing guessedMap 0x1024 ∧
      {s | MaximalRow guessing guessedMap s}.ncard = 2 ∧
      {b | guessedOutcome.map.cell b ≠ guessedMap.cell b}.ncard = 4 ∧
      (⟨.data, 0x101d, 0x1024⟩ : CrossReference) ∉ guessedOutcome.index ∧
      ⟨.immediate, 0x1010, 0x101c⟩ ∈ guessedOutcome.index := by
  have hload : Image.load guessFile guessImage.layout = .ok guessing.image := by decide +kernel
  have hdecoder : guessing.decoder.Faithful := Decoder.faithful_x86 .bits32 guessImage.span
  have hlaid : guessing.Laid guessedMap :=
    ((reachable_stateAt guessing (fun _ => false) 4).consistent ⟨Image.placed_of_load hload,
      hdecoder⟩).sound.laid
  have hpaired : guessedIndex.Paired := (ReferenceIndex.paired_empty.insert _).insert _
  have hmirrored : guessedIndex.Mirrored := (ReferenceIndex.mirrored_empty.insert _).insert _
  have houtcome : CarriedOut guessing guessedMap guessedIndex guessedOutcome :=
    review_reclassifies_implausible_rows hload hdecoder hlaid hpaired hmirrored
  have hcondemned : Condemned guessing guessedMap 0x101d := houtcome.changed.mp (by decide +kernel)
  have hspared : ∀ {a}, guessedOutcome.map.cell a = guessedMap.cell a →
      ¬Condemned guessing guessedMap a :=
    fun heq hcondemned => houtcome.changed.mpr hcondemned heq
  refine ⟨hload, hlaid, hpaired, hmirrored, hcondemned, hspared (by decide +kernel), ?_, ?_, ?_, ?_⟩
  · exact houtcome.blocksReviewed.symm.trans (by decide +kernel)
  · exact houtcome.bytesReclassified.symm.trans (by decide +kernel)
  · exact fun hmem => (houtcome.relations.mp hmem).2.1 ⟨rfl, hcondemned⟩
  · have hmem : ⟨.immediate, 0x1010, 0x101c⟩ ∈ guessedIndex :=
      ReferenceIndex.mem_insert.mpr (Or.inr (Or.inl rfl))
    refine houtcome.relations.mpr ⟨hmem, fun hmade => ?_, fun hmade => ?_⟩
    · exact hspared (by decide +kernel) hmade.2
    · exact absurd hmade.1 (by decide)

end CodeBlocks

end CodeSift
