import CodeSift.Proofs.CrossReferences
import CodeSift.Proofs.Tiling
import CodeSift.Review.CodeBlocks
import Mathlib.Algebra.GroupWithZero.Nat
import Mathlib.Data.List.Pairwise

/-!
# Reviewing guessed code cuts no instruction in two

All that a review needs of a map is that its code is laid out in instructions (`Survey.Laid`).  A
block to review is a row of adjacent instructions none of which starts at an anchor.  It begins with
the first of them and ends behind the last; on the map of a survey it can be cleared without cutting
an instruction in two (`ByteMap.Severable`).  A block never begins where another ends, for the two
would be one block; so the byte behind a block lies in no block at all, and addresses that all lie
in instructions of the row lie in one block.

It follows that the verdict about a block does not depend on what became of the others.  A review is
therefore two things one after the other: the blocks of the map that are not plausible are found,
and each of them is turned into data (`review_eq`).  This says what a review does to every byte
(`cell_review`), and that it is made of changes (`changes_review`).
-/

namespace CodeSift

open Survey

variable {v : Survey} {m m' : ByteMap} {a b c : Address} {i : Instruction}

/-! ## Maps laid out in instructions -/

/-- **The code of the map is laid out in instructions.**  No start is a body, at every start stands
the instruction that decodes there, and every body belongs to one that stands. -/
structure Survey.Laid (v : Survey) (m : ByteMap) : Prop where
  separate {a : Address} : (m.marks a).start = true → (m.marks a).body = false
  starts {a : Address} : (m.marks a).start = true → ∃ i, v.Stands m a i
  bodies {b : Address} : (m.marks b).body = true → ∃ a i, v.Stands m a i ∧ b ∈ tailOf a i

lemma Survey.Sound.laid (hm : v.Sound m) : v.Laid m :=
  ⟨fun {a} => (hm.tiled.exclusive a).body_of_start, hm.tiled.starts, hm.tiled.bodies⟩

/-- Two instructions that stand and share a byte are one. -/
lemma Survey.Stands.eq_of_mem (hv : v.Proper) (hm : v.Laid m) {j : Instruction}
    (hi : v.Stands m a i) (hj : v.Stands m c j) (hbi : b ∈ (⟨a, i.stop⟩ : Span))
    (hbj : b ∈ (⟨c, j.stop⟩ : Span)) : a = c := by
  -- neither starts inside the other, where the bytes are bodies
  have hai := hi.stop_le_of_not_body hv (hm.separate hj.start)
  have hcj := hj.stop_le_of_not_body hv (hm.separate hi.start)
  rw [Span.mem_mk] at hbi hbj
  rw [← UInt32.toNat_inj]
  by_contra hne
  omega

/-! ## Spans that can be cleared -/

/-- An instruction that starts at no anchor can be cleared. -/
lemma Survey.Stands.severable (hv : v.Proper) (hm : v.Sound m) (hi : v.Stands m a i)
    (hfree : (m.marks a).isAnchored = false) : m.Severable ⟨a, i.stop⟩ where
  code {x} hx := by
    obtain ⟨hle, hlt⟩ := Span.mem_mk.mp hx
    exact hi.isCode hv hle hlt
  free {x} hx := by
    obtain ⟨hle, hlt⟩ := Span.mem_mk.mp hx
    by_cases heq : a = x
    · rw [← heq, hfree]
    · rw [← UInt32.toNat_inj] at heq
      have hbody := hi.body x ((hv.mem_tailOf hi.reads).mpr ⟨by omega, hlt⟩)
      rw [Bool.eq_false_iff]
      intro hanchored
      rw [hm.free hanchored] at hbody
      cases hbody
  first := hm.laid.separate hi.start
  behind := hi.ends

namespace ByteMap.Severable

/-- Two adjacent spans that can be cleared can be cleared as one. -/
lemma join (h : m.Severable ⟨a, b⟩) (h' : m.Severable ⟨b, c⟩) : m.Severable ⟨a, c⟩ where
  code {x} hx := by
    obtain ⟨hle, hlt⟩ := Span.mem_mk.mp hx
    by_cases hxb : x.toNat < b.toNat
    · exact h.code (Span.mem_mk.mpr ⟨hle, hxb⟩)
    · exact h'.code (Span.mem_mk.mpr ⟨by omega, hlt⟩)
  free {x} hx := by
    obtain ⟨hle, hlt⟩ := Span.mem_mk.mp hx
    by_cases hxb : x.toNat < b.toNat
    · exact h.free (Span.mem_mk.mpr ⟨hle, hxb⟩)
    · exact h'.free (Span.mem_mk.mpr ⟨by omega, hlt⟩)
  first := h.first
  behind := h'.behind

/-- Whether a span can be cleared depends on its own bytes and the one behind it. -/
lemma congr {s : Span} (h : m.Severable s) (hle : s.start.toNat ≤ s.stop.toNat)
    (hmarks : ∀ x : Address, s.start.toNat ≤ x.toNat → m'.marks x = m.marks x) :
    m'.Severable s where
  code hx := by rw [hmarks _ (Span.mem_iff.mp hx).1, h.code hx]
  free hx := by rw [hmarks _ (Span.mem_iff.mp hx).1, h.free hx]
  first := by rw [hmarks _ (Nat.le_refl _), h.first]
  behind := by rw [hmarks _ hle, h.behind]

end ByteMap.Severable

/-! ## Joining spans -/

namespace CodeBlocks

section Joining

variable {s t : Span} {spans blocks : List Span}

/-- Ascending spans that hold addresses and do not overlap. -/
structure Apart (spans : List Span) : Prop where
  nonempty {s : Span} : s ∈ spans → s.start.toNat < s.stop.toNat
  ascending : spans.Pairwise fun s t => s.stop.toNat ≤ t.start.toNat

lemma Apart.nil : Apart [] := ⟨nofun, .nil⟩

lemma Apart.cons (h : Apart blocks) (hnonempty : s.start.toNat < s.stop.toNat)
    (hle : ∀ t ∈ blocks, s.stop.toNat ≤ t.start.toNat) : Apart (s :: blocks) where
  nonempty ht := by
    rcases List.mem_cons.mp ht with rfl | ht
    · exact hnonempty
    · exact h.nonempty ht
  ascending := List.pairwise_cons.mpr ⟨hle, h.ascending⟩

lemma Apart.tail (h : Apart (s :: blocks)) : Apart blocks :=
  ⟨fun ht => h.nonempty (List.mem_cons_of_mem _ ht), (List.pairwise_cons.mp h.ascending).2⟩

/-- Putting a span in front of blocks that lie behind it keeps them apart. -/
lemma Apart.extend (h : Apart blocks) (hnonempty : s.start.toNat < s.stop.toNat)
    (hle : ∀ t ∈ blocks, s.stop.toNat ≤ t.start.toNat) :
    Apart (extend s blocks) ∧ ∀ t ∈ CodeBlocks.extend s blocks, s.start.toNat ≤ t.start.toNat := by
  cases blocks with
  | nil =>
    refine ⟨h.cons hnonempty hle, fun t ht => ?_⟩
    obtain rfl := List.mem_singleton.mp ht
    exact Nat.le_refl _
  | cons block rest =>
    have hlt := h.nonempty List.mem_cons_self
    have hfirst := hle block List.mem_cons_self
    have hrest := (List.pairwise_cons.mp h.ascending).1
    rw [CodeBlocks.extend]
    split
    · -- the span touches the first block, and they become one
      refine ⟨h.tail.cons (by show s.start.toNat < block.stop.toNat; omega) hrest, ?_⟩
      intro t ht
      rcases List.mem_cons.mp ht with rfl | ht
      · exact Nat.le_refl _
      · have hbehind := hrest t ht
        omega
    · refine ⟨h.cons hnonempty hle, fun t ht => ?_⟩
      rcases List.mem_cons.mp ht with rfl | ht
      · exact Nat.le_refl _
      · have hbehind := hle t ht
        omega

/-- Joining adjacent spans keeps them apart, and none begins in front of the first. -/
lemma Apart.foldr_extend (h : Apart spans) :
    Apart (spans.foldr CodeBlocks.extend []) ∧
      ∀ k : Nat, (∀ s ∈ spans, k ≤ s.start.toNat) →
        ∀ t ∈ spans.foldr CodeBlocks.extend [], k ≤ t.start.toNat := by
  induction spans with
  | nil => exact ⟨.nil, fun _ _ t ht => nomatch ht⟩
  | cons s rest ih =>
    obtain ⟨hrest, hbound⟩ := ih h.tail
    have hbehind := hbound _ (List.pairwise_cons.mp h.ascending).1
    obtain ⟨hextend, hfirst⟩ := hrest.extend (h.nonempty List.mem_cons_self) hbehind
    refine ⟨hextend, fun k hk t ht => ?_⟩
    exact Nat.le_trans (hk s List.mem_cons_self) (hfirst t ht)

/-- What holds of all spans, and of two adjacent spans together, holds of the blocks. -/
lemma forall_mem_foldr_extend {P : Span → Prop}
    (hjoin : ∀ {a b c : Address}, P ⟨a, b⟩ → P ⟨b, c⟩ → P ⟨a, c⟩) (h : ∀ s ∈ spans, P s) :
    ∀ s ∈ spans.foldr CodeBlocks.extend [], P s := by
  induction spans with
  | nil => exact fun s hs => nomatch hs
  | cons s rest ih =>
    rw [List.forall_mem_cons] at h
    have hrest := ih h.2
    rw [List.foldr_cons]
    generalize rest.foldr CodeBlocks.extend [] = blocks at hrest
    cases blocks with
    | nil => exact List.forall_mem_cons.mpr ⟨h.1, hrest⟩
    | cons block others =>
      rw [CodeBlocks.extend]
      split
      · next hadjacent =>
        have hblock := (List.forall_mem_cons.mp hrest).1
        obtain ⟨first, last⟩ := block
        obtain rfl : s.stop = first := hadjacent
        exact List.forall_mem_cons.mpr ⟨hjoin h.1 hblock, (List.forall_mem_cons.mp hrest).2⟩
      · exact List.forall_mem_cons.mpr ⟨h.1, hrest⟩

/-- **Blocks do not touch**: each begins behind the byte behind the one in front. -/
lemma Apart.strict (h : Apart spans) :
    (spans.foldr CodeBlocks.extend []).Pairwise fun s t => s.stop.toNat < t.start.toNat := by
  induction spans with
  | nil => exact .nil
  | cons s rest ih =>
    have hstrict := ih h.tail
    obtain ⟨hjoined, hbound⟩ := h.tail.foldr_extend
    have hbehind := hbound _ (List.pairwise_cons.mp h.ascending).1
    rw [List.foldr_cons]
    generalize rest.foldr CodeBlocks.extend [] = blocks at hstrict hjoined hbehind
    cases blocks with
    | nil => exact List.pairwise_singleton _ s
    | cons block others =>
      have hothers := (List.pairwise_cons.mp hstrict).1
      rw [CodeBlocks.extend]
      split
      · exact List.pairwise_cons.mpr ⟨hothers, (List.pairwise_cons.mp hstrict).2⟩
      · next hapart =>
        refine List.pairwise_cons.mpr ⟨fun t ht => ?_, hstrict⟩
        have hlt : s.stop.toNat < block.start.toNat := by
          have hle := hbehind block List.mem_cons_self
          rw [← UInt32.toNat_inj] at hapart
          omega
        rcases List.mem_cons.mp ht with rfl | ht
        · exact hlt
        · have hnonempty := hjoined.nonempty List.mem_cons_self
          have hnext := hothers t ht
          omega

/-- Two blocks are one, or a byte lies between them. -/
lemma Apart.eq_or_lt (h : Apart spans) (hs : s ∈ spans.foldr CodeBlocks.extend [])
    (ht : t ∈ spans.foldr CodeBlocks.extend []) :
    s = t ∨ s.stop.toNat < t.start.toNat ∨ t.stop.toNat < s.start.toNat := by
  have hstrict := h.strict
  exact List.Pairwise.forall_of_forall_of_flip
    (R := fun s t : Span => s = t ∨ s.stop.toNat < t.start.toNat ∨ t.stop.toNat < s.start.toNat)
    (fun _ _ => Or.inl rfl) (hstrict.imp fun hlt => Or.inr (Or.inl hlt))
    (hstrict.imp fun hlt => Or.inr (Or.inr hlt)) hs ht

/-- Blocks that share a byte are one. -/
lemma Apart.eq_of_mem (h : Apart spans) (hs : s ∈ spans.foldr CodeBlocks.extend [])
    (ht : t ∈ spans.foldr CodeBlocks.extend []) (hbs : b ∈ s) (hbt : b ∈ t) : s = t := by
  rw [Span.mem_iff] at hbs hbt
  rcases h.eq_or_lt hs ht with heq | hlt | hlt
  · exact heq
  · omega
  · omega

/-- **Joining neither loses nor adds a byte.** -/
lemma Apart.exists_mem_foldr_extend (h : Apart spans) :
    (∃ s ∈ spans.foldr CodeBlocks.extend [], b ∈ s) ↔ ∃ s ∈ spans, b ∈ s := by
  induction spans with
  | nil => simp
  | cons s rest ih =>
    have hjoined := h.tail.foldr_extend.1
    rw [List.exists_mem_cons_iff, ← ih h.tail, List.foldr_cons]
    generalize rest.foldr CodeBlocks.extend [] = blocks at hjoined
    cases blocks with
    | nil => simp [CodeBlocks.extend]
    | cons block others =>
      rw [CodeBlocks.extend]
      split
      · next hadjacent =>
        have hs := h.nonempty List.mem_cons_self
        have hblock := hjoined.nonempty List.mem_cons_self
        have hspan : b ∈ (⟨s.start, block.stop⟩ : Span) ↔ b ∈ s ∨ b ∈ block := by
          rw [← UInt32.toNat_inj] at hadjacent
          rw [Span.mem_mk, Span.mem_iff, Span.mem_iff]
          omega
        simp only [List.exists_mem_cons_iff, hspan, or_assoc]
      · simp only [List.exists_mem_cons_iff]

/-- **Addresses that all lie in spans lie in one block.** -/
lemma Apart.exists_block_of_covered (h : Apart spans) (hnonempty : t.start.toNat < t.stop.toNat)
    (hcovered : ∀ b ∈ t, ∃ s ∈ spans, b ∈ s) :
    ∃ block ∈ spans.foldr CodeBlocks.extend [], ∀ b ∈ t, b ∈ block := by
  obtain ⟨block, hblock, hfirst⟩ := h.exists_mem_foldr_extend.mpr
    (hcovered t.start (Span.mem_iff.mpr ⟨Nat.le_refl _, hnonempty⟩))
  rw [Span.mem_iff] at hfirst
  refine ⟨block, hblock, fun b hb => ?_⟩
  rw [Span.mem_iff] at hb ⊢
  by_contra hout
  -- the byte behind the block would lie in a span, and so in a block
  obtain ⟨other, hother, hmem⟩ := h.exists_mem_foldr_extend.mpr
    (hcovered block.stop (Span.mem_iff.mpr ⟨by omega, by omega⟩))
  rw [Span.mem_iff] at hmem
  rcases h.eq_or_lt hblock hother with rfl | hlt | hlt <;> omega

end Joining

/-! ## Blocks -/

/-- The suspicious instructions of a map as spans, ascending. -/
def suspects (m : ByteMap) : List Span :=
  (m.starts.filter fun a => isSuspicious (m.marks a)).map fun a => ⟨a, m.instructionStop a⟩

lemma blocks_eq (m : ByteMap) : blocks m = (suspects m).foldr CodeBlocks.extend [] := rfl

/-- **The suspicious instructions are those that stand** at suspicious bytes. -/
lemma mem_suspects_iff (hv : v.Proper) (hm : v.Laid m) {s : Span} :
    s ∈ suspects m ↔ ∃ i,
      v.Stands m s.start i ∧ s.stop = i.stop ∧ isSuspicious (m.marks s.start) = true := by
  constructor
  · intro hs
    obtain ⟨a, ha, rfl⟩ := List.mem_map.mp hs
    obtain ⟨hstart, hsuspicious⟩ := List.mem_filter.mp ha
    obtain ⟨i, hi⟩ := hm.starts (ByteMap.mem_starts.mp hstart)
    exact ⟨i, hi, hi.instructionStop_eq hv, hsuspicious⟩
  · rintro ⟨i, hi, hstop, hsuspicious⟩
    refine List.mem_map.mpr ⟨s.start, List.mem_filter.mpr ⟨ByteMap.mem_starts.mpr hi.start,
      hsuspicious⟩, ?_⟩
    rw [hi.instructionStop_eq hv, ← hstop]

/-- The suspicious instructions of a map lie apart. -/
lemma apart_suspects (hv : v.Proper) (hm : v.Laid m) : Apart (suspects m) := by
  constructor
  · intro s hs
    obtain ⟨i, hi, hstop, -⟩ := (mem_suspects_iff hv hm).mp hs
    rw [hstop]
    exact hv.lt_stop hi.reads
  · unfold suspects
    rw [List.pairwise_map]
    refine (m.pairwise_starts.filter _).imp_of_mem fun {a b} ha hb hlt => ?_
    have hbstart := ByteMap.mem_starts.mp (List.mem_filter.mp hb).1
    obtain ⟨i, hi⟩ := hm.starts (ByteMap.mem_starts.mp (List.mem_filter.mp ha).1)
    rw [hi.instructionStop_eq hv]
    exact hi.stop_le_of_not_body hv (hm.separate hbstart) (UInt32.lt_iff_toNat_lt.mp hlt)

lemma apart_blocks (hv : v.Proper) (hm : v.Laid m) : Apart (blocks m) :=
  (apart_suspects hv hm).foldr_extend.1

lemma exists_mem_blocks (hv : v.Proper) (hm : v.Laid m) :
    (∃ s ∈ blocks m, b ∈ s) ↔ ∃ s ∈ suspects m, b ∈ s :=
  (apart_suspects hv hm).exists_mem_foldr_extend

lemma strict_blocks (hv : v.Proper) (hm : v.Laid m) :
    (blocks m).Pairwise fun s t => s.stop.toNat < t.start.toNat :=
  (apart_suspects hv hm).strict

/-- A byte of a block belongs to a suspicious instruction. -/
lemma exists_stands_of_mem_blocks (hv : v.Proper) (hm : v.Laid m) {s : Span} (hs : s ∈ blocks m)
    (hb : b ∈ s) :
    ∃ a i, v.Stands m a i ∧ isSuspicious (m.marks a) = true ∧ b ∈ (⟨a, i.stop⟩ : Span) := by
  obtain ⟨t, ht, hbt⟩ := (exists_mem_blocks hv hm).mp ⟨s, hs, hb⟩
  obtain ⟨i, hi, hstop, hsuspicious⟩ := (mem_suspects_iff hv hm).mp ht
  refine ⟨t.start, i, hi, hsuspicious, ?_⟩
  rw [← hstop]
  exact hbt

lemma isCode_of_mem_blocks (hv : v.Proper) (hm : v.Laid m) {s : Span} (hs : s ∈ blocks m)
    (hb : b ∈ s) : (m.marks b).isCode = true := by
  obtain ⟨a, i, hi, -, hbi⟩ := exists_stands_of_mem_blocks hv hm hs hb
  obtain ⟨hle, hlt⟩ := Span.mem_mk.mp hbi
  exact hi.isCode hv hle hlt

/-- **The blocks of the map of a survey** can be cleared. -/
lemma severable_blocks (hv : v.Proper) (hm : v.Sound m) : ∀ s ∈ blocks m, m.Severable s := by
  refine forall_mem_foldr_extend ByteMap.Severable.join fun s hs => ?_
  obtain ⟨i, hi, hstop, hsuspicious⟩ := (mem_suspects_iff hv hm.laid).mp hs
  simp only [isSuspicious, Bool.and_eq_true, Bool.not_eq_true'] at hsuspicious
  have hsever := hi.severable hv hm hsuspicious.2
  rw [← hstop] at hsever
  exact hsever

/-! ## Turning a block into data -/

variable {x : ReferenceIndex} {block : Span} {spans : List Span}

/-- The map and the index after a block was turned into data. -/
def convict (p : ByteMap × ReferenceIndex) (block : Span) : ByteMap × ReferenceIndex :=
  ((p.1.clear block).markData block .raw, p.2.eraseSites block)

/-- A byte of a block that was turned into data. -/
def convicted : Cell := Cell.fresh.asData .raw

lemma cell_convict (hcovered : ∀ a ∈ block, m.contains a = true) (b : Address) :
    (convict (m, x) block).1.cell b = if b ∈ block then convicted else m.cell b := by
  have hcontains : (m.clear block).contains b = m.contains b :=
    ByteMap.contains_congr (ByteMap.coverage_clear m block) b
  unfold convict
  rw [ByteMap.cell_markData, ByteMap.cell_clear, hcontains]
  by_cases hb : b ∈ block
  · simp [hb, hcovered b hb, convicted]
  · simp [hb]

lemma coverage_convict (p : ByteMap × ReferenceIndex) (block : Span) :
    (convict p block).1.coverage = p.1.coverage := by
  unfold convict
  rw [ByteMap.coverage_markData, ByteMap.coverage_clear]

lemma coverage_foldl_convict (p : ByteMap × ReferenceIndex) (spans : List Span) :
    (spans.foldl convict p).1.coverage = p.1.coverage := by
  induction spans generalizing p with
  | nil => rfl
  | cons block rest ih => rw [List.foldl_cons, ih, coverage_convict]

/-- **The bytes of convicted blocks** become data, and no others change. -/
lemma cell_foldl_convict (hcovered : ∀ s ∈ spans, ∀ a ∈ s, m.contains a = true) (b : Address) :
    (spans.foldl convict (m, x)).1.cell b = if ∃ s ∈ spans, b ∈ s then convicted else m.cell b := by
  induction spans generalizing m x with
  | nil => simp
  | cons block rest ih =>
    rw [List.forall_mem_cons] at hcovered
    have hcontains := ByteMap.contains_congr (coverage_convict (m, x) block)
    rw [List.foldl_cons, ih fun s hs a ha => by rw [hcontains, hcovered.2 s hs a ha],
      cell_convict hcovered.1]
    by_cases hrest : ∃ s ∈ rest, b ∈ s <;> simp [hrest]

/-- What convicting one block keeps, convicting blocks that lie apart keeps. -/
lemma foldl_convict_induction {Q : ByteMap × ReferenceIndex → Prop} (hapart : Apart spans)
    (hsever : ∀ s ∈ spans, m.Severable s) (hQ : Q (m, x))
    (hstep : ∀ {m : ByteMap} {x : ReferenceIndex} {block : Span}, m.Severable block → Q (m, x) →
      Q (convict (m, x) block)) : Q (spans.foldl convict (m, x)) := by
  induction spans generalizing m x with
  | nil => exact hQ
  | cons block rest ih =>
    obtain ⟨hsever, hothers⟩ := List.forall_mem_cons.mp hsever
    have hbehind := (List.pairwise_cons.mp hapart.ascending).1
    -- the blocks behind are left as they were
    refine ih hapart.tail (fun s hs => ?_) (hstep hsever hQ)
    refine (hothers s hs).congr (Nat.le_of_lt (hapart.tail.nonempty hs)) fun b hb => ?_
    have hout : b ∉ block := by
      intro hmem
      have hstop := hbehind s hs
      have hlt := (Span.mem_iff.mp hmem).2
      omega
    have hcell :=
      @cell_convict m x block (fun a ha => ByteMap.contains_of_isCode (hsever.code ha)) b
    rw [if_neg hout] at hcell
    exact congrArg Cell.marks hcell

/-- A relation made outside convicted blocks stays. -/
lemma mem_foldl_convict {r : CrossReference} (hr : r ∈ x) (hsite : ∀ s ∈ spans, r.site ∉ s)
    (hpartner : r.partner.isForward = false) : r ∈ (spans.foldl convict (m, x)).2 := by
  induction spans generalizing m x with
  | nil => exact hr
  | cons block rest ih =>
    rw [List.forall_mem_cons] at hsite
    exact ih (ReferenceIndex.mem_eraseSites_of_not_mem hr hsite.1 hpartner) hsite.2

lemma mirrored_foldl_convict (hmirrored : x.Mirrored) :
    (spans.foldl convict (m, x)).2.Mirrored := by
  induction spans generalizing m x with
  | nil => exact hmirrored
  | cons block rest ih => exact ih (hmirrored.eraseSites block)

lemma changes_convict (h : m.Severable block) : v.Changes m (convict (m, x) block).1 := by
  refine (Relation.ReflTransGen.single (.clear h)).tail (.keep ?_)
  refine ByteMap.keeps_markData .raw fun a ha => ?_
  rw [h.marks_clear, if_pos ha]
  rfl

/-! ## The review -/

/-- The block is not plausible. -/
def isGuilty (v : Survey) (m : ByteMap) (block : Span) : Bool :=
  !decide ((signature v.image v.decoder m block).isPlausible? = some true)

/-- The verdict about a block depends on the map only through the byte behind the block. -/
lemma isGuilty_congr (h : (m'.marks block.stop).start = (m.marks block.stop).start) :
    isGuilty v m' block = isGuilty v m block := by
  unfold isGuilty signature
  rw [h]

/-- The blocks that a review turns into data. -/
def guilty (v : Survey) (m : ByteMap) : List Span := (blocks m).filter (isGuilty v m)

lemma apart_guilty (hv : v.Proper) (hm : v.Laid m) : Apart (guilty v m) where
  nonempty hs := (apart_blocks hv hm).nonempty (List.mem_filter.mp hs).1
  ascending := (apart_blocks hv hm).ascending.filter _

lemma severable_guilty (hv : v.Proper) (hm : v.Sound m) : ∀ s ∈ guilty v m, m.Severable s :=
  fun s hs => severable_blocks hv hm s (List.mem_filter.mp hs).1

/-- **What starts in a guilty block is suspicious**, and so is what reaches into one. -/
lemma suspicious_of_mem_guilty (hv : v.Proper) (hm : v.Laid m) (hi : v.Stands m a i)
    (hb : b ∈ (⟨a, i.stop⟩ : Span)) (hguilty : ∃ s ∈ guilty v m, b ∈ s) :
    (m.marks a).suspicious = true := by
  obtain ⟨s, hs, hbs⟩ := hguilty
  obtain ⟨c, j, hj, hsuspicious, hbj⟩ :=
    exists_stands_of_mem_blocks hv hm (List.mem_filter.mp hs).1 hbs
  -- a byte belongs to one instruction only
  obtain rfl : a = c := hi.eq_of_mem hv hm hj hb hbj
  simp only [isSuspicious, Bool.and_eq_true] at hsuspicious
  exact hsuspicious.1.2

/-- The outcome when so many more blocks were reviewed and these were turned into data. -/
def Outcome.after (o : Outcome) (reviewed : Nat) (guilty : List Span) : Outcome where
  map := (guilty.foldl convict (o.map, o.index)).1
  index := (guilty.foldl convict (o.map, o.index)).2
  blocksReviewed := o.blocksReviewed + reviewed
  blocksReclassified := o.blocksReclassified + guilty.length
  bytesReclassified := o.bytesReclassified + (guilty.map Span.size).sum

lemma Outcome.after_after (o : Outcome) (k n : Nat) (first rest : List Span) :
    (o.after k first).after n rest = o.after (k + n) (first ++ rest) := by
  simp [after, List.foldl_append, Nat.add_assoc]

/-- A review of one block convicts it or leaves everything as it is. -/
lemma reviewBlock_eq (v : Survey) (o : Outcome) (block : Span) :
    reviewBlock v.image v.decoder o block = o.after 1 ([block].filter (isGuilty v o.map)) := by
  unfold reviewBlock
  dsimp only
  split
  · next hverdict => simp [isGuilty, hverdict, Outcome.after]
  · next hverdict => simp [isGuilty, hverdict, Outcome.after, convict]

/-- **The blocks are judged as if none had been turned into data before.** -/
lemma foldl_reviewBlock_eq (hapart : Apart spans)
    (hstrict : spans.Pairwise fun s t => s.stop.toNat < t.start.toNat) (o : Outcome)
    (hcovered : ∀ s ∈ spans, ∀ a ∈ s, o.map.contains a = true) :
    spans.foldl (reviewBlock v.image v.decoder) o =
      o.after spans.length (spans.filter (isGuilty v o.map)) := by
  induction spans generalizing o with
  | nil => rfl
  | cons block rest ih =>
    obtain ⟨hblock, hrest⟩ := List.forall_mem_cons.mp hcovered
    have hguilty : ∀ s ∈ [block].filter (isGuilty v o.map), ∀ a ∈ s, o.map.contains a = true := by
      intro s hs
      obtain rfl := List.mem_singleton.mp (List.mem_filter.mp hs).1
      exact hblock
    have hcoverage : (o.after 1 ([block].filter (isGuilty v o.map))).map.coverage =
        o.map.coverage :=
      coverage_foldl_convict (o.map, o.index) _
    -- the byte behind a block further on is not in this one, so the verdict is the one it was
    have hverdict : ∀ s ∈ rest,
        isGuilty v (o.after 1 ([block].filter (isGuilty v o.map))).map s = isGuilty v o.map s := by
      intro s hs
      refine isGuilty_congr ?_
      unfold ByteMap.marks
      rw [Outcome.after, cell_foldl_convict hguilty, if_neg]
      rintro ⟨t, ht, hmem⟩
      obtain rfl := List.mem_singleton.mp (List.mem_filter.mp ht).1
      have hlt := (List.pairwise_cons.mp hstrict).1 s hs
      have hnonempty := hapart.tail.nonempty hs
      rw [Span.mem_iff] at hmem
      omega
    rw [List.foldl_cons, reviewBlock_eq, ih hapart.tail (List.pairwise_cons.mp hstrict).2 _
      fun s hs a ha => by rw [ByteMap.contains_congr hcoverage, hrest s hs a ha],
      List.filter_congr hverdict, Outcome.after_after, ← List.filter_append,
      List.length_cons, Nat.add_comm]
    rfl

/-- **A review convicts the guilty blocks of the map.** -/
lemma review_eq (hv : v.Proper) (hm : v.Laid m) (index : ReferenceIndex) :
    review v.image v.decoder m index =
      Outcome.after { map := m, index } (blocks m).length (guilty v m) :=
  foldl_reviewBlock_eq (apart_blocks hv hm) (strict_blocks hv hm) { map := m, index }
    fun _ hs _ ha => ByteMap.contains_of_isCode (isCode_of_mem_blocks hv hm hs ha)

/-- **What a review does to a byte.** -/
lemma cell_review (hv : v.Proper) (hm : v.Laid m) (index : ReferenceIndex) (b : Address) :
    (review v.image v.decoder m index).map.cell b =
      if ∃ s ∈ guilty v m, b ∈ s then convicted else m.cell b := by
  rw [review_eq hv hm]
  exact cell_foldl_convict (fun s hs a ha =>
    ByteMap.contains_of_isCode (isCode_of_mem_blocks hv hm (List.mem_filter.mp hs).1 ha)) b

/-- **A review is made of changes.** -/
lemma changes_review (hv : v.Proper) (hm : v.Sound m) (index : ReferenceIndex) :
    v.Changes m (review v.image v.decoder m index).map := by
  rw [review_eq hv hm.laid]
  exact @foldl_convict_induction m index (guilty v m) (fun p => v.Changes m p.1)
    (apart_guilty hv hm.laid) (severable_guilty hv hm) .refl
    fun hsever hchanges => hchanges.trans (changes_convict hsever)

end CodeBlocks

end CodeSift
