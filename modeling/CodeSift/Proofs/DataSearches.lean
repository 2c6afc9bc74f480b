import CodeSift.Proofs.Runs
import CodeSift.Proofs.Tiling
import CodeSift.Review.Passes

/-!
# Making data of undecided bytes

The searches for tables and for strings go through the undecided runs of a map, and the last pass
makes data of what is left.  Each of them *fills* the map it found (`ByteMap.Fills`): a byte is as
it was, or it was undecided and has become data.  In particular no code is touched (`Fills.keeps`).

A search goes through the runs by ascending addresses, and what it does at a byte depends on the map
as it is by then.  `sweep_unprocessedRuns` therefore speaks of a search that has come as far as some
address: what holds at the first address, and is kept from one end of a run to the other and across
the decided bytes between two runs, holds when the search has come to the last address.

What a search has done is marking a list of spans as data (`ByteMap.markAll`).  Where the spans have
no byte in common and were undecided, `ByteMap.Marked` says what this comes to, byte for byte.

After the last pass no byte is undecided.
-/

namespace CodeSift

variable {image : Image} {base m : ByteMap}

/-- Work that may fail, as a fold over what it has come to. -/
lemma foldlM_eq_foldl_bind {σ α : Type} (work : σ → α → Option σ) (items : List α) (s : σ) :
    items.foldlM work s = items.foldl (fun o x => o.bind fun s => work s x) (some s) := by
  have hnone : ∀ items : List α, items.foldl (fun o x => o.bind fun s => work s x) none = none := by
    intro items
    induction items with
    | nil => rfl
    | cons x rest ih => exact ih
  induction items generalizing s with
  | nil => rfl
  | cons x rest ih =>
    rw [List.foldlM_cons, List.foldl_cons, Option.bind_some]
    cases work s x with
    | none => exact (hnone rest).symm
    | some t => exact ih t

/-! ## Filling a map -/

namespace ByteMap

/-- The second map is the first with some undecided bytes made data. -/
structure Fills (m m' : ByteMap) : Prop where
  coverage : m'.coverage = m.coverage
  cell (a : Address) : m'.cell a = m.cell a ∨
    m.kind a = .unprocessed ∧ ∃ cls, cls ≠ .none ∧ m'.cell a = (m.cell a).asData cls

namespace Fills

variable {m' : ByteMap} {a : Address}

lemma refl (m : ByteMap) : m.Fills m := ⟨rfl, fun _ => Or.inl rfl⟩

/-- What is decided stays as it is. -/
lemma cell_eq (h : m.Fills m') (ha : m.kind a ≠ .unprocessed) : m'.cell a = m.cell a := by
  rcases h.cell a with hsame | ⟨hkind, -⟩
  · exact hsame
  · exact absurd hkind ha

/-- **Filling touches no code.** -/
lemma keeps (h : m.Fills m') : m.Keeps m' := by
  have hcode : ∀ a, (m.marks a).isCode = true → m'.marks a = m.marks a := by
    intro a ha
    have hdecided : m.kind a ≠ .unprocessed := by
      intro hkind
      rw [isCode_of_unprocessed hkind] at ha
      cases ha
    exact congrArg Cell.marks (h.cell_eq hdecided)
  have hmarks : ∀ a, m'.marks a = m.marks a ∨ m'.marks a = m.marks a ||| { data := true } := by
    intro a
    rcases h.cell a with hsame | ⟨-, cls, -, hdata⟩
    · exact Or.inl (congrArg Cell.marks hsame)
    · exact Or.inr (congrArg Cell.marks hdata)
  refine ⟨h.coverage, ?_, ?_, ?_, ?_, ?_, fun {a} ha => by rw [hcode a ha]⟩ <;> intro a <;>
    rcases hmarks a with hsame | hdata <;> simp [*]

/-- Data marked on bytes that are undecided at the beginning of a pass. -/
lemma markData {s : Span} {cls : DataClass} (h : base.Fills m) (hcls : cls ≠ .none)
    (hs : ∀ a ∈ s, base.kind a = .unprocessed) : base.Fills (m.markData s cls) := by
  refine ⟨(coverage_markData m s cls).trans h.coverage, fun a => ?_⟩
  rw [cell_markData]
  split
  · next ha =>
    refine Or.inr ⟨hs a ha.1, cls, hcls, ?_⟩
    -- data that is marked a second time takes the new class
    rcases h.cell a with hsame | ⟨-, old, -, hdata⟩
    · rw [hsame]
    · rw [hdata, Cell.asData_asData]
  · exact h.cell a

/-- A byte that is undecided later was undecided before. -/
lemma unprocessed_of (h : m.Fills m') (ha : m'.kind a = .unprocessed) :
    m.kind a = .unprocessed := by
  rcases h.cell a with hsame | ⟨hkind, -⟩
  · rw [← (kind_congr hsame).1, ha]
  · exact hkind

/-- Where code may start later, it could start before. -/
lemma admitsCode_of (h : m.Fills m') (ha : m'.admitsCode image a = true) :
    m.admitsCode image a = true := by
  obtain ⟨hexecutable, hcontains, hdata, hbody⟩ := admitsCode_iff.mp ha
  rw [contains_congr h.coverage] at hcontains
  rw [h.keeps.body, h.keeps.start] at hbody
  refine admitsCode_iff.mpr ⟨hexecutable, hcontains, ?_, hbody⟩
  rw [Bool.eq_false_iff]
  intro hold
  rw [h.keeps.data hold] at hdata
  cases hdata

end Fills

/-! ## Room at the highest address -/

/-- No range of the map ends at the highest address. -/
def LeavesRoom (m : ByteMap) : Prop := m.contains (Address.last - 1) = false

instance (m : ByteMap) : Decidable m.LeavesRoom := inferInstanceAs (Decidable (_ = _))

lemma LeavesRoom.congr {m' : ByteMap} (h : m.LeavesRoom) (hcoverage : m'.coverage = m.coverage) :
    m'.LeavesRoom := (contains_congr hcoverage _).trans h

/-- The byte in front of the highest address is not undecided. -/
lemma LeavesRoom.decided (h : m.LeavesRoom) : m.kind (Address.last - 1) ≠ .unprocessed := by
  intro hkind
  rw [LeavesRoom, contains_of_unprocessed hkind] at h
  cases h

/-! ## Going through the undecided runs -/

section Sweep

variable {σ : Type} {P : Address → σ → Prop} {work : σ → Span → σ} {s : σ}
  (hskip : ∀ {a b : Address} {s : σ}, P a s → a.toNat ≤ b.toNat →
    (∀ x ∈ (⟨a, b⟩ : Span), base.kind x ≠ .unprocessed) → P b s)
  (hwork : ∀ {s : σ} {run : Span}, run ∈ base.unprocessedRuns → P run.start s →
    P run.stop (work s run))
include hskip hwork

/-- A search from `a` on, with the runs that are left. -/
lemma sweep_foldl {runs : List Span} {a : Address} (hs : P a s)
    (hruns : ∀ run ∈ runs, run ∈ base.unprocessedRuns)
    (hbehind : ∀ run ∈ runs, a.toNat ≤ run.start.toNat)
    (hascending : runs.Pairwise fun r q => r.stop.toNat < q.start.toNat)
    (hall : ∀ x : Address, a.toNat ≤ x.toNat → base.kind x = .unprocessed → ∃ run ∈ runs, x ∈ run) :
    P Address.last (runs.foldl work s) := by
  induction runs generalizing a s with
  | nil =>
    have hbound := a.toNat_lt
    refine hskip hs (show a.toNat ≤ 2 ^ 32 - 1 by omega) fun x hx hkind => ?_
    obtain ⟨run, hrun, -⟩ := hall x (Span.mem_mk.mp hx).1 hkind
    cases hrun
  | cons run rest ih =>
    rw [List.forall_mem_cons] at hruns hbehind
    obtain ⟨hrun, hrest⟩ := hruns
    obtain ⟨hfirst, htail⟩ := List.pairwise_cons.mp hascending
    have hnonempty := start_lt_stop_of_mem_unprocessedRuns hrun
    -- what is undecided from `a` on lies in the first run or behind it
    have hwhere : ∀ x : Address, a.toNat ≤ x.toNat → base.kind x = .unprocessed →
        x ∈ run ∨ run.stop.toNat < x.toNat ∧ ∃ q ∈ rest, x ∈ q := by
      intro x hx hkind
      obtain ⟨q, hq, hmem⟩ := hall x hx hkind
      rcases List.mem_cons.mp hq with rfl | hq
      · exact Or.inl hmem
      · have hpast := hfirst q hq
        have hfrom := (Span.mem_iff.mp hmem).1
        exact Or.inr ⟨by omega, q, hq, hmem⟩
    have hgap : P run.start s := by
      refine hskip hs hbehind.1 fun x hx hkind => ?_
      rw [Span.mem_mk] at hx
      rcases hwhere x hx.1 hkind with hmem | ⟨hpast, -⟩
      · have hfrom := (Span.mem_iff.mp hmem).1
        omega
      · omega
    refine ih (hwork hrun hgap) hrest (fun q hq => Nat.le_of_lt (hfirst q hq)) htail
      fun x hx hkind => ?_
    rcases hwhere x (by omega) hkind with hmem | ⟨-, hlater⟩
    · have hto := (Span.mem_iff.mp hmem).2
      omega
    · exact hlater

/-- **A search comes to the last address.**  A property of the state and of how far the search has
come holds in the end, if it holds at first, if the work on a run takes it from the start of the run
to its end, and if decided bytes do not matter to it. -/
lemma sweep_unprocessedRuns (hs : P 0 s) : P Address.last (base.unprocessedRuns.foldl work s) := by
  exact @sweep_foldl base σ P work s hskip hwork base.unprocessedRuns 0 hs (fun _ hrun => hrun)
    (fun _ _ => Nat.zero_le _) base.pairwise_unprocessedRuns
    fun x _ hkind => exists_mem_unprocessedRuns.mpr hkind

end Sweep

/-! ## Marking a list of spans -/

/-- The map with spans made data, each of its class. -/
def markAll (m : ByteMap) (spans : List (Span × DataClass)) : ByteMap :=
  spans.foldl (fun m p => m.markData p.1 p.2) m

section MarkAll

variable {spans : List (Span × DataClass)} {s : Span} {cls : DataClass} {a : Address}

lemma markAll_append_singleton :
    m.markAll (spans ++ [(s, cls)]) = (m.markAll spans).markData s cls := by
  unfold markAll
  rw [List.foldl_append]
  rfl

@[simp] lemma coverage_markAll (m : ByteMap) (spans : List (Span × DataClass)) :
    (m.markAll spans).coverage = m.coverage := by
  induction spans generalizing m with
  | nil => rfl
  | cons p rest ih => exact (ih (m.markData p.1 p.2)).trans (coverage_markData m p.1 p.2)

/-- Code may start where it could before, but not in what has become data. -/
lemma admitsCode_markData :
    (m.markData s cls).admitsCode image a = true ↔ m.admitsCode image a = true ∧ a ∉ s := by
  rw [admitsCode_iff, admitsCode_iff, contains_congr (coverage_markData m s cls), marks_markData]
  split
  · next h => simp [h.1]
  · next h =>
    refine ⟨fun hadmits => ⟨hadmits, fun ha => h ⟨ha, hadmits.2.1⟩⟩, fun hadmits => hadmits.1⟩

lemma admitsCode_markAll :
    (m.markAll spans).admitsCode image a = true ↔ m.admitsCode image a = true ∧ ∀ p ∈ spans,
      a ∉ p.1 := by
  induction spans generalizing m with
  | nil => simp [markAll]
  | cons p rest ih =>
    change ((m.markData p.1 p.2).markAll rest).admitsCode image a = true ↔ _
    rw [ih, admitsCode_markData, List.forall_mem_cons, and_assoc]

/-- **The second map is the first with the spans made data**, each of its class, and with nothing
else changed. -/
structure Marked (m : ByteMap) (spans : List (Span × DataClass)) (m' : ByteMap) : Prop where
  coverage : m'.coverage = m.coverage
  inside {p : Span × DataClass} {a : Address} : p ∈ spans → a ∈ p.1 →
    m'.cell a = (m.cell a).asData p.2
  outside {a : Address} : (∀ p ∈ spans, a ∉ p.1) → m'.cell a = m.cell a

lemma cell_markAll_of_not_mem (h : ∀ p ∈ spans, a ∉ p.1) : (m.markAll spans).cell a = m.cell a := by
  induction spans generalizing m with
  | nil => rfl
  | cons p rest ih =>
    rw [List.forall_mem_cons] at h
    refine (ih (m := m.markData p.1 p.2) h.2).trans ?_
    rw [cell_markData, if_neg fun hmem => h.1 hmem.1]

/-- Marking undecided spans that have no byte in common. -/
lemma marked_markAll (hapart : spans.Pairwise fun p q => ∀ a ∈ p.1, a ∉ q.1)
    (hspans : ∀ p ∈ spans, ∀ a ∈ p.1, m.kind a = .unprocessed) :
    m.Marked spans (m.markAll spans) := by
  refine ⟨coverage_markAll m spans, fun {p a} hp ha => ?_, fun h => cell_markAll_of_not_mem h⟩
  have hcontains := contains_of_unprocessed (hspans p hp a ha)
  clear hspans
  induction spans generalizing m with
  | nil => cases hp
  | cons q rest ih =>
    obtain ⟨hq, hrest⟩ := List.pairwise_cons.mp hapart
    change ((m.markData q.1 q.2).markAll rest).cell a = _
    rcases List.mem_cons.mp hp with rfl | hp
    · rw [cell_markAll_of_not_mem fun other hother => hq other hother a ha, cell_markData,
        if_pos ⟨ha, hcontains⟩]
    · rw [ih hrest hp (by rw [contains_congr (coverage_markData m q.1 q.2), hcontains]),
        cell_markData, if_neg fun hmem => hq p hp a hmem.1 ha]

/-- **Marking undecided spans fills the map.** -/
lemma Marked.fills {m' : ByteMap} (h : m.Marked spans m') (hcls : ∀ p ∈ spans, p.2 ≠ .none)
    (hspans : ∀ p ∈ spans, ∀ a ∈ p.1, m.kind a = .unprocessed) : m.Fills m' := by
  refine ⟨h.coverage, fun a => ?_⟩
  by_cases ha : ∃ p ∈ spans, a ∈ p.1
  · obtain ⟨p, hp, ha⟩ := ha
    exact Or.inr ⟨hspans p hp a ha, p.2, hcls p hp, h.inside hp ha⟩
  · exact Or.inl (h.outside fun p hp hmem => ha ⟨p, hp, hmem⟩)

end MarkAll

end ByteMap

/-! ## The last pass -/

namespace Passes

/-- **The last pass fills the map.** -/
lemma fills_backfill (m : ByteMap) : m.Fills (backfill m).1 := by
  unfold backfill
  exact @ByteMap.sweep_unprocessedRuns m (ByteMap × Nat) (fun _ p => m.Fills p.1) _ _
    (fun hp _ _ => hp)
    (fun hrun hp => hp.markData (by decide) fun _ hx => ByteMap.unprocessed_of_mem_run hrun hx)
    (.refl m)

/-- What is data stays data, and the covered bytes of the runs become data. -/
lemma data_foldl_backfill {runs : List Span} {a : Address} {n : Nat}
    (h : (m.marks a).data = true ∨ ∃ run ∈ runs, a ∈ run ∧ m.contains a = true) :
    ((runs.foldl (fun (m, n) run => (m.markData run .raw, n + run.size)) (m, n)).1.marks a).data =
      true := by
  induction runs generalizing m n with
  | nil =>
    rcases h with h | ⟨run, hrun, -⟩
    · exact h
    · cases hrun
  | cons run rest ih =>
    refine ih ?_
    rw [ByteMap.contains_congr (ByteMap.coverage_markData m run .raw), ByteMap.marks_markData]
    rcases h with h | ⟨r, hr, ha, hcontains⟩
    · left
      split <;> simp [h]
    · rcases List.mem_cons.mp hr with rfl | hr
      · left
        rw [if_pos ⟨ha, hcontains⟩]
        simp
      · exact Or.inr ⟨r, hr, ha, hcontains⟩

/-- **The last pass leaves no byte undecided.** -/
lemma kind_backfill_ne (m : ByteMap) (a : Address) : (backfill m).1.kind a ≠ .unprocessed := by
  intro hkind
  have hkeeps := (fills_backfill m).keeps
  obtain ⟨hstart, hbody, hdata⟩ := ByteMap.kind_eq_unprocessed_iff.mp hkind
  have hold : m.kind a = .unprocessed := by
    refine ByteMap.kind_eq_unprocessed_iff.mpr ⟨?_, ?_, ?_⟩
    · rw [← hkeeps.start, hstart]
    · rw [← hkeeps.body, hbody]
    · rw [Bool.eq_false_iff]
      intro h
      rw [hkeeps.data h] at hdata
      cases hdata
  obtain ⟨run, hrun, ha⟩ := ByteMap.exists_mem_unprocessedRuns.mpr hold
  unfold backfill at hdata
  rw [data_foldl_backfill (Or.inr ⟨run, hrun, ha, ByteMap.contains_of_unprocessed hold⟩)] at hdata
  cases hdata

end Passes

end CodeSift
