import CodeSift.Classification.Runs
import CodeSift.Proofs.ByteMap

/-!
# Runs hold what they are made of

Coalescing neither loses nor adds an address: an address lies in a run with some value exactly when
it was listed with that value (`exists_mem_coalesce_iff`).  The unprocessed runs of a map are
therefore exactly its unprocessed bytes.  They ascend with a gap between two of them
(`pairwise_unprocessedRuns`), so that the byte behind a run is decided.
-/

namespace CodeSift

namespace Run

variable {α : Type} [DecidableEq α]

lemma nonempty_of_mem_coalesce {entries : List (Address × α)}
    (hsucc : ∀ e ∈ entries, (e.1 + 1).toNat = e.1.toNat + 1) {run : Run α}
    (h : run ∈ coalesce entries) : run.span.start.toNat < run.span.stop.toNat := by
  induction entries generalizing run with
  | nil => cases h
  | cons e rest ih =>
    have he := hsucc e List.mem_cons_self
    have hrest : ∀ r ∈ coalesce rest, r.span.start.toNat < r.span.stop.toNat := fun r hr =>
      ih (fun e he => hsucc e (List.mem_cons_of_mem _ he)) hr
    change run ∈ extend e (coalesce rest) at h
    revert h hrest
    cases coalesce rest with
    | nil =>
      intro _ h
      rcases List.mem_singleton.mp h with rfl
      show e.1.toNat < (e.1 + 1).toNat
      omega
    | cons first others =>
      intro hrest h
      have hfirst := hrest first List.mem_cons_self
      simp only [extend] at h
      split at h
      · next hjoin =>
        rcases List.mem_cons.mp h with rfl | h
        · have hstart := congrArg UInt32.toNat hjoin.2
          show e.1.toNat < first.span.stop.toNat
          omega
        · exact hrest run (List.mem_cons_of_mem _ h)
      · rcases List.mem_cons.mp h with rfl | h
        · show e.1.toNat < (e.1 + 1).toNat
          omega
        · exact hrest run h

lemma mem_single_iff {a b : Address} (hsucc : (b + 1).toNat = b.toNat + 1) :
    a ∈ (⟨b, b + 1⟩ : Span) ↔ a = b := by
  rw [Span.mem_iff, ← UInt32.toNat_inj]
  simp only [hsucc]
  omega

/-- **Coalescing keeps the listed addresses with their values.** -/
lemma exists_mem_coalesce_iff {entries : List (Address × α)}
    (hsucc : ∀ e ∈ entries, (e.1 + 1).toNat = e.1.toNat + 1) {a : Address} {value : α} :
    (∃ run ∈ coalesce entries, a ∈ run.span ∧ run.value = value) ↔ (a, value) ∈ entries := by
  induction entries with
  | nil => simp [coalesce]
  | cons e rest ih =>
    have he := hsucc e List.mem_cons_self
    have hsucc' : ∀ e ∈ rest, (e.1 + 1).toNat = e.1.toNat + 1 := fun e he =>
      hsucc e (List.mem_cons_of_mem _ he)
    have ih := ih hsucc'
    have hnonempty : ∀ r ∈ coalesce rest, r.span.start.toNat < r.span.stop.toNat := fun r hr =>
      nonempty_of_mem_coalesce hsucc' hr
    have hentry : (a, value) = e ↔ a = e.1 ∧ e.2 = value := by
      rw [Prod.ext_iff]
      exact and_congr_right fun _ => eq_comm
    rw [List.mem_cons, ← ih, hentry]
    show (∃ run ∈ extend e (coalesce rest), a ∈ run.span ∧ run.value = value) ↔ _
    revert hnonempty
    cases coalesce rest with
    | nil =>
      intro _
      simp [extend, mem_single_iff he]
    | cons first others =>
      intro hnonempty
      have hfirst := hnonempty first List.mem_cons_self
      simp only [extend]
      split
      · next hjoin =>
        have hstart := congrArg UInt32.toNat hjoin.2
        have hspan : a ∈ (⟨e.1, first.span.stop⟩ : Span) ↔ a = e.1 ∨ a ∈ first.span := by
          rw [Span.mem_iff, Span.mem_iff, ← UInt32.toNat_inj]
          show e.1.toNat ≤ a.toNat ∧ a.toNat < first.span.stop.toNat ↔ _
          omega
        simp only [List.exists_mem_cons_iff, hspan, hjoin.1, or_and_right, or_assoc]
      · simp only [List.exists_mem_cons_iff, mem_single_iff he]

/-- **Runs of ascending addresses ascend**, and two that touch differ in value. -/
lemma pairwise_coalesce {entries : List (Address × α)}
    (hsucc : ∀ e ∈ entries, (e.1 + 1).toNat = e.1.toNat + 1)
    (hascending : entries.Pairwise fun e f => e.1 < f.1) :
    (coalesce entries).Pairwise fun r q =>
      r.span.stop.toNat ≤ q.span.start.toNat ∧
        (r.span.stop = q.span.start → r.value ≠ q.value) := by
  induction entries with
  | nil => exact List.Pairwise.nil
  | cons e rest ih =>
    obtain ⟨he, hrest⟩ := List.pairwise_cons.mp hascending
    have hsucc' : ∀ e ∈ rest, (e.1 + 1).toNat = e.1.toNat + 1 := fun e he =>
      hsucc e (List.mem_cons_of_mem _ he)
    have hnext := hsucc e List.mem_cons_self
    have ih := ih hsucc' hrest
    have hnonempty : ∀ r ∈ coalesce rest, r.span.start.toNat < r.span.stop.toNat := fun r hr =>
      nonempty_of_mem_coalesce hsucc' hr
    -- a run starts at a listed address, so all runs of the rest start behind the new address
    have hbehind : ∀ r ∈ coalesce rest, (e.1 + 1).toNat ≤ r.span.start.toNat := by
      intro r hr
      have hlisted := (exists_mem_coalesce_iff hsucc').mp
        ⟨r, hr, Span.mem_iff.mpr ⟨Nat.le_refl _, hnonempty r hr⟩, rfl⟩
      have hlt : e.1.toNat < r.span.start.toNat := UInt32.lt_iff_toNat_lt.mp (he _ hlisted)
      omega
    show (extend e (coalesce rest)).Pairwise _
    revert ih hnonempty hbehind
    cases coalesce rest with
    | nil => exact fun _ _ _ => List.pairwise_singleton _ _
    | cons first others =>
      intro ih hnonempty hbehind
      obtain ⟨hfirst, hothers⟩ := List.pairwise_cons.mp ih
      simp only [extend]
      split
      · exact List.pairwise_cons.mpr ⟨hfirst, hothers⟩
      · next hjoin =>
        refine List.pairwise_cons.mpr ⟨fun q hq => ⟨hbehind q hq, fun htouch => ?_⟩, ih⟩
        rcases List.mem_cons.mp hq with rfl | hq
        · exact fun hvalue => hjoin ⟨hvalue, htouch⟩
        · have hpast := (hfirst q hq).1
          have hleft := hbehind first List.mem_cons_self
          have hlength := hnonempty first List.mem_cons_self
          have hsame := congrArg UInt32.toNat htouch
          change (e.1 + 1).toNat = q.span.start.toNat at hsame
          omega

end Run

namespace ByteMap

/-- The addresses listed for the unprocessed runs of a map do not wrap around. -/
lemma toNat_succ_of_mem_toList {m : ByteMap} {e : Address × Cell} (h : e ∈ m.toList) :
    (e.1 + 1).toNat = e.1.toNat + 1 := by
  rw [toList_eq, List.mem_map] at h
  obtain ⟨a, ha, rfl⟩ := h
  exact Coverage.toNat_succ_of_contains (Coverage.contains_iff.mpr ha)

/-- The addresses that are coalesced into unprocessed runs. -/
lemma toNat_succ_of_mem_untouched {m : ByteMap} :
    ∀ e ∈ (m.toList.filter fun p => p.2.marks.kind == .unprocessed).map fun p => (p.1, ()),
      (e.1 + 1).toNat = e.1.toNat + 1 := by
  intro e he
  obtain ⟨p, hp, rfl⟩ := List.mem_map.mp he
  exact toNat_succ_of_mem_toList (List.mem_filter.mp hp).1

/-- **The unprocessed runs of a map are its unprocessed bytes.** -/
lemma exists_mem_unprocessedRuns {m : ByteMap} {a : Address} :
    (∃ run ∈ m.unprocessedRuns, a ∈ run) ↔ m.kind a = .unprocessed := by
  have hruns := @Run.exists_mem_coalesce_iff Unit _ _ (toNat_succ_of_mem_untouched (m := m)) a ()
  simp only [and_true] at hruns
  simp only [unprocessedRuns, List.mem_map, exists_exists_and_eq_and]
  refine hruns.trans ?_
  simp only [List.mem_map, List.mem_filter, toList_eq, beq_iff_eq, Prod.mk.injEq, and_true]
  constructor
  · rintro ⟨p, ⟨⟨b, hb, rfl⟩, hkind⟩, rfl⟩
    exact hkind
  · intro hkind
    have ha := Coverage.contains_iff.mp (contains_of_unprocessed hkind)
    exact ⟨(a, m.cell a), ⟨⟨a, ha, rfl⟩, hkind⟩, rfl⟩

lemma unprocessed_of_mem_run {m : ByteMap} {run : Span} (hrun : run ∈ m.unprocessedRuns)
    {a : Address} (ha : a ∈ run) : m.kind a = .unprocessed :=
  exists_mem_unprocessedRuns.mp ⟨run, hrun, ha⟩

lemma start_lt_stop_of_mem_unprocessedRuns {m : ByteMap} {run : Span}
    (h : run ∈ m.unprocessedRuns) : run.start.toNat < run.stop.toNat := by
  obtain ⟨r, hr, rfl⟩ := List.mem_map.mp h
  exact Run.nonempty_of_mem_coalesce toNat_succ_of_mem_untouched hr

/-- **Between an unprocessed run and the next there is a byte.** -/
lemma pairwise_unprocessedRuns (m : ByteMap) :
    m.unprocessedRuns.Pairwise fun r q => r.stop.toNat < q.start.toNat := by
  have hascending : m.toList.Pairwise fun p q => p.1 < q.1 := by
    rw [toList_eq, List.pairwise_map]
    exact m.coverage.pairwise_addresses
  refine List.pairwise_map.mpr ((Run.pairwise_coalesce toNat_succ_of_mem_untouched
    (List.pairwise_map.mpr (hascending.filter _))).imp ?_)
  rintro r q ⟨hle, hvalue⟩
  have hne : r.span.stop.toNat ≠ q.span.start.toNat := fun h => hvalue (UInt32.toNat_inj.mp h) rfl
  omega

/-- Two unprocessed runs are one, or a byte lies between them. -/
lemma eq_or_lt_of_mem_unprocessedRuns {m : ByteMap} {r q : Span} (hr : r ∈ m.unprocessedRuns)
    (hq : q ∈ m.unprocessedRuns) :
    r = q ∨ r.stop.toNat < q.start.toNat ∨ q.stop.toNat < r.start.toNat :=
  List.Pairwise.forall_of_forall_of_flip
    (R := fun r q : Span => r = q ∨ r.stop.toNat < q.start.toNat ∨ q.stop.toNat < r.start.toNat)
    (fun _ _ => Or.inl rfl) (m.pairwise_unprocessedRuns.imp fun hlt => Or.inr (Or.inl hlt))
    (m.pairwise_unprocessedRuns.imp fun hlt => Or.inr (Or.inr hlt)) hr hq

lemma eq_of_mem_unprocessedRuns {m : ByteMap} {r q : Span} (hr : r ∈ m.unprocessedRuns)
    (hq : q ∈ m.unprocessedRuns) {a : Address} (har : a ∈ r) (haq : a ∈ q) : r = q := by
  rw [Span.mem_iff] at har haq
  rcases eq_or_lt_of_mem_unprocessedRuns hr hq with heq | hlt | hlt
  · exact heq
  · omega
  · omega

/-- **Unprocessed runs are maximal.**  The byte behind a run is decided. -/
lemma kind_stop_of_mem_unprocessedRuns {m : ByteMap} {run : Span} (h : run ∈ m.unprocessedRuns) :
    m.kind run.stop ≠ .unprocessed := by
  intro hkind
  obtain ⟨other, hother, hmem⟩ := exists_mem_unprocessedRuns.mpr hkind
  rw [Span.mem_iff] at hmem
  have hnonempty := start_lt_stop_of_mem_unprocessedRuns h
  rcases eq_or_lt_of_mem_unprocessedRuns h hother with rfl | hlt | hlt <;> omega

end ByteMap

end CodeSift
