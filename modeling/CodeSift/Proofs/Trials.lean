import CodeSift.Proofs.Recovery

/-!
# Trying an address

Trying an address out means one of four things: it is settled already, it is rejected, an attempt
from it succeeds, or an attempt from it fails and is given up.  `Survey.Tried` says what all four
have in common.  The address is settled afterwards, and so is every address that was settled before:
what a failed attempt gives up are bytes that it decoded itself, and they were open when it began.
The addresses that have come to wait were open, and the address itself is not one of them.

Relations are made at the starts of instructions and at data (`State.Sited`).  Giving up removes the
relations made in the bytes it clears, so this holds after a trial too.
-/

namespace CodeSift

namespace Survey

variable {v : Survey} {s t u : State} {a b c x : Address} {f : Failure} {path : List Instruction}

/-- Every relation is made at the start of an instruction or at data. -/
def State.Sited (s : State) : Prop :=
  ∀ r ∈ s.index, r.isForward = true →
    (s.map.marks r.site).start = true ∨ (s.map.marks r.site).data = true

/-- **What is known about the state in which an address has been tried.** -/
structure Tried (v : Survey) (s : State) (a : Address) (t : State) : Prop where
  changes : v.Changes s.map t.map
  isSettled {x : Address} : v.isSettled s x = true → v.isSettled t x = true
  seed : v.isSettled t a = true
  waits {x : Address} : t.agenda.contains x = true →
    s.agenda.contains x = true ∨ v.isSettled s x = false ∧ x ≠ a
  paired : s.index.Paired → t.index.Paired
  sited : s.Sited → t.Sited
  history {e : ErasedSpan} : e ∈ t.history → e ∈ s.history ∨ e.failure.kind ≠ .insideInstruction

/-- A settled address is not tried again. -/
lemma tried_of_isSettled (h : v.isSettled s a = true) : v.Tried s a s :=
  ⟨.refl, id, h, Or.inl, id, id, Or.inl⟩

/-- A rejected address has failed. -/
lemma tried_reject (v : Survey) (s : State) (a : Address) : v.Tried s a (reject s a) where
  changes := .refl
  isSettled hx := isSettled_mono (s := s) rfl id id (List.mem_cons_of_mem a) hx
  seed := isSettled_iff.mpr (Or.inr (Or.inl List.mem_cons_self))
  waits := Or.inl
  paired := id
  sited := id
  history := Or.inl

/-! ## Attempts that succeed -/

lemma Swept.sited (h : v.Swept s a path t c) (hs : s.Sited) : t.Sited := by
  intro r hr hforward
  rcases h.sites hr hforward with hold | ⟨i, hi, hsite⟩ | ⟨-, hdata⟩
  · rcases hs r hold hforward with hstart | hdata
    · left
      have hout : r.site ∉ (⟨a, c⟩ : Span) := by
        intro hmem
        rw [(ByteMap.kind_eq_unprocessed_iff.mp (h.fresh hmem)).1] at hstart
        cases hstart
      rw [(h.same hout).1, hstart]
    · exact Or.inr (h.data hdata)
  · left
    rw [hsite, (h.stands hi).start]
  · exact Or.inr hdata

/-- An attempt that leaves an instruction at its seed has settled it. -/
lemma Swept.tried (h : v.Swept s a path t c) (hstart : (t.map.marks a).start = true) :
    v.Tried s a t where
  changes := h.changes
  isSettled := h.isSettled
  seed := isSettled_iff.mpr (Or.inl (by rw [Marks.isCode, hstart, Bool.true_or]))
  waits := h.waits
  paired := h.paired
  sited := h.sited
  history he := Or.inl (h.history ▸ he)

/-! ## Attempts that are given up -/

/-- The bytes given up were open before the attempt. -/
lemma Swept.fresh_of_recovered (h : v.Swept s f.seed path t f.cursor)
    (hrecovered : v.Recovered t f b u) (hx : x ∈ (⟨b, f.cursor⟩ : Span)) :
    s.map.kind x = .unprocessed := by
  have hle := hrecovered.boundary.le
  refine h.fresh ?_
  rw [Span.mem_mk] at hx ⊢
  omega

lemma Swept.isSettled_of_recovered (h : v.Swept s f.seed path t f.cursor)
    (hrecovered : v.Recovered t f b u) (hx : v.isSettled s x = true) : v.isSettled u x = true := by
  by_cases hmem : x ∈ (⟨b, f.cursor⟩ : Span)
  · -- a byte that is given up was settled, if at all, for a reason that stays
    obtain ⟨hstart, hbody, hdata⟩ :=
      ByteMap.kind_eq_unprocessed_iff.mp (h.fresh_of_recovered hrecovered hmem)
    refine isSettled_mono (hrecovered.changes.coverage.trans h.changes.coverage) ?_ ?_ ?_ hx
    · rw [Marks.isCode, hstart, hbody]
      intro hfalse
      cases hfalse
    · rw [hdata]
      intro hfalse
      cases hfalse
    · rw [hrecovered.failedSeeds, h.failedSeeds]
      exact List.mem_cons_of_mem _
  · obtain ⟨hstart, hbody, hdata, -⟩ := hrecovered.same hmem
    refine isSettled_mono hrecovered.changes.coverage ?_ ?_ ?_ (h.isSettled hx)
    · unfold Marks.isCode
      rw [hstart, hbody]
      exact id
    · rw [hdata]
      exact id
    · rw [hrecovered.failedSeeds]
      exact List.mem_cons_of_mem _

lemma Recovered.sited (h : v.Recovered t f b u) (ht : t.Sited) : u.Sited := by
  intro r hr hforward
  rw [h.index] at hr
  have hout := ReferenceIndex.not_mem_span_of_mem_eraseSites hr hforward
  obtain ⟨hstart, -, hdata, -⟩ := h.same hout
  rw [hstart, hdata]
  exact ht r (ReferenceIndex.mem_eraseSites.mp hr).1 hforward

/-- An attempt that is given up has settled its seed as well: it has failed. -/
lemma Swept.tried_of_recovered (h : v.Swept s f.seed path t f.cursor)
    (hrecovered : v.Recovered t f b u) (hkind : f.kind ≠ .insideInstruction) :
    v.Tried s f.seed u where
  changes := h.changes.trans hrecovered.changes
  isSettled := h.isSettled_of_recovered hrecovered
  seed := by
    rw [isSettled_iff, hrecovered.failedSeeds]
    exact Or.inr (Or.inl List.mem_cons_self)
  waits hx := h.waits (hrecovered.waits hx)
  paired hs := by
    rw [hrecovered.index]
    exact (h.paired hs).eraseSites _
  sited hs := hrecovered.sited (h.sited hs)
  history he := by
    rcases hrecovered.history he with hold | hnew
    · exact Or.inl (h.history ▸ hold)
    · exact Or.inr (by rw [hnew]; exact hkind)

/-! ## Attempts -/

/-- Counting an attempt changes nothing that a trial is about. -/
lemma Tried.of_countAttempt (h : v.Tried s.countAttempt a t) : v.Tried s a t :=
  ⟨h.changes, h.isSettled, h.seed, h.waits, h.paired, h.sited, h.history⟩

lemma body_of_isSettled (h : v.isSettled s a = false) : (s.map.marks a).body = false :=
  (Marks.isCode_eq_false_iff.mp (isSettled_eq_false_iff.mp h).1).2

variable {purpose : Purpose} {confidence : Confidence}

/-- **An attempt from an open address that succeeds.** -/
lemma tried_attempt (hv : v.Proper) (hs : v.Sound s.map) (hopen : v.isSettled s a = false)
    (h : v.attempt purpose confidence s a = (t, none)) :
    v.Tried s a t ∧ t.stats.attempts = s.stats.attempts + 1 := by
  obtain ⟨path, c, hswept, hstart, -⟩ := swept_attempt hv hs (body_of_isSettled hopen) h
  exact ⟨(hswept.tried (hstart rfl)).of_countAttempt, hswept.attempts⟩

/-- **What is known about the state in which an attempt has failed**, and about every state in which
it is given up. -/
structure Failing (v : Survey) (s : State) (f : Failure) (t : State) : Prop where
  kind : f.kind ≠ .insideInstruction
  changes : v.Changes s.map t.map
  doubtful : Doubtful t.map f
  paired : s.index.Paired → t.index.Paired
  sited : s.Sited → t.Sited
  waits {x : Address} : t.agenda.contains x = true →
    s.agenda.contains x = true ∨ v.isSettled s x = false ∧ x ≠ f.seed
  history : t.history = s.history
  attempts : t.stats.attempts = s.stats.attempts + 1
  tried {b : Address} {u : State} : v.Recovered t f b u → v.Tried s f.seed u

/-- **An attempt from an open address that fails.** -/
lemma failing_attempt (hv : v.Proper) (hs : v.Sound s.map) (hopen : v.isSettled s a = false)
    (h : v.attempt purpose confidence s a = (t, some f)) : f.seed = a ∧ v.Failing s f t := by
  obtain ⟨rfl, hcursor, hkind, path, hswept, -⟩ :=
    swept_of_attempt_failed hv hs (body_of_isSettled hopen) h
  have ht := hswept.changes.sound hv hs
  exact ⟨rfl, hkind, hswept.changes, hswept.doubtful hv ht hcursor, hswept.paired, hswept.sited,
    hswept.waits, hswept.history, hswept.attempts,
    fun hrecovered => (hswept.tried_of_recovered hrecovered hkind).of_countAttempt⟩

end Survey

end CodeSift
