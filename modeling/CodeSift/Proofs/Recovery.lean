import CodeSift.Proofs.Attempts
import CodeSift.Proofs.ErasableSpans

/-!
# What giving up an attempt does

A failed attempt leaves code from its seed up to the cursor, where it stopped, and no code at the
cursor.  How far the doubt reaches back is decided by labels and anchors; but wherever it ends, it
ends at the boundary of an instruction (`ByteMap.Boundary`), and everything between that boundary
and the cursor is code without an anchor.  Forward it does not reach at all, since the cursor is no
code.

So the span that is given up can be cleared without cutting an instruction in two
(`exists_erasable_eq`), and `Survey.Recovered` says what the state looks like afterwards: the span
is as if it had never been looked at, the relations made in it are gone, and the rest is as it was,
except that addresses which nothing refers to any more have lost their label and wait no longer.
-/

namespace CodeSift

open Survey

variable {v : Survey}

/-! ## The span to give up -/

/-- The instructions of a sound map have their bytes together. -/
lemma Survey.Sound.wellFormed {m : ByteMap} (hv : v.Proper) (hm : v.Sound m) : m.WellFormed where
  start hstart := (hm.tiled.exclusive _).body_of_start hstart
  body {b} hbody := by
    obtain ⟨a, i, hi, hmem⟩ := hm.tiled.bodies hbody
    obtain ⟨hab, hb⟩ := (hv.mem_tailOf hi.reads).mp hmem
    have hone : (1 : Address).toNat = 1 := rfl
    have hprevious : (b - 1).toNat = b.toNat - 1 := by
      rw [Address.toNat_sub_of_le (by omega), hone]
    exact ⟨by omega, hi.isCode hv (by omega) (by omega)⟩
  anchored hanchored := hm.free hanchored

namespace ByteMap

variable {m : ByteMap} {a b cursor : Address}

/-- The address lies between the two others, is not inside an instruction, and no anchor lies
between it and the last. -/
structure Boundary (m : ByteMap) (seed b cursor : Address) : Prop where
  le : seed.toNat ≤ b.toNat
  le_cursor : b.toNat ≤ cursor.toNat
  body : (m.marks b).body = false
  free {x : Address} : x ∈ (⟨b, cursor⟩ : Span) → (m.marks x).isAnchored = false

/-- **The span to give up** reaches from a boundary to the cursor and cuts no instruction in two. -/
lemma exists_erasable_eq (hm : m.WellFormed) (hle : a.toNat ≤ cursor.toNat)
    (ha : (m.marks a).body = false) (hcursor : (m.marks cursor).isCode = false) :
    ∃ b, (m.erasable a cursor).1 = ⟨b, cursor⟩ ∧ m.Boundary a b cursor ∧
      m.Severable ⟨b, cursor⟩ := by
  have hbodyCursor := (Marks.isCode_eq_false_iff.mp hcursor).2
  obtain ⟨b, hspan, hbegins⟩ := erasable_eq hm ha hle
  have hstop : m.doubtStop cursor = cursor := by
    refine skipWhile_eq (Nat.le_refl _) (by omega) (fun b hb => ?_) ?_
    · rw [Span.mem_mk] at hb
      omega
    · simp [doubtReaches, hcursor]
  have hboundary : (m.marks b).body = false := by
    refine hbegins.boundary.resolve_right fun hinside => ?_
    rw [hinside.body] at hbodyCursor
    cases hbodyCursor
  exact ⟨b, by rw [hspan, hstop], ⟨hbegins.le, hbegins.le_cursor, hboundary, hbegins.free⟩,
    ⟨hbegins.code, hbegins.free, hboundary, hbodyCursor⟩⟩

end ByteMap

namespace Cell

/-- The byte without its label. -/
def unlabelled (c : Cell) : Cell := c.unmark { labelled := true }

variable (c : Cell)

@[simp] lemma unlabelled_unlabelled : c.unlabelled.unlabelled = c.unlabelled := by
  simp [unlabelled, unmark, Marks.without]

@[simp] lemma labelled_unlabelled : c.unlabelled.marks.labelled = false := Bool.and_false _
@[simp] lemma start_unlabelled : c.unlabelled.marks.start = c.marks.start := Bool.and_true _
@[simp] lemma suspicious_unlabelled : c.unlabelled.marks.suspicious = c.marks.suspicious :=
  Bool.and_true _
@[simp] lemma body_unlabelled : c.unlabelled.marks.body = c.marks.body := Bool.and_true _
@[simp] lemma data_unlabelled : c.unlabelled.marks.data = c.marks.data := Bool.and_true _
@[simp] lemma dataClass_unlabelled : c.unlabelled.dataClass = c.dataClass := rfl

lemma unlabelled_eq_self {c : Cell} (h : c.marks.labelled = false) : c.unlabelled = c := by
  obtain ⟨⟨_, _, _, _, _, _, _, _, _⟩, _⟩ := c
  change _ = false at h
  subst h
  simp [unlabelled, unmark, Marks.without]

/-- What does not look at labels is the same for bytes that differ in their labels only. -/
lemma congr_of_unlabelled {α : Type} {c d : Cell} (view : Cell → α)
    (hview : ∀ c, view c.unlabelled = view c) (h : c.unlabelled = d.unlabelled) :
    view c = view d := by
  rw [← hview c, h, hview]

end Cell

namespace Survey

variable {s t u : State} {a b x : Address} {f : Failure}

/-! ## Taking back what nothing refers to -/

/-- What taking back addresses may do: labels go, and addresses wait no longer. -/
structure Withdrawn (s t : State) : Prop where
  keeps : s.map.Keeps t.map
  same (a : Address) : (t.map.marks a).data = (s.map.marks a).data ∧
    t.map.dataClass a = s.map.dataClass a
  fresh {a : Address} : s.map.cell a = .fresh → t.map.cell a = .fresh
  waits {a : Address} : t.agenda.contains a = true → s.agenda.contains a = true
  index : t.index = s.index
  failedSeeds : t.failedSeeds = s.failedSeeds
  history : t.history = s.history
  stats : t.stats = s.stats
  unlabelled (a : Address) : (t.map.cell a).unlabelled = (s.map.cell a).unlabelled
  leads {l : Lead} : l ∈ t.agenda.leads → l ∈ s.agenda.leads
  phase : t.phase = s.phase

lemma Withdrawn.refl (s : State) : Withdrawn s s :=
  ⟨.refl s.map, fun _ => ⟨rfl, rfl⟩, id, id, rfl, rfl, rfl, rfl, fun _ => rfl, id, rfl⟩

lemma Withdrawn.trans (h : Withdrawn s t) (h' : Withdrawn t u) : Withdrawn s u where
  keeps := h.keeps.trans h'.keeps
  same a := ⟨(h'.same a).1.trans (h.same a).1, (h'.same a).2.trans (h.same a).2⟩
  fresh ha := h'.fresh (h.fresh ha)
  waits ha := h.waits (h'.waits ha)
  index := h'.index.trans h.index
  failedSeeds := h'.failedSeeds.trans h.failedSeeds
  history := h'.history.trans h.history
  stats := h'.stats.trans h.stats
  unlabelled a := (h'.unlabelled a).trans (h.unlabelled a)
  leads hl := h.leads (h'.leads hl)
  phase := h'.phase.trans h.phase

lemma withdrawn_withdraw (s : State) (a : Address) : Withdrawn s (withdraw s a) := by
  unfold withdraw
  dsimp only
  split
  · exact .refl s
  · refine ⟨s.map.keeps_unmark a, fun b => ⟨?_, ?_⟩, fun {b} hb => ?_,
      fun hb => (Agenda.contains_remove.mp hb).2, rfl, rfl, rfl, rfl, fun b => ?_,
      fun hl => (OrderedSet.mem_filter.mp hl).1, rfl⟩
    · rw [ByteMap.marks_unmark]
      split <;> simp [Marks.without]
    · unfold ByteMap.dataClass
      rw [ByteMap.cell_unmark]
      split <;> rfl
    · rw [ByteMap.cell_unmark, hb]
      split <;> rfl
    · rw [ByteMap.cell_unmark]
      split
      · simp [Cell.unlabelled, Cell.unmark, Marks.without]
      · rfl

lemma withdrawn_foldl (relations : List CrossReference) (s : State) :
    Withdrawn s (relations.foldl (fun s r => withdraw s r.target) s) := by
  induction relations generalizing s with
  | nil => exact .refl s
  | cons r rest ih => exact (withdrawn_withdraw s r.target).trans (ih _)

/-- Nothing is taken back at the address: an instruction starts there, or it is an anchor, or
something refers to it. -/
def isHeld (m : ByteMap) (x : ReferenceIndex) (a : Address) : Bool :=
  (m.marks a).start || (m.marks a).isAnchored || x.isReferenced a

lemma isHeld_withdraw (s : State) (a b : Address) :
    isHeld (withdraw s a).map (withdraw s a).index b = isHeld s.map s.index b := by
  have hwithdrawn := withdrawn_withdraw s a
  unfold isHeld Marks.isAnchored
  rw [hwithdrawn.keeps.start, hwithdrawn.keeps.entry, hwithdrawn.keeps.anchor, hwithdrawn.index]

lemma cell_withdraw (s : State) (a b : Address) :
    (withdraw s a).map.cell b =
      if a = b ∧ isHeld s.map s.index b = false then (s.map.cell b).unlabelled
      else s.map.cell b := by
  have hwithdraw : withdraw s a = if isHeld s.map s.index a then s
      else { s with agenda := s.agenda.remove a, map := s.map.unmark a { labelled := true } } := rfl
  rw [hwithdraw]
  by_cases hheld : isHeld s.map s.index a = true
  · rw [if_pos hheld, if_neg]
    rintro ⟨rfl, hfree⟩
    rw [hheld] at hfree
    cases hfree
  · rw [if_neg hheld, ByteMap.cell_unmark]
    by_cases hab : a = b
    · subst hab
      have hfree : a = a ∧ isHeld s.map s.index a = false := ⟨rfl, Bool.eq_false_iff.mpr hheld⟩
      rw [if_pos hfree]
      split
      · rfl
      · next hcontains =>
        rw [ByteMap.cell_of_not_contains (by simpa using hcontains)]
        rfl
    · rw [if_neg fun h => hab h.1.symm, if_neg fun h => hab h.1]

/-- **Taking back a number of addresses** takes the labels of those that nothing holds. -/
lemma cell_foldl_withdraw (relations : List CrossReference) (s : State) (b : Address) :
    (relations.foldl (fun s r => withdraw s r.target) s).map.cell b =
      if (∃ r ∈ relations, r.target = b) ∧ isHeld s.map s.index b = false then
        (s.map.cell b).unlabelled
      else s.map.cell b := by
  induction relations generalizing s with
  | nil => simp
  | cons r rest ih =>
    rw [List.foldl_cons, ih, isHeld_withdraw, cell_withdraw]
    by_cases hheld : isHeld s.map s.index b = false
    · by_cases hr : r.target = b <;> simp [hheld, hr]
    · simp [hheld]

lemma contains_withdraw {s : State} {a b : Address} :
    (withdraw s a).agenda.contains b = true ↔
      s.agenda.contains b = true ∧ ¬(a = b ∧ isHeld s.map s.index b = false) := by
  have hwithdraw : withdraw s a = if isHeld s.map s.index a then s
      else { s with agenda := s.agenda.remove a, map := s.map.unmark a { labelled := true } } := rfl
  rw [hwithdraw]
  by_cases hheld : isHeld s.map s.index a = true
  · rw [if_pos hheld]
    refine ⟨fun hb => ⟨hb, ?_⟩, fun hb => hb.1⟩
    rintro ⟨rfl, hfree⟩
    rw [hheld] at hfree
    cases hfree
  · rw [if_neg hheld, Agenda.contains_remove]
    have hfree := Bool.eq_false_iff.mpr hheld
    constructor
    · rintro ⟨hne, hb⟩
      exact ⟨hb, fun h => hne h.1.symm⟩
    · rintro ⟨hb, hkept⟩
      exact ⟨fun hba => hkept ⟨hba.symm, hba ▸ hfree⟩, hb⟩

/-- **Taking back a number of addresses** takes those off the agenda that nothing holds. -/
lemma contains_foldl_withdraw {relations : List CrossReference} {s : State} {b : Address} :
    (relations.foldl (fun s r => withdraw s r.target) s).agenda.contains b = true ↔
      s.agenda.contains b = true ∧
        ¬((∃ r ∈ relations, r.target = b) ∧ isHeld s.map s.index b = false) := by
  induction relations generalizing s with
  | nil => simp
  | cons r rest ih =>
    rw [List.foldl_cons, ih, isHeld_withdraw, contains_withdraw, List.exists_mem_cons_iff,
      and_assoc, ← not_or, ← or_and_right]

/-! ## The state after giving up -/

/-- **What is known about the state in which a failed attempt is given up** back to the boundary
`b`. -/
structure Recovered (v : Survey) (t : State) (f : Failure) (b : Address) (u : State) : Prop where
  boundary : t.map.Boundary f.seed b f.cursor
  changes : v.Changes t.map u.map
  cleared {x : Address} : x ∈ (⟨b, f.cursor⟩ : Span) → u.map.cell x = .fresh
  same {x : Address} : x ∉ (⟨b, f.cursor⟩ : Span) →
    (u.map.marks x).start = (t.map.marks x).start ∧ (u.map.marks x).body = (t.map.marks x).body ∧
      (u.map.marks x).data = (t.map.marks x).data ∧ u.map.dataClass x = t.map.dataClass x
  index : u.index = t.index.eraseSites ⟨b, f.cursor⟩
  waits {x : Address} : u.agenda.contains x = true → t.agenda.contains x = true
  failedSeeds : u.failedSeeds = f.seed :: t.failedSeeds
  history {e : ErasedSpan} : e ∈ u.history → e ∈ t.history ∨ e.failure = f
  attempts : u.stats.attempts = t.stats.attempts
  decoded : u.stats.instructionsDecoded = t.stats.instructionsDecoded

/-- What a failed attempt leaves: code from its seed up to its cursor, and none at the cursor. -/
structure Doubtful (m : ByteMap) (f : Failure) : Prop where
  le : f.seed.toNat ≤ f.cursor.toNat
  code {x : Address} : x ∈ (⟨f.seed, f.cursor⟩ : Span) → (m.marks x).isCode = true
  seed : (m.marks f.seed).body = false
  cursor : (m.marks f.cursor).isCode = false

lemma Swept.doubtful {path : List Instruction} (hv : v.Proper)
    (h : v.Swept s f.seed path t f.cursor) (ht : v.Sound t.map)
    (hcursor : (t.map.marks f.cursor).isCode = false) : Doubtful t.map f where
  le := h.sweep.le hv
  code hx := h.isCode hv hx
  seed := by
    by_cases hempty : f.seed = f.cursor
    · rw [hempty, (Marks.isCode_eq_false_iff.mp hcursor).2]
    · obtain ⟨i, hi, haddress⟩ := h.sweep.exists_first hv hempty
      exact (ht.tiled.exclusive _).body_of_start (haddress ▸ (h.stands hi).start)
  cursor := hcursor

lemma mem_remember {limit : Nat} {history : List ErasedSpan} {e e' : ErasedSpan}
    (h : e' ∈ remember limit history e) : e' ∈ history ∨ e' = e := by
  unfold remember at h
  split at h
  · exact Or.inl h
  · split at h
    · rcases List.mem_append.mp h with h | h
      · exact Or.inl (List.mem_of_mem_tail h)
      · exact Or.inr (List.mem_singleton.mp h)
    · rcases List.mem_append.mp h with h | h
      · exact Or.inl h
      · exact Or.inr (List.mem_singleton.mp h)

/-- **Giving up** clears the bytes from a boundary to the cursor. -/
lemma exists_recovered (hv : v.Proper) (ht : v.Sound t.map) (hf : Doubtful t.map f) :
    ∃ b, v.Recovered t f b (v.recover t f) := by
  obtain ⟨b, hspan, hboundary, hsever⟩ :=
    ByteMap.exists_erasable_eq (ht.wellFormed hv) hf.le hf.seed hf.cursor
  refine ⟨b, ?_⟩
  unfold recover
  dsimp only
  rw [hspan]
  generalize hcleared : ({ t with
    failedSeeds := f.seed :: t.failedSeeds
    index := t.index.eraseSites ⟨b, f.cursor⟩
    map := t.map.clear ⟨b, f.cursor⟩
    history := remember v.settings.eraseHistoryLimit.toNat t.history
      ⟨⟨b, f.cursor⟩, f, (t.index.madeIn ⟨b, f.cursor⟩).length⟩
    stats := _ } : State) = t₁
  have hwithdrawn := withdrawn_foldl (t.index.madeIn ⟨b, f.cursor⟩) t₁
  generalize (t.index.madeIn ⟨b, f.cursor⟩).foldl (fun s r => withdraw s r.target) t₁ =
    u at hwithdrawn
  subst hcleared
  constructor
  case boundary => exact hboundary
  case changes => exact (Relation.ReflTransGen.single (.clear hsever)).tail (.keep hwithdrawn.keeps)
  case cleared =>
    intro x hx
    refine hwithdrawn.fresh ?_
    dsimp only
    rw [ByteMap.cell_clear, if_pos ⟨hx, ByteMap.contains_of_isCode (hsever.code hx)⟩]
  case same =>
    intro x hx
    have hcell : (t.map.clear ⟨b, f.cursor⟩).cell x = t.map.cell x := by
      rw [ByteMap.cell_clear, if_neg fun h => hx h.1]
    rw [hwithdrawn.keeps.start, hwithdrawn.keeps.body, (hwithdrawn.same x).1, (hwithdrawn.same x).2]
    unfold ByteMap.marks ByteMap.dataClass
    dsimp only
    rw [hcell]
    exact ⟨rfl, rfl, rfl, rfl⟩
  case index => exact hwithdrawn.index
  case waits => exact hwithdrawn.waits
  case failedSeeds => exact hwithdrawn.failedSeeds
  case history =>
    intro e he
    rw [hwithdrawn.history] at he
    rcases mem_remember he with hold | rfl
    · exact Or.inl hold
    · exact Or.inr rfl
  case attempts => rw [hwithdrawn.stats]
  case decoded => rw [hwithdrawn.stats]

/-! ## What giving up does to single bytes, relations and leads -/

/-- The bytes that are in doubt when an attempt has failed. -/
def State.doubt (t : State) (f : Failure) : Span := (t.map.erasable f.seed f.cursor).1

lemma Doubtful.severable (hv : v.Proper) (ht : v.Sound t.map) (hf : Doubtful t.map f) :
    t.map.Severable (t.doubt f) ∧ ∀ x ∈ t.doubt f, x ∈ (⟨f.seed, f.cursor⟩ : Span) := by
  obtain ⟨b, hspan, hboundary, hsever⟩ :=
    ByteMap.exists_erasable_eq (ht.wellFormed hv) hf.le hf.seed hf.cursor
  unfold State.doubt
  rw [hspan]
  refine ⟨hsever, fun x hx => ?_⟩
  have hle := hboundary.le
  rw [Span.mem_mk] at hx ⊢
  omega

/-- Giving up is clearing the bytes in doubt, erasing the relations made in them, and then taking
back what nothing refers to. -/
lemma exists_withdrawn (v : Survey) (t : State) (f : Failure) :
    ∃ u : State, u.map = t.map.clear (t.doubt f) ∧ u.index = t.index.eraseSites (t.doubt f) ∧
      u.agenda = t.agenda ∧ Withdrawn u (v.recover t f) := by
  refine ⟨_, ?_, ?_, ?_, withdrawn_foldl _ _⟩ <;> rfl

/-- **What giving up does to a byte.**  The bytes in doubt are cleared, and what only they referred
to loses its label. -/
lemma cell_recover (v : Survey) (t : State) (f : Failure) (b : Address) :
    (v.recover t f).map.cell b =
      if (∃ r ∈ t.index.madeIn (t.doubt f), r.target = b) ∧
          isHeld (t.map.clear (t.doubt f)) (t.index.eraseSites (t.doubt f)) b = false
      then ((t.map.clear (t.doubt f)).cell b).unlabelled else (t.map.clear (t.doubt f)).cell b :=
  cell_foldl_withdraw _ _ b

/-- **The bytes in doubt are cleared**, and besides only labels go. -/
lemma unlabelled_recover (v : Survey) (t : State) (f : Failure) (b : Address) :
    ((v.recover t f).map.cell b).unlabelled = ((t.map.clear (t.doubt f)).cell b).unlabelled := by
  obtain ⟨u, hmap, -, -, hwithdrawn⟩ := exists_withdrawn v t f
  rw [hwithdrawn.unlabelled, hmap]

lemma unlabelled_recover_of_not_mem (v : Survey) {t : State} {f : Failure} {b : Address}
    (hb : b ∉ t.doubt f) : ((v.recover t f).map.cell b).unlabelled = (t.map.cell b).unlabelled := by
  rw [unlabelled_recover, ByteMap.cell_clear, if_neg fun hmem => hb hmem.1]

lemma phase_recover (v : Survey) (t : State) (f : Failure) : (v.recover t f).phase = t.phase :=
  (withdrawn_foldl _ _).phase

lemma coverage_recover (v : Survey) (t : State) (f : Failure) :
    (v.recover t f).map.coverage = t.map.coverage := by
  obtain ⟨u, hmap, -, -, hwithdrawn⟩ := exists_withdrawn v t f
  rw [hwithdrawn.keeps.coverage, hmap, ByteMap.coverage_clear]

/-- The relations made in the bytes in doubt are gone. -/
lemma index_recover (v : Survey) (t : State) (f : Failure) :
    (v.recover t f).index = t.index.eraseSites (t.doubt f) := by
  obtain ⟨u, -, hindex, -, hwithdrawn⟩ := exists_withdrawn v t f
  rw [hwithdrawn.index, hindex]

/-- **Which addresses wait after giving up**: those that waited, without what only the bytes in
doubt referred to. -/
lemma contains_recover {b : Address} :
    (v.recover t f).agenda.contains b = true ↔ t.agenda.contains b = true ∧
      ¬((∃ r ∈ t.index.madeIn (t.doubt f), r.target = b) ∧
        isHeld (t.map.clear (t.doubt f)) (t.index.eraseSites (t.doubt f)) b = false) :=
  contains_foldl_withdraw

/-- No lead comes to wait. -/
lemma leads_recover {l : Lead} (h : l ∈ (v.recover t f).agenda.leads) : l ∈ t.agenda.leads := by
  obtain ⟨u, -, -, hagenda, hwithdrawn⟩ := exists_withdrawn v t f
  rw [← hagenda]
  exact hwithdrawn.leads h

end Survey

end CodeSift
