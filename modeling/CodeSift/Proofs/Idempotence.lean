import CodeSift.Proofs.Labels
import CodeSift.Proofs.Termination

/-!
# Running the passes a second time changes nothing

At the end of a survey every byte is decided, so the searches for data have no runs to go through
and nothing is left to fill.  What could change something is a second review of guessed code, for
the first one has changed the map that it looks at.

It does not.  Blocks do not touch, so two suspicious instructions that are adjacent lie in one block
and share its fate.  A review therefore takes whole blocks away and leaves the others exactly as
they were (`foldr_extend_filter`, `suspects_review`).  The byte behind a block lies in no block, so
the verdict about a block that is left is the one it had (`guilty_review`).
-/

namespace CodeSift

open Survey

variable {v : Survey} {m m' : ByteMap} {x : ReferenceIndex} {a b : Address} {i : Instruction}

/-! ## Joining fewer spans -/

namespace CodeBlocks

variable {s t block : Span} {spans : List Span}

/-- A block begins where one of its spans begins. -/
lemma exists_start_of_mem_foldr_extend (h : block ∈ spans.foldr CodeBlocks.extend []) :
    ∃ s ∈ spans, s.start = block.start := by
  induction spans generalizing block with
  | nil => cases h
  | cons s rest ih =>
    rw [List.foldr_cons] at h
    rw [List.exists_mem_cons_iff]
    generalize rest.foldr CodeBlocks.extend [] = blocks at h ih
    cases blocks with
    | nil =>
      obtain rfl := List.mem_singleton.mp h
      exact Or.inl rfl
    | cons first others =>
      rw [CodeBlocks.extend] at h
      split at h
      · rcases List.mem_cons.mp h with rfl | h
        · exact Or.inl rfl
        · exact Or.inr (ih (List.mem_cons_of_mem _ h))
      · rcases List.mem_cons.mp h with rfl | h
        · exact Or.inl rfl
        · exact Or.inr (ih h)

/-- **Spans that touch lie in one block.** -/
lemma Apart.exists_block (h : Apart spans) (hs : s ∈ spans) (ht : t ∈ spans)
    (hadjacent : s.stop = t.start) :
    ∃ block ∈ spans.foldr CodeBlocks.extend [], s.start ∈ block ∧ t.start ∈ block := by
  have hsnonempty := h.nonempty hs
  have htnonempty := h.nonempty ht
  rw [← UInt32.toNat_inj] at hadjacent
  obtain ⟨block, hblock, hmem⟩ := @Apart.exists_block_of_covered ⟨s.start, t.stop⟩ spans h
    (show s.start.toNat < t.stop.toNat by omega) fun b hb => by
      rw [Span.mem_mk] at hb
      by_cases hlt : b.toNat < s.stop.toNat
      · exact ⟨s, hs, Span.mem_iff.mpr ⟨hb.1, hlt⟩⟩
      · exact ⟨t, ht, Span.mem_iff.mpr ⟨by omega, hb.2⟩⟩
  refine ⟨block, hblock, hmem _ (Span.mem_mk.mpr ⟨by omega, by omega⟩),
    hmem _ (Span.mem_mk.mpr ⟨by omega, by omega⟩)⟩

/-- Putting a span in front of blocks and leaving blocks out commute, if a block that the span
touches is left out together with the span. -/
lemma Apart.filter_extend {blocks : List Span} {keep : Address → Bool} (h : Apart blocks)
    (hle : ∀ t ∈ blocks, s.stop.toNat ≤ t.start.toNat)
    (hkeep : ∀ t ∈ blocks, s.stop = t.start → keep s.start = keep t.start) :
    (CodeBlocks.extend s blocks).filter (fun t => keep t.start) =
      if keep s.start then CodeBlocks.extend s (blocks.filter fun t => keep t.start)
      else blocks.filter fun t => keep t.start := by
  cases blocks with
  | nil => cases hs : keep s.start <;> simp [hs, CodeBlocks.extend]
  | cons block others =>
    by_cases hadjacent : s.stop = block.start
    · have hsame := hkeep block List.mem_cons_self hadjacent
      cases hs : keep s.start <;> simp [hs, ← hsame, CodeBlocks.extend, hadjacent]
    · -- the blocks behind the first one do not touch the span either
      have hfree : ∀ t ∈ (block :: others).filter fun t => keep t.start, s.stop ≠ t.start := by
        intro t ht htouch
        rcases List.mem_cons.mp (List.mem_filter.mp ht).1 with rfl | ht
        · exact hadjacent htouch
        · have hnext := (List.pairwise_cons.mp h.ascending).1 t ht
          have hfirst := hle block List.mem_cons_self
          have hnonempty := h.nonempty List.mem_cons_self
          rw [← UInt32.toNat_inj] at htouch
          omega
      rw [CodeBlocks.extend, if_neg hadjacent, List.filter_cons]
      generalize (block :: others).filter (fun t => keep t.start) = kept at hfree
      split
      · cases kept with
        | nil => rfl
        | cons first rest => rw [CodeBlocks.extend, if_neg (hfree first List.mem_cons_self)]
      · rfl

/-- **Joining commutes with leaving spans out**, if spans that touch are left out together. -/
lemma Apart.foldr_extend_filter (h : Apart spans) {keep : Address → Bool}
    (hkeep : ∀ s ∈ spans, ∀ t ∈ spans, s.stop = t.start → keep s.start = keep t.start) :
    (spans.filter fun s => keep s.start).foldr CodeBlocks.extend [] =
      (spans.foldr CodeBlocks.extend []).filter fun s => keep s.start := by
  induction spans with
  | nil => rfl
  | cons s rest ih =>
    have ih := ih h.tail fun s hs t ht =>
      hkeep s (List.mem_cons_of_mem _ hs) t (List.mem_cons_of_mem _ ht)
    obtain ⟨hjoined, hbound⟩ := h.tail.foldr_extend
    rw [List.foldr_cons, hjoined.filter_extend (hbound _ (List.pairwise_cons.mp h.ascending).1),
      List.filter_cons]
    · split
      · rw [List.foldr_cons, ih]
      · exact ih
    · intro block hblock hadjacent
      obtain ⟨t, ht, hstart⟩ := exists_start_of_mem_foldr_extend hblock
      rw [← hstart] at hadjacent ⊢
      exact hkeep s List.mem_cons_self t (List.mem_cons_of_mem _ ht) hadjacent

/-! ## What a review leaves -/

lemma suspects_eq (m : ByteMap) :
    suspects m = (m.coverage.addresses.filter fun a => isSuspicious (m.marks a)).map
      fun a => ⟨a, m.instructionStop a⟩ := by
  unfold suspects
  rw [ByteMap.starts_eq, List.filter_filter]
  congr 1
  refine List.filter_congr fun a _ => ?_
  unfold isSuspicious
  cases (m.marks a).start <;> simp

/-- The byte lies in no guilty block. -/
def isSpared (v : Survey) (m : ByteMap) (a : Address) : Bool :=
  !decide (∃ block ∈ guilty v m, a ∈ block)

lemma isSpared_iff : isSpared v m a = true ↔ ¬∃ block ∈ guilty v m, a ∈ block := by
  rw [isSpared, Bool.not_eq_true', decide_eq_false_iff_not]

/-- **A review leaves the suspicious instructions that lie in no guilty block.** -/
lemma suspects_review (hv : v.Proper) (hm : v.Sound m) (index : ReferenceIndex) :
    suspects (review v.image v.decoder m index).map =
      (suspects m).filter fun s => isSpared v m s.start := by
  have hchanges := changes_review hv hm index
  have hcell := cell_review hv hm.laid index
  generalize (review v.image v.decoder m index).map = m' at hchanges hcell
  have hsuspicious : ∀ a, isSuspicious (m'.marks a) =
      (isSpared v m a && isSuspicious (m.marks a)) := by
    intro a
    unfold ByteMap.marks isSpared
    rw [hcell]
    split
    · next hguilty => rw [decide_eq_true hguilty]; rfl
    · next hfree => rw [decide_eq_false hfree]; rfl
  rw [suspects_eq, suspects_eq, hchanges.coverage, List.filter_map, List.filter_filter]
  rw [List.filter_congr fun a _ => hsuspicious a]
  refine List.map_congr_left fun a ha => ?_
  -- the instruction is read from the image, so it ends where it did
  have hstart : (m'.marks a).start = true ∧ (m.marks a).start = true := by
    have hkept := (List.mem_filter.mp ha).2
    rw [← hsuspicious] at hkept
    have hold := hsuspicious a
    rw [hkept] at hold
    simp only [isSuspicious, Bool.and_eq_true] at hkept
    have hold := (Bool.and_eq_true _ _ ▸ hold.symm).2
    simp only [isSuspicious, Bool.and_eq_true] at hold
    exact ⟨hkept.1.1, hold.1.1⟩
  obtain ⟨i, hi⟩ := hm.tiled.starts hstart.2
  obtain ⟨j, hj⟩ := (hchanges.sound hv hm).tiled.starts hstart.1
  obtain rfl : j = i := Except.ok.inj (hj.reads.symm.trans hi.reads)
  rw [hi.instructionStop_eq hv, hj.instructionStop_eq hv]

/-- **A review leaves whole blocks.** -/
lemma blocks_review (hv : v.Proper) (hm : v.Sound m) (index : ReferenceIndex) :
    blocks (review v.image v.decoder m index).map =
      (blocks m).filter fun s => isSpared v m s.start := by
  have hapart := apart_suspects hv hm.laid
  rw [blocks_eq, suspects_review hv hm, blocks_eq]
  refine @Apart.foldr_extend_filter (suspects m) hapart (isSpared v m) fun s hs t ht hadjacent => ?_
  obtain ⟨shared, hshared, hsmem, htmem⟩ := hapart.exists_block hs ht hadjacent
  -- a guilty block that holds the one start is the block they share
  have honly : ∀ {a : Address},
      a ∈ shared → ((∃ block ∈ guilty v m, a ∈ block) ↔ shared ∈ guilty v m) := by
    intro a ha
    refine ⟨?_, fun hguilty => ⟨shared, hguilty, ha⟩⟩
    rintro ⟨block, hblock, hmem⟩
    obtain rfl := hapart.eq_of_mem hshared (List.mem_filter.mp hblock).1 ha hmem
    exact hblock
  unfold isSpared
  rw [decide_eq_decide.mpr ((honly hsmem).trans (honly htmem).symm)]

/-- **After a review no block is guilty.** -/
lemma guilty_review (hv : v.Proper) (hm : v.Sound m) (index : ReferenceIndex) :
    guilty v (review v.image v.decoder m index).map = [] := by
  have hcell := cell_review hv hm.laid index
  unfold guilty
  rw [blocks_review hv hm, List.filter_filter, List.filter_eq_nil_iff]
  intro block hblock hguilty
  rw [Bool.and_eq_true, isSpared_iff] at hguilty
  obtain ⟨hverdict, hfree⟩ := hguilty
  have hnonempty := (apart_blocks hv hm.laid).nonempty hblock
  -- the byte behind the block lies in no block, and is as it was
  have hbehind : ¬∃ other ∈ guilty v m, block.stop ∈ other := by
    rintro ⟨other, hother, hmem⟩
    rw [Span.mem_iff] at hmem
    rcases (apart_suspects hv hm.laid).eq_or_lt hblock (List.mem_filter.mp hother).1 with
      rfl | hlt | hlt <;> omega
  have hsame : isGuilty v (review v.image v.decoder m index).map block = isGuilty v m block := by
    refine isGuilty_congr ?_
    unfold ByteMap.marks
    rw [hcell, if_neg hbehind]
  rw [hsame] at hverdict
  exact hfree ⟨block, List.mem_filter.mpr ⟨hblock, hverdict⟩,
    Span.mem_iff.mpr ⟨Nat.le_refl _, hnonempty⟩⟩

/-- Filling a map changes neither its blocks nor the verdicts about them. -/
lemma guilty_of_fills (h : m.Fills m') : guilty v m' = guilty v m := by
  have hlabels := sameLabels_of_fills h
  have hsuspicious : ∀ a, isSuspicious (m'.marks a) = isSuspicious (m.marks a) := by
    intro a
    obtain ⟨-, hstart, hanchored, hsuspicious⟩ := hlabels a
    unfold isSuspicious
    rw [hstart, hanchored, hsuspicious]
  have hstop : ∀ a, m'.instructionStop a = m.instructionStop a := by
    intro a
    unfold ByteMap.instructionStop
    rw [ByteMap.size_eq, ByteMap.size_eq, h.coverage]
    congr 1
    funext b
    rw [ByteMap.contains_congr h.coverage, h.keeps.body]
  have hblocks : blocks m' = blocks m := by
    rw [blocks_eq, blocks_eq, suspects_eq, suspects_eq, h.coverage,
      List.filter_congr fun a _ => hsuspicious a]
    simp only [hstop]
  unfold guilty
  rw [hblocks]
  exact List.filter_congr fun block _ => isGuilty_congr (h.keeps.start block.stop)

/-- A review of plausible blocks changes nothing. -/
lemma foldl_reviewBlock_of_innocent {o : Outcome} (h : ∀ s ∈ spans, isGuilty v o.map s = false) :
    ∃ n, spans.foldl (reviewBlock v.image v.decoder) o = { o with blocksReviewed := n } := by
  induction spans generalizing o with
  | nil => exact ⟨o.blocksReviewed, rfl⟩
  | cons block rest ih =>
    rw [List.forall_mem_cons] at h
    have hreview : reviewBlock v.image v.decoder o block =
        { o with blocksReviewed := o.blocksReviewed + 1 } := by
      have hplausible := h.1
      rw [isGuilty, Bool.not_eq_false'] at hplausible
      exact if_pos (of_decide_eq_true hplausible)
    rw [List.foldl_cons, hreview]
    exact ih h.2

lemma review_of_innocent (h : guilty v m = []) (index : ReferenceIndex) :
    ∃ n, review v.image v.decoder m index = { map := m, index, blocksReviewed := n } := by
  refine foldl_reviewBlock_of_innocent fun s hs => ?_
  simpa using List.filter_eq_nil_iff.mp h s hs

end CodeBlocks

/-! ## Passes over a map in which everything is decided -/

lemma ByteMap.unprocessedRuns_eq_nil (h : ∀ a, m.kind a ≠ .unprocessed) :
    m.unprocessedRuns = [] := by
  have hnone : m.toList.filter (fun e => e.2.marks.kind == .unprocessed) = [] := by
    rw [List.filter_eq_nil_iff]
    intro e he
    rw [toList_eq] at he
    obtain ⟨a, -, rfl⟩ := List.mem_map.mp he
    have hkind : (m.cell a).marks.kind ≠ .unprocessed := h a
    simp [hkind]
  unfold unprocessedRuns
  rw [hnone]
  rfl

namespace Passes

/-- **Where every byte is decided and no block is guilty, the passes change nothing.** -/
lemma run_eq_self (hdecided : ∀ a, m.kind a ≠ .unprocessed)
    (hinnocent : v.settings.validateCode = true → CodeBlocks.guilty v m = [])
    (index : ReferenceIndex) :
    run v.image v.decoder v.settings m index = some { map := m, index } := by
  have hruns := ByteMap.unprocessedRuns_eq_nil hdecided
  have htables : findTables v.image { map := m, index } = some { map := m, index } := by
    simp [findTables, PointerTables.detect, PointerTables.searchAll, hruns]
  have hstrings : findStrings v.image { map := m, index } = { map := m, index } := by
    simp [findStrings, Strings.detect, hruns]
  have hrest : fillRest { map := m, index } = { map := m, index } := by
    simp [fillRest, backfill, hruns]
  have hcode : v.settings.validateCode = true →
      reviewCode v.image v.decoder { map := m, index } = { map := m, index } := by
    intro hvalidate
    obtain ⟨n, hreview⟩ := CodeBlocks.review_of_innocent (hinnocent hvalidate) index
    simp [reviewCode, hreview]
  unfold run
  simp only [htables, hstrings, ite_self, Option.bind_eq_bind, Option.bind_some, Option.pure_def]
  split
  · next hvalidate => rw [hcode hvalidate, hrest]
  · rw [hrest]

end Passes

namespace Survey

variable {s t : State}

/-! ## The end of a survey -/

lemma guilty_finishFrom (hv : v.Proper) (hs : v.Sound s.map)
    (hvalidate : v.settings.validateCode = true) :
    CodeBlocks.guilty v (v.finishFrom s).map = [] := by
  have hstrings : v.Sound (if v.settings.detectStrings then v.finalizeStrings s else s).map := by
    split
    · exact (reviewed_finalizeStrings v s).changes.sound hv hs
    · exact hs
  unfold finishFrom
  dsimp only
  rw [if_pos hvalidate, CodeBlocks.guilty_of_fills (fills_finalizeRest _), (map_finalizeCode v _).1]
  exact CodeBlocks.guilty_review hv hstrings _

/-- **After the last step** no block is guilty, if it was carried out and reviews blocks at all. -/
lemma guilty_finalize (hv : v.Proper) (hs : v.Sound s.map) (hdone : (v.finalize s).phase = .done)
    (hvalidate : v.settings.validateCode = true) : CodeBlocks.guilty v (v.finalize s).map = [] := by
  rcases finalize_cases v s with ⟨-, -, -, hfinal⟩ | ⟨scan, -, hscan, -, hfinal⟩ | ⟨-, -, hfinal⟩
  · rw [hfinal] at hdone
    cases hdone
  · have hdrained := drained_noteTables (s := { s with agenda := .empty }) hv hs hscan
    rw [hfinal]
    exact guilty_finishFrom hv (hdrained.changes.sound hv hs) hvalidate
  · rw [hfinal]
    exact guilty_finishFrom hv hs hvalidate

/-- Neither discovery nor giving up ends a survey. -/
lemma Stepped.phase_of_done {taken : Option Address} {seeds : List Address}
    (h : v.Stepped s taken seeds t) (hdone : t.phase = .done) :
    s.phase = .finalizing ∨ s.phase.isOver = true := by
  cases h with
  | discovery _ hdiscovery =>
    cases hdiscovery with
    | ended _ _ _ _ _ _ hnext =>
      rw [hnext] at hdone
      cases hdone
    | refused _ _ _ hnext => exact absurd hdone hnext.ne_done
    | succeeded _ _ _ _ hnext => exact absurd hdone hnext.ne_done
    | failed => cases hdone
  | recovery _ _ _ hnext => exact absurd hdone hnext.ne_done
  | finalization hphase _ => exact Or.inl hphase
  | idle hphase => exact Or.inr hphase

/-- A survey ends by its last step. -/
lemma Reaches.exists_finalize_eq (hv : v.Proper) (hs : v.Consistent s) (hphase : s.phase ≠ .done)
    (h : v.Reaches s t) (hdone : t.phase = .done) : ∃ s₁, v.Sound s₁.map ∧ v.finalize s₁ = t := by
  induction h with
  | refl => exact absurd hdone hphase
  | @step t cancelled hreaches ih =>
    have hconsistent := (hreaches.consistent hv hs).1
    rcases (hconsistent.stepped hv cancelled).phase_of_done hdone with hfinalizing | hended
    · refine ⟨t, hconsistent.sound, ?_⟩
      unfold Survey.step
      rw [hfinalizing]
    · rw [step_of_isOver hended] at hdone ⊢
      exact ih hdone

/-- **Running the passes a second time changes nothing.**  For every image that loads, all settings,
and wherever the survey is cancelled: it ends, and when the passes run once more over the map and
the index it leaves, they come to an end, report no change, and make none.  The exception are
surveys that stop, which needs an executable region that reaches up to the last addresses. -/
theorem second_run_is_noop {file : Array UInt8} {layout : Layout}
    (hload : Image.load file layout = .ok v.image) (hdecoder : v.decoder.Faithful)
    (cancelled : Nat → Bool) :
    (v.run cancelled).phase = .stopped ∧ ¬v.image.EndsBy 0xfffffffc ∨
    (v.run cancelled).phase = .done ∧
    ∃ outcome,
      Passes.run v.image v.decoder v.settings (v.run cancelled).map (v.run cancelled).index =
        some outcome ∧
      outcome.report.isNoop = true ∧ outcome.map = (v.run cancelled).map ∧
      outcome.index = (v.run cancelled).index := by
  have hv : v.Proper := ⟨Image.placed_of_load hload, hdecoder⟩
  obtain ⟨hends, hreachable⟩ := run_ends hv cancelled
  refine hends.symm.imp_right fun hdone => ⟨hdone, ?_⟩
  generalize v.run cancelled = s at hdone hreachable
  have hstart : v.start.phase ≠ .done := by
    obtain ⟨map, agenda, hfirst⟩ := exists_start_eq v
    rw [hfirst]
    exact nofun
  have hinnocent : v.settings.validateCode = true → CodeBlocks.guilty v s.map = [] := by
    intro hvalidate
    obtain ⟨s₁, hsound, rfl⟩ := Reaches.exists_finalize_eq hv (consistent_start v) hstart
      hreachable hdone
    exact guilty_finalize hv hsound hdone hvalidate
  exact ⟨_, Passes.run_eq_self ((hreachable.consistent hv).decided hdone) hinnocent s.index, rfl,
    rfl, rfl⟩

/-- The small survey with guesses reviews two blocks and turns one of them into data; a second run
keeps the other. -/
theorem second_run_is_noop_guessing :
    (guessing.run fun _ => false).stats.codeBlocksReclassified = 1 ∧
      CodeBlocks.blocks (guessing.run fun _ => false).map = [⟨0x1024, 0x1027⟩] ∧
      ∃ outcome, Passes.run guessing.image guessing.decoder guessing.settings
          (guessing.run fun _ => false).map (guessing.run fun _ => false).index = some outcome ∧
        outcome.report.isNoop = true := by
  have hload : Image.load guessFile guessImage.layout = .ok guessing.image := by decide +kernel
  have hcount : (guessing.run fun _ => false).stats.codeBlocksReclassified = 1 := by decide +kernel
  have hblocks : CodeBlocks.blocks (guessing.run fun _ => false).map = [⟨0x1024, 0x1027⟩] := by
    decide +kernel
  have hends : guessing.image.EndsBy 0xfffffffc := by decide +kernel
  rcases second_run_is_noop hload (Decoder.faithful_x86 .bits32 guessImage.span) fun _ => false with
    ⟨-, hhigh⟩ | ⟨-, outcome, hrun, hnoop, -, -⟩
  · exact absurd hends hhigh
  · exact ⟨hcount, hblocks, outcome, hrun, hnoop⟩

end Survey

end CodeSift
