import CodeSift.Proofs.Reachability

/-!
# A failed attempt rolls back to an instruction boundary

How far a failed attempt is given up is read off the map alone, from labels, anchors and code,
without a record of what the attempt did.  The main statement, `failed_attempt_rolls_back`, compares
the state before the attempt with the one after giving it up, and finds that nothing but the
attempt's own instructions is touched: up to some boundary they stay, from there on the bytes are as
if never looked at, and every other byte and every earlier relation is what it was.

Relations need an argument of their own.  Giving up drops the relations made in the bytes it clears,
and their partners.  A relation from before the attempt is not among them, because its site was the
start of an instruction or data (`State.Sited`), while the bytes that are cleared were undecided;
and its partner is not either, because the index holds both halves of each
(`ReferenceIndex.Paired`).
-/

namespace CodeSift

namespace Survey

variable {v : Survey} {s t u : State} {a b x : Address} {f : Failure} {path : List Instruction}
  {taken : Option Address} {seeds : List Address}

/-! ## The index of a survey -/

/-- **During discovery** relations are held by both halves and made at instructions or data. -/
structure Indexed (s : State) : Prop where
  paired : s.index.Paired
  sited : s.Sited

lemma indexed_start (v : Survey) : Indexed v.start := by
  obtain ⟨map, agenda, hstart⟩ := exists_start_eq v
  rw [hstart]
  exact ⟨ReferenceIndex.paired_empty, fun r hr => absurd hr (ReferenceIndex.not_mem_empty r)⟩

/-- A step that leads to discovery or to giving up keeps the index so. -/
lemma Stepped.indexed (h : v.Stepped s taken seeds t)
    (hs : s.phase = .discovering ∨ s.phase = .recovering → Indexed s)
    (hphase : t.phase = .discovering ∨ t.phase = .recovering) : Indexed t := by
  cases h with
  | discovery hdiscovering hdiscovery =>
    have hindexed := hs (Or.inl hdiscovering)
    cases hdiscovery with
    | ended _ _ _ _ _ _ hended =>
      rw [hended] at hphase
      rcases hphase with hphase | hphase <;> cases hphase
    | refused _ htried _ _ => exact ⟨htried.paired hindexed.paired, htried.sited hindexed.sited⟩
    | succeeded _ _ htried _ _ => exact ⟨htried.paired hindexed.paired, htried.sited hindexed.sited⟩
    | failed _ _ _ _ hfailing =>
      exact ⟨hfailing.paired hindexed.paired, hfailing.sited hindexed.sited⟩
  | recovery hrecovering _ hrecovered _ =>
    have hindexed := hs (Or.inr hrecovering)
    refine ⟨?_, hrecovered.sited hindexed.sited⟩
    rw [hrecovered.index]
    exact hindexed.paired.eraseSites _
  | finalization _ hfinalized =>
    have hover := hfinalized.phase
    rcases hphase with hphase | hphase <;> rw [hphase] at hover <;> cases hover
  | idle hover => rcases hphase with hphase | hphase <;> rw [hphase] at hover <;> cases hover

lemma Reachable.indexed (hv : v.Proper) (h : v.Reachable s)
    (hphase : s.phase = .discovering ∨ s.phase = .recovering) : Indexed s := by
  induction h with
  | refl => exact indexed_start v
  | step cancelled hreach ih =>
    exact ((Reachable.consistent hv hreach).stepped hv cancelled).indexed ih hphase

/-! ## No attempt fails inside an instruction -/

/-- No failure that is pending or remembered came from being inside an instruction. -/
structure Outside (s : State) : Prop where
  history {e : ErasedSpan} : e ∈ s.history → e.failure.kind ≠ .insideInstruction
  pending {f : Failure} : s.phase = .recovering → s.failure = some f → f.kind ≠ .insideInstruction

lemma outside_start (v : Survey) : Outside v.start := by
  obtain ⟨map, agenda, hstart⟩ := exists_start_eq v
  rw [hstart]
  exact ⟨nofun, nofun⟩

/-- A state that remembers old failures and new ones from outside instructions only. -/
lemma Outside.of_history (h : Outside s) (hphase : t.phase ≠ .recovering)
    (hhistory : ∀ e ∈ t.history, e ∈ s.history ∨ e.failure.kind ≠ .insideInstruction) :
    Outside t where
  history he := by
    rcases hhistory _ he with hold | hnew
    · exact h.history hold
    · exact hnew
  pending hrecovering := absurd hrecovering hphase

lemma Stepped.outside (h : v.Stepped s taken seeds t) (hs : Outside s) : Outside t := by
  cases h with
  | discovery _ hdiscovery =>
    cases hdiscovery with
    | ended _ _ _ hhistory _ _ hphase =>
      refine hs.of_history (by rw [hphase]; exact nofun) fun e he => ?_
      rw [hhistory] at he
      exact Or.inl he
    | refused _ htried _ hnext => exact hs.of_history hnext.ne_recovering fun e => htried.history
    | succeeded _ _ htried _ hnext =>
      exact hs.of_history hnext.ne_recovering fun e => htried.history
    | failed _ _ _ _ hfailing =>
      refine ⟨fun he => hs.history (hfailing.history ▸ he), fun _ hf => ?_⟩
      cases hf
      exact hfailing.kind
  | recovery hrecovering hfailure hrecovered hnext =>
    refine hs.of_history hnext.ne_recovering fun e he => ?_
    rcases hrecovered.history he with hold | hnew
    · exact Or.inl hold
    · exact Or.inr (by rw [hnew]; exact hs.pending hrecovering hfailure)
  | finalization _ hfinalized =>
    exact hs.of_history (ne_recovering_of_isOver hfinalized.phase) fun e => hfinalized.history
  | idle _ => exact hs

lemma Reachable.outside (hv : v.Proper) (h : v.Reachable s) : Outside s := by
  induction h with
  | refl => exact outside_start v
  | step cancelled hreach ih =>
    exact ((Reachable.consistent hv hreach).stepped hv cancelled).outside ih

/-- The failures of the attempts that decoding the targets makes, in order. -/
def drainFailures (v : Survey) : State → List Address → List Failure
  | _, [] => []
  | s, target :: rest =>
    (v.targetSeeds s target).filterMap (fun a => (v.attempt .decoding .tableEntry s a).2) ++
      v.drainFailures (v.decodeTarget s target) rest

/-- The failures of the attempts that the last step makes, in order. -/
def finalFailures (v : Survey) (s : State) : List Failure :=
  if v.settings.detectAddressTables then
    match v.tables? s with
    | none => []
    | some scan =>
      v.drainFailures (({ s with agenda := .empty } : State).noteTables scan) scan.targets
  else []

lemma kind_of_mem_drainFailures (hv : v.Proper) (hs : v.Sound s.map) {targets : List Address}
    (hf : f ∈ v.drainFailures s targets) : f.kind ≠ .insideInstruction := by
  induction targets generalizing s with
  | nil => cases hf
  | cons target rest ih =>
    rcases List.mem_append.mp hf with hfirst | hlater
    · obtain ⟨a, ha, hfailure⟩ := List.mem_filterMap.mp hfirst
      obtain ⟨rfl, hopen⟩ := mem_targetSeeds ha
      exact (failing_attempt hv hs hopen (Prod.ext rfl hfailure)).2.kind
    · exact ih ((tried_decodeTarget hv hs target).1.changes.sound hv hs) hlater

lemma kind_of_mem_finalFailures (hv : v.Proper) (hs : v.Sound s.map) (hf : f ∈ v.finalFailures s) :
    f.kind ≠ .insideInstruction := by
  unfold finalFailures at hf
  split at hf
  · split at hf
    · cases hf
    · next scan hscan =>
      exact kind_of_mem_drainFailures hv
        (hs.keeps hv (keeps_noteTables (s := { s with agenda := .empty }) hv hscan)) hf
  · cases hf

/-! ## Rolling back -/

/-- **The last state is the first with an attempt rolled back** to the boundary `b`: of the
instructions that the attempt decoded it keeps those in front of the boundary and drops the
others. -/
structure RolledBack (v : Survey) (s : State) (f : Failure) (b : Address)
    (kept dropped : List Instruction) (u : State) : Prop where
  front : v.Sweep f.seed kept b
  behind : v.Sweep b dropped f.cursor
  decoded : u.stats.instructionsDecoded = s.stats.instructionsDecoded + (kept ++ dropped).length
  between : f.seed ≤ b ∧ b ≤ f.cursor
  fresh : ∀ x ∈ (⟨f.seed, f.cursor⟩ : Span), s.map.kind x = .unprocessed
  code : ∀ x ∈ (⟨f.seed, b⟩ : Span), u.map.kind x =
    if x ∈ kept.map Instruction.address then .instructionStart else .instructionBody
  cleared : ∀ x ∈ (⟨b, f.cursor⟩ : Span), u.map.cell x = .fresh
  same : ∀ x ∉ (⟨f.seed, f.cursor⟩ : Span),
    u.map.kind x = s.map.kind x ∧ u.map.dataClass x = s.map.dataClass x
  relations : ∀ r ∈ s.index, r ∈ u.index
  sites : ∀ r ∈ u.index, r.isForward = true → r ∈ s.index ∨ r.site ∈ (⟨f.seed, b⟩ : Span)

lemma kind_congr {m m' : ByteMap} (hstart : (m'.marks x).start = (m.marks x).start)
    (hbody : (m'.marks x).body = (m.marks x).body) (hdata : (m'.marks x).data = (m.marks x).data) :
    m'.kind x = m.kind x := by
  unfold ByteMap.kind Marks.kind
  rw [hstart, hbody, hdata]

/-- The bytes of instructions that stand one behind the other. -/
lemma Sweep.kind_eq {m : ByteMap} (hv : v.Proper) (hm : v.Tiled m) (h : v.Sweep a path b)
    (hstands : ∀ i ∈ path, v.Stands m i.address i) (hx : x ∈ (⟨a, b⟩ : Span)) :
    m.kind x =
      if x ∈ path.map Instruction.address then .instructionStart else .instructionBody := by
  unfold ByteMap.kind Marks.kind
  by_cases hfirst : x ∈ path.map Instruction.address
  · obtain ⟨i, hi, rfl⟩ := List.mem_map.mp hfirst
    rw [if_pos hfirst, if_pos (hstands i hi).start]
  · obtain ⟨i, hi, hle, hlt⟩ := h.exists_mem hx hv
    have hne : i.address ≠ x := fun heq => hfirst (List.mem_map.mpr ⟨i, hi, heq⟩)
    rw [Ne, ← UInt32.toNat_inj] at hne
    have hbody := (hstands i hi).body x
      ((hv.mem_tailOf (hstands i hi).reads).mpr ⟨by omega, hlt⟩)
    have hstart : (m.marks x).start = false := by
      rw [Bool.eq_false_iff]
      intro hstart
      rw [(hm.exclusive x).body_of_start hstart] at hbody
      cases hbody
    rw [if_neg hfirst, hstart, if_neg Bool.false_ne_true, if_pos hbody]

/-- **No relation from before an attempt is lost in giving it up.** -/
lemma Swept.mem_index_of_recovered (h : v.Swept s f.seed path t f.cursor)
    (hrecovered : v.Recovered t f b u) (hs : Indexed s) {r : CrossReference} (hr : r ∈ s.index) :
    r ∈ u.index := by
  -- a forward relation that is dropped was made in the cleared bytes, which were undecided before
  have hnew : ∀ q ∈ t.index, q.site ∈ (⟨b, f.cursor⟩ : Span) → q.isForward = true →
      q ∉ s.index := by
    intro q _ hsite hforward hold
    obtain ⟨hstart, -, hdata⟩ :=
      ByteMap.kind_eq_unprocessed_iff.mp (h.fresh_of_recovered hrecovered hsite)
    rcases hs.sited q hold hforward with hsited | hsited
    · rw [hstart] at hsited
      cases hsited
    · rw [hdata] at hsited
      cases hsited
  rw [hrecovered.index, ReferenceIndex.mem_eraseSites]
  refine ⟨h.relations hr, fun q hq hsite hforward => ⟨?_, ?_⟩⟩
  · rintro rfl
    exact hnew r hq hsite hforward hr
  · intro hpartner
    have hold := hs.paired r hr
    rw [← CrossReference.partner_eq_iff.mp hpartner] at hold
    exact hnew q hq hsite hforward hold

/-- **The new relations are made by the instructions that are kept.** -/
lemma Swept.site_mem_of_recovered (hv : v.Proper) (h : v.Swept s f.seed path t f.cursor)
    (hrecovered : v.Recovered t f b u) (hnoJump : ∀ i ∈ path, i.flow ≠ .jumpIndirect)
    {r : CrossReference} (hr : r ∈ u.index) (hforward : r.isForward = true) :
    r ∈ s.index ∨ r.site ∈ (⟨f.seed, b⟩ : Span) := by
  rw [hrecovered.index] at hr
  rcases h.sites (ReferenceIndex.mem_eraseSites.mp hr).1 hforward with
    hold | ⟨i, hi, hsite⟩ | ⟨⟨i, hi, hjump⟩, -⟩
  · exact Or.inl hold
  · have hmem := h.sweep.mem_span hv hi
    have hout := ReferenceIndex.not_mem_span_of_mem_eraseSites hr hforward
    rw [hsite] at hout ⊢
    rw [Span.mem_mk] at hmem hout ⊢
    exact Or.inr ⟨hmem.1, by omega⟩
  · exact absurd hjump (hnoJump i hi)

/-- **A sweep that is given up is rolled back.** -/
lemma Swept.rolledBack (hv : v.Proper) (ht : v.Sound t.map) (h : v.Swept s f.seed path t f.cursor)
    (hrecovered : v.Recovered t f b u) (hnoJump : ∀ i ∈ path, i.flow ≠ .jumpIndirect)
    (hs : Indexed s) :
    ∃ kept dropped, v.RolledBack s f b kept dropped u := by
  have hboundary := hrecovered.boundary
  obtain ⟨kept, dropped, rfl, hkept, hdropped⟩ :=
    h.sweep.split hv (fun i hi => h.stands hi) hboundary.le hboundary.le_cursor hboundary.body
  refine ⟨kept, dropped, hkept, hdropped, hrecovered.decoded.trans h.decoded,
    ⟨UInt32.le_iff_toNat_le.mpr hboundary.le, UInt32.le_iff_toNat_le.mpr hboundary.le_cursor⟩,
    fun x => h.fresh, fun x hx => ?_, fun x => hrecovered.cleared, fun x hx => ?_,
    fun r => h.mem_index_of_recovered hrecovered hs,
    fun r => h.site_mem_of_recovered hv hrecovered hnoJump⟩
  · have hout : x ∉ (⟨b, f.cursor⟩ : Span) := by
      rw [Span.mem_mk] at hx ⊢
      omega
    obtain ⟨hstart, hbody, hdata, -⟩ := hrecovered.same hout
    rw [kind_congr hstart hbody hdata]
    exact hkept.kind_eq hv ht.tiled (fun i hi => h.stands (List.mem_append_left _ hi)) hx
  · have hout : x ∉ (⟨b, f.cursor⟩ : Span) := by
      have hle := hboundary.le
      rw [Span.mem_mk] at hx ⊢
      omega
    obtain ⟨hstart, hbody, hdata, hclass⟩ := hrecovered.same hout
    obtain ⟨hstart', hbody'⟩ := h.same hx
    obtain ⟨hdata', hclass'⟩ := h.untouched hnoJump x
    exact ⟨kind_congr (hstart.trans hstart') (hbody.trans hbody') (hdata.trans hdata'),
      hclass.trans hclass'⟩

/-- A step of discovery behind which an attempt is pending has made that attempt. -/
lemma exists_attempt_of_recovering {cancelled : Bool} (hv : v.Proper) (hs : v.Consistent s)
    (hphase : s.phase = .discovering) (hnext : (v.step cancelled s).phase = .recovering) :
    ∃ lead rest t f, s.agenda.pop? = some (lead, rest) ∧ v.isSettled s lead.address = false ∧
      v.attempt .discovery lead.confidence { s with agenda := rest } lead.address = (t, some f) ∧
      v.step cancelled s = { t with failure := some f, phase := .recovering } := by
  have hstep : v.step cancelled s = v.discover cancelled s := by rw [Survey.step, hphase]
  have hdiscovery := discovery_discover hv hs.sound cancelled
  rw [hstep] at hnext ⊢
  generalize v.lead? cancelled s = lead at hdiscovery
  generalize v.seed? cancelled s = seed at hdiscovery
  generalize v.discover cancelled s = t at hdiscovery hnext
  cases hdiscovery with
  | ended _ _ _ _ _ _ hended =>
    rw [hended] at hnext
    cases hnext
  | refused _ _ _ hproceeds => exact absurd hnext hproceeds.ne_recovering
  | succeeded _ _ _ _ hproceeds => exact absurd hnext hproceeds.ne_recovering
  | @failed t lead rest f hpop hopen hattempt _ _ =>
    exact ⟨lead, rest, t, f, hpop, hopen, hattempt, rfl⟩

/-- **A failed attempt rolls back exactly to an instruction boundary.**  When a step of discovery
takes an address from the agenda and its attempt fails, the next step gives the attempt up, and
leaves of it the instructions in front of some boundary and nothing else.  No attempt, in discovery
or in the last step, fails because it is inside an instruction. -/
theorem failed_attempt_rolls_back {file : Array UInt8} {layout : Layout}
    (hload : Image.load file layout = .ok v.image) (hdecoder : v.decoder.Faithful)
    (hs : v.Reachable s) :
    (∀ cancelled cancelled', s.phase = .discovering → (v.step cancelled s).phase = .recovering →
      ∃ lead rest f b kept dropped, s.agenda.pop? = some (lead, rest) ∧
        (v.step cancelled s).failure = some f ∧ f.seed = lead.address ∧
          f.kind ≠ .insideInstruction ∧
        v.RolledBack s f b kept dropped (v.step cancelled' (v.step cancelled s))) ∧
    (∀ f ∈ v.finalFailures s, f.kind ≠ .insideInstruction) ∧
    (∀ e ∈ s.history, e.failure.kind ≠ .insideInstruction) := by
  have hv : v.Proper := ⟨Image.placed_of_load hload, hdecoder⟩
  have hconsistent := hs.consistent hv
  refine ⟨fun cancelled cancelled' hphase hnext => ?_,
    fun f => kind_of_mem_finalFailures hv hconsistent.sound, fun e => (hs.outside hv).history⟩
  obtain ⟨lead, rest, t, f, hpop, hopen, hattempt, hstep⟩ :=
    exists_attempt_of_recovering hv hconsistent hphase hnext
  obtain ⟨hseed, hcursor, hkind, path, hswept, hnoJump⟩ :=
    swept_of_attempt_failed (s := { s with agenda := rest }) hv hconsistent.sound
      (body_of_isSettled hopen) hattempt
  rw [← hseed] at hswept
  have ht := hswept.changes.sound hv hconsistent.sound
  have hdoubtful := hswept.doubtful hv ht hcursor
  have hindexed := hs.indexed hv (Or.inl hphase)
  obtain ⟨b, hrecovered, -⟩ :=
    recovered_recoverFailure (t := { t with failure := some f, phase := .recovering }) hv ht rfl
      hdoubtful
  obtain ⟨kept, dropped, hrolled⟩ :=
    hswept.rolledBack hv ht hrecovered.of_pending hnoJump ⟨hindexed.paired, hindexed.sited⟩
  rw [hstep]
  exact ⟨lead, rest, f, b, kept, dropped, hpop, rfl, hseed, hkind,
    ⟨hrolled.front, hrolled.behind, hrolled.decoded, hrolled.between, hrolled.fresh, hrolled.code,
      hrolled.cleared, hrolled.same, hrolled.relations, hrolled.sites⟩⟩

/-- The second step of the small survey fails behind the instructions at `0x1006`, `0x1007` and
`0x1008`; the third step keeps the first of them. -/
theorem failed_attempt_rolls_back_sample :
    (sample.stateAt (fun _ => false) 1).phase = .discovering ∧
      (sample.stateAt (fun _ => false) 2).phase = .recovering ∧
      ∃ f b kept dropped, (sample.stateAt (fun _ => false) 2).failure = some f ∧
        sample.RolledBack (sample.stateAt (fun _ => false) 1) f b kept dropped
          (sample.stateAt (fun _ => false) 3) := by
  have hload : Image.load sampleFile sampleImage.layout = .ok sample.image := by decide +kernel
  have hphase : (sample.stateAt (fun _ => false) 1).phase = .discovering := by decide +kernel
  have hnext : (sample.stateAt (fun _ => false) 2).phase = .recovering := by decide +kernel
  have hfaithful : sample.decoder.Faithful :=
    (Decoder.faithful_x86 .bits32 sampleImage.span).failingAt [0x100a]
  obtain ⟨hrollsBack, -⟩ :=
    failed_attempt_rolls_back hload hfaithful (reachable_stateAt sample (fun _ => false) 1)
  obtain ⟨lead, rest, f, b, kept, dropped, -, hfailure, -, -, hrolled⟩ :=
    hrollsBack false false hphase hnext
  exact ⟨hphase, hnext, f, b, kept, dropped, hfailure, hrolled⟩

end Survey

end CodeSift
