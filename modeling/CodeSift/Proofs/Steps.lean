import CodeSift.Proofs.CodeReview
import CodeSift.Proofs.StringSearch
import CodeSift.Proofs.TableSearch
import CodeSift.Proofs.Trials
import CodeSift.Survey.Run

/-!
# What each step of a survey does

This module looks into the step functions, once for each; what later modules say about surveys is
derived from what is said here.

* The first state has no code at all (`blank_start`), and only its map and its agenda are not empty
  (`exists_start_eq`).
* A step of discovery ends discovery, or tries one address, or leaves an attempt that has failed
  (`Discovery`).  `lead?` and `seed?` name the lead that the step takes from the agenda and the
  address from which it makes an attempt, and the inversion lemma `discovery_discover` is stated
  with them.
* The step behind a failed attempt gives it up (`recovered_recoverFailure`).
* The last step decodes what tables point to, one target at a time (`tried_decodeTarget`), searches
  for data and reviews code; all it does to the map is made of changes, and it leaves no byte
  undecided unless the search for tables fails (`finalized_finalize`).
-/

namespace CodeSift

namespace Survey

variable {v : Survey} {s t u : State} {a b x : Address} {f : Failure} {m : ByteMap}

/-! ## The first state -/

/-- A map of the image without code. -/
structure Blank (v : Survey) (m : ByteMap) : Prop where
  coverage : m.coverage = (ByteMap.ofImage v.image).coverage
  start (a : Address) : (m.marks a).start = false
  body (a : Address) : (m.marks a).body = false
  foreign {a : Address} : v.image.isExecutable a = false → (m.marks a).data = true

lemma coverage_anchor (v : Survey) (marks : Marks) (confidence : Confidence) (s : State)
    (b : Address) : (v.anchor marks confidence s b).map.coverage = s.map.coverage := by
  unfold anchor
  split
  · exact ByteMap.coverage_mark _ _ _
  · rfl

lemma coverage_start (v : Survey) : v.start.map.coverage = (ByteMap.ofImage v.image).coverage := by
  have hfold : ∀ (addresses : List Address) (s : State),
      (addresses.foldl (v.anchor { anchor := true } .exported) s).map.coverage =
        s.map.coverage := by
    intro addresses
    induction addresses with
    | nil => exact fun _ => rfl
    | cons b rest ih => exact fun s => (ih _).trans (coverage_anchor v _ _ s b)
  exact (hfold _ _).trans (coverage_anchor v _ _ _ _)

/-- An address that is made an anchor receives marks, and no other does. -/
lemma cell_anchor (v : Survey) (marks : Marks) (confidence : Confidence) (s : State)
    (a b : Address) :
    (v.anchor marks confidence s b).map.cell a = s.map.cell a ∨
      (v.anchor marks confidence s b).map.cell a =
        (s.map.cell a).mark (marks ||| { labelled := true }) := by
  unfold anchor
  split
  · dsimp only
    rw [ByteMap.cell_mark]
    split
    · exact Or.inr rfl
    · exact Or.inl rfl
  · exact Or.inl rfl

/-- **What holds of every byte of the first state**: whatever holds of the bytes of a new map, and
stays when a byte is marked as the entry or as an export. -/
lemma cell_start_induction {Q : Address → Cell → Prop} (v : Survey)
    (hnew : ∀ a, Q a (if v.image.isExecutable a = true then .fresh else .outside))
    (hentry : ∀ a c, Q a c → Q a (c.mark { entry := true, labelled := true }))
    (hanchor : ∀ a c, Q a c → Q a (c.mark { anchor := true, labelled := true })) (a : Address) :
    Q a (v.start.map.cell a) := by
  have hfold : ∀ (marks : Marks) (confidence : Confidence) (addresses : List Address) (s : State),
      (∀ a c, Q a c → Q a (c.mark (marks ||| { labelled := true }))) → (∀ a, Q a (s.map.cell a)) →
      ∀ a, Q a ((addresses.foldl (v.anchor marks confidence) s).map.cell a) := by
    intro marks confidence addresses s hmark
    induction addresses generalizing s with
    | nil => exact id
    | cons b rest ih =>
      refine fun hs => ih _ fun a => ?_
      rcases cell_anchor v marks confidence s a b with hsame | hmarked
      · exact hsame ▸ hs a
      · exact hmarked ▸ hmark a _ (hs a)
  refine hfold _ _ _ _ hanchor (hfold _ _ [v.image.entryPoint] _ hentry fun a => ?_) a
  exact ByteMap.cell_ofImage v.image a ▸ hnew a

/-- A map without code is in order. -/
lemma Blank.sound (h : v.Blank m) : v.Sound m where
  coverage := h.coverage
  tiled := {
    exclusive a := by
      unfold Marks.Exclusive
      rw [h.start, h.body]
      cases (m.marks a).data <;> decide
    foreign := h.foreign
    starts hstart := by
      rw [h.start] at hstart
      cases hstart
    bodies hbody := by
      rw [h.body] at hbody
      cases hbody }
  free _ := h.body _

/-- **The first state is without code.** -/
lemma blank_start (v : Survey) : v.Blank v.start.map := by
  have hcells := @cell_start_induction (fun a c => c.marks.start = false ∧ c.marks.body = false ∧
    (v.image.isExecutable a = false → c.marks.data = true)) v
    (fun a => by
      split
      · next hexecutable => simp [Cell.fresh, hexecutable]
      · simp [Cell.outside])
    (fun a c hc => by simpa [Cell.mark] using hc) (fun a c hc => by simpa [Cell.mark] using hc)
  exact ⟨coverage_start v,
    fun a => (hcells a).1, fun a => (hcells a).2.1, fun {a} => (hcells a).2.2⟩

lemma exists_foldl_anchor_eq (v : Survey) (marks : Marks) (confidence : Confidence)
    (addresses : List Address) (s : State) :
    ∃ map agenda, addresses.foldl (v.anchor marks confidence) s = { s with map, agenda } := by
  induction addresses generalizing s with
  | nil => exact ⟨s.map, s.agenda, rfl⟩
  | cons a rest ih =>
    obtain ⟨map, agenda, hrest⟩ := ih (v.anchor marks confidence s a)
    refine ⟨map, agenda, ?_⟩
    rw [List.foldl_cons, hrest]
    unfold anchor
    split <;> rfl

/-- The first state has a map and an agenda, and nothing else. -/
lemma exists_start_eq (v : Survey) : ∃ map agenda, v.start = { map, agenda } := by
  obtain ⟨map, agenda, hexports⟩ := exists_foldl_anchor_eq v { anchor := true } .exported
    (v.image.layout.exports.map fun e => v.image.address e.rva)
    (v.anchor { entry := true } .entry { map := ByteMap.ofImage v.image } v.image.entryPoint)
  refine ⟨map, agenda, ?_⟩
  unfold start
  dsimp only
  rw [hexports]
  unfold anchor
  split <;> rfl

lemma contains_foldl_anchor {marks : Marks} {confidence : Confidence} {addresses : List Address} :
    (addresses.foldl (v.anchor marks confidence) s).agenda.contains x = true ↔
      s.agenda.contains x = true ∨ v.image.isExecutable x = true ∧ x ∈ addresses := by
  induction addresses generalizing s with
  | nil => simp
  | cons a rest ih =>
    have hanchor : (v.anchor marks confidence s a).agenda.contains x = true ↔
        s.agenda.contains x = true ∨ v.image.isExecutable x = true ∧ x = a := by
      unfold anchor
      split
      · rw [Agenda.contains_push]
        grind
      · grind
    rw [List.foldl_cons, ih, hanchor, List.mem_cons, and_or_left, or_assoc]

/-- **What waits in the first state**: the executable ones among the entry point and the exports. -/
lemma contains_start :
    v.start.agenda.contains x = true ↔ v.image.isExecutable x = true ∧
      (x = v.image.entryPoint ∨ ∃ e ∈ v.image.layout.exports, v.image.address e.rva = x) := by
  have hentry := @contains_foldl_anchor v { map := ByteMap.ofImage v.image } x
    { entry := true } .entry [v.image.entryPoint]
  have hempty : ({ map := ByteMap.ofImage v.image } : State).agenda.contains x = false := rfl
  rw [List.foldl_cons, List.foldl_nil, List.mem_singleton, hempty] at hentry
  unfold start
  dsimp only
  rw [contains_foldl_anchor, hentry, List.mem_map, and_or_left]
  simp

/-! ## Discovery -/

/-- No attempt is pending, and the survey has not ended.  It may have stopped. -/
def State.Proceeds (s : State) : Prop :=
  s.phase = .discovering ∨ s.phase = .finalizing ∨ s.phase = .stopped

lemma State.Proceeds.ne_recovering (h : s.Proceeds) : s.phase ≠ .recovering := by
  rcases h with h | h | h <;> rw [h] <;> exact nofun

lemma State.Proceeds.ne_done (h : s.Proceeds) : s.phase ≠ .done := by
  rcases h with h | h | h <;> rw [h] <;> exact nofun

lemma ne_recovering_of_isOver (h : s.phase.isOver = true) : s.phase ≠ .recovering := by
  intro hphase
  rw [hphase] at h
  cases h

/-- No address is taken from the agenda any more: the survey is cancelled, or there were too many
attempts. -/
def isOver (v : Survey) (cancelled : Bool) (s : State) : Bool :=
  cancelled || (v.settings.maxAttempts != 0 && v.settings.maxAttempts.toNat ≤ s.stats.attempts)

/-- The lead that a step of discovery takes from the agenda. -/
def lead? (v : Survey) (cancelled : Bool) (s : State) : Option Lead :=
  if v.isOver cancelled s then none else s.agenda.pop?.map Prod.fst

/-- The address from which a step of discovery makes an attempt: that of the lead it takes, unless
the address is settled or does not stand up to being tried out. -/
def seed? (v : Survey) (cancelled : Bool) (s : State) : Option Address :=
  (v.lead? cancelled s).bind fun lead =>
    if v.isSettled s lead.address ||
      lead.confidence.isSpeculative && !v.probe s.map lead.address then none
    else some lead.address

/-- **What a step of discovery does**, with the lead it takes from the agenda and the address from
which it makes an attempt. -/
inductive Discovery (v : Survey) (s : State) : Option Lead → Option Address → State → Prop
  /-- No address is taken, and discovery ends. -/
  | ended {t : State} : t.map = s.map → t.index = s.index → t.agenda = .empty →
      t.history = s.history →
      t.failedSeeds = s.failedSeeds → t.stats.attempts = s.stats.attempts → t.phase = .finalizing →
      Discovery v s none none t
  /-- The address is settled, or rejected. -/
  | refused {t : State} {lead : Lead} {rest : Agenda} : s.agenda.pop? = some (lead, rest) →
      v.Tried { s with agenda := rest } lead.address t → t.stats.attempts = s.stats.attempts →
      t.Proceeds → Discovery v s (some lead) none t
  /-- An attempt succeeds. -/
  | succeeded {t : State} {lead : Lead} {rest : Agenda} : s.agenda.pop? = some (lead, rest) →
      v.isSettled s lead.address = false → v.Tried { s with agenda := rest } lead.address t →
      t.stats.attempts = s.stats.attempts + 1 → t.Proceeds →
      Discovery v s (some lead) (some lead.address) t
  /-- An attempt fails. -/
  | failed {t : State} {lead : Lead} {rest : Agenda} {f : Failure} :
      s.agenda.pop? = some (lead, rest) → v.isSettled s lead.address = false →
      v.attempt .discovery lead.confidence { s with agenda := rest } lead.address = (t, some f) →
      f.seed = lead.address → v.Failing { s with agenda := rest } f t →
      Discovery v s (some lead) (some lead.address)
        { t with failure := some f, phase := .recovering }

lemma proceeds_nextPhase (s : State) : State.Proceeds { s with phase := s.nextPhase } := by
  unfold State.Proceeds State.nextPhase
  split
  · exact Or.inr (Or.inr rfl)
  · split
    · exact Or.inr (Or.inl rfl)
    · exact Or.inl rfl

/-- A trial does not depend on the phase. -/
lemma Tried.withPhase (h : v.Tried s a t) (phase : Phase) : v.Tried s a { t with phase } :=
  ⟨h.changes, h.isSettled, h.seed, h.waits, h.paired, h.sited, h.history⟩

/-- **Every step of discovery is one of these.** -/
lemma discovery_discover (hv : v.Proper) (hs : v.Sound s.map) (cancelled : Bool) :
    v.Discovery s (v.lead? cancelled s) (v.seed? cancelled s) (v.discover cancelled s) := by
  by_cases hover : v.isOver cancelled s = true
  · have hlead : v.lead? cancelled s = none := by rw [lead?, if_pos hover]
    rw [seed?, hlead]
    unfold discover
    split
    · exact .ended rfl rfl rfl rfl rfl rfl rfl
    · next hcancelled =>
      rw [isOver, Bool.eq_false_iff.mpr hcancelled, Bool.false_or] at hover
      rw [if_pos hover]
      exact .ended rfl rfl rfl rfl rfl rfl rfl
  · have hlead : v.lead? cancelled s = s.agenda.pop?.map Prod.fst := by rw [lead?, if_neg hover]
    rw [Bool.not_eq_true, isOver, Bool.or_eq_false_iff] at hover
    rw [seed?, hlead]
    unfold discover
    rw [if_neg (by rw [hover.1]; exact Bool.false_ne_true),
      if_neg (by rw [hover.2]; exact Bool.false_ne_true)]
    cases hpop : s.agenda.pop? with
    | none =>
      exact .ended rfl rfl (Agenda.eq_empty_of_isEmpty (Agenda.pop?_eq_none hpop)) rfl rfl rfl rfl
    | some p =>
      obtain ⟨lead, rest⟩ := p
      dsimp only [Option.map_some, Option.bind_some]
      have hmap : v.Sound ({ s with agenda := rest } : State).map := hs
      cases hsettled : v.isSettled s lead.address with
      | true =>
        have hsettled' : v.isSettled { s with agenda := rest } lead.address = true := hsettled
        rw [if_pos hsettled', Bool.true_or, if_pos rfl]
        exact .refused hpop ((tried_of_isSettled hsettled').withPhase _) rfl (proceeds_nextPhase _)
      | false =>
        have hopen : v.isSettled { s with agenda := rest } lead.address = false := hsettled
        rw [hopen, if_neg Bool.false_ne_true, Bool.false_or]
        split
        · exact .refused hpop ((tried_reject v _ lead.address).withPhase _) rfl
            (proceeds_nextPhase _)
        · rcases hattempt : v.attempt .discovery lead.confidence { s with agenda := rest }
            lead.address with
            ⟨t, _ | f⟩
          · obtain ⟨htried, hattempts⟩ := tried_attempt hv hmap hopen hattempt
            exact .succeeded hpop hsettled (htried.withPhase _) hattempts (proceeds_nextPhase _)
          · obtain ⟨hseed, hfailing⟩ := failing_attempt hv hmap hopen hattempt
            exact .failed hpop hsettled hattempt hseed hfailing

/-! ## Giving up -/

/-- Giving up does not depend on what is pending. -/
lemma Recovered.of_pending {failure : Option Failure} {phase : Phase}
    (h : v.Recovered { t with failure, phase } f b u) : v.Recovered t f b u :=
  ⟨h.boundary, h.changes, h.cleared, h.same, h.index, h.waits, h.failedSeeds, h.history, h.attempts,
    h.decoded⟩

/-- **The step behind a failed attempt gives it up.** -/
lemma recovered_recoverFailure (hv : v.Proper) (ht : v.Sound t.map) (hfailure : t.failure = some f)
    (hf : Doubtful t.map f) :
    ∃ b, v.Recovered t f b (v.recoverFailure t) ∧ (v.recoverFailure t).Proceeds := by
  obtain ⟨b, h⟩ := exists_recovered (t := { t with failure := none }) hv ht hf
  refine ⟨b, ?_⟩
  unfold recoverFailure
  rw [hfailure]
  dsimp only
  split
  · exact ⟨⟨h.boundary, h.changes, h.cleared, h.same, h.index, nofun, h.failedSeeds, h.history,
      h.attempts, h.decoded⟩, Or.inr (Or.inl rfl)⟩
  · exact ⟨⟨h.boundary, h.changes, h.cleared, h.same, h.index, h.waits, h.failedSeeds, h.history,
      h.attempts, h.decoded⟩, proceeds_nextPhase _⟩

/-! ## The targets of tables -/

/-- The address from which decoding a target makes an attempt, if it makes one. -/
def targetSeeds (v : Survey) (s : State) (target : Address) : List Address :=
  if v.isSettled s target || !v.probe s.map target then [] else [target]

lemma agenda_attemptFrom_decoding (v : Survey) (suspicious : Bool) (fuel : Nat) (a : Address)
    (s : State) : (v.attemptFrom .decoding suspicious fuel a s).1.agenda = s.agenda := by
  induction fuel generalizing a s with
  | zero => rfl
  | succ fuel ih =>
    unfold attemptFrom
    split
    · rfl
    · rfl
    · dsimp only
      split
      · rfl
      · rw [ih]
        rfl

lemma agenda_attempt_decoding (v : Survey) (confidence : Confidence) (s : State) (a : Address) :
    (v.attempt .decoding confidence s a).1.agenda = s.agenda := by
  change (v.attemptFrom .decoding confidence.isSpeculative (s.map.size + 1) a
    s.countAttempt).1.agenda = _
  rw [agenda_attemptFrom_decoding]
  rfl

lemma Recovered.agenda_eq_empty (h : v.Recovered t f b u) (ht : t.agenda = .empty) :
    u.agenda = .empty := by
  refine Agenda.eq_empty_of_forall fun x => Bool.eq_false_iff.mpr fun hx => ?_
  have hold := h.waits hx
  rw [ht] at hold
  cases hold

/-- **Decoding a target is a trial**, which puts nothing on the agenda. -/
lemma tried_decodeTarget (hv : v.Proper) (hs : v.Sound s.map) (a : Address) :
    v.Tried s a (v.decodeTarget s a) ∧
      (v.decodeTarget s a).stats.attempts = s.stats.attempts + (v.targetSeeds s a).length ∧
      (s.agenda = .empty → (v.decodeTarget s a).agenda = .empty) := by
  unfold decodeTarget targetSeeds
  cases hsettled : v.isSettled s a with
  | true => exact ⟨tried_of_isSettled hsettled, rfl, id⟩
  | false =>
    cases hprobe : v.probe s.map a with
    | false => exact ⟨tried_reject v s a, rfl, id⟩
    | true =>
      simp only [Bool.false_eq_true, Bool.not_true, Bool.or_self, if_false, List.length_singleton]
      have hagenda := agenda_attempt_decoding v .tableEntry s a
      rcases hattempt : v.attempt .decoding .tableEntry s a with ⟨t, _ | f⟩
      · obtain ⟨htried, hattempts⟩ := tried_attempt hv hs hsettled hattempt
        rw [hattempt] at hagenda
        exact ⟨htried, hattempts, fun hempty => hagenda.trans hempty⟩
      · obtain ⟨rfl, hfailing⟩ := failing_attempt hv hs hsettled hattempt
        obtain ⟨b, hrecovered⟩ :=
          exists_recovered hv (hfailing.changes.sound hv hs) hfailing.doubtful
        rw [hattempt] at hagenda
        exact ⟨hfailing.tried hrecovered, hrecovered.attempts.trans hfailing.attempts,
          fun hempty => hrecovered.agenda_eq_empty (hagenda.trans hempty)⟩

/-- The addresses from which decoding the targets makes attempts, in order. -/
def drainSeeds (v : Survey) : State → List Address → List Address
  | _, [] => []
  | s, target :: rest => v.targetSeeds s target ++ v.drainSeeds (v.decodeTarget s target) rest

/-- **What is known about the state in which all targets have been decoded**, with the addresses
from which attempts were made. -/
structure Drained (v : Survey) (s : State) (seeds : List Address) (t : State) : Prop where
  changes : v.Changes s.map t.map
  isSettled {x : Address} : v.isSettled s x = true → v.isSettled t x = true
  opened {x : Address} : x ∈ seeds → v.isSettled s x = false
  nodup : seeds.Nodup
  history {e : ErasedSpan} : e ∈ t.history → e ∈ s.history ∨ e.failure.kind ≠ .insideInstruction
  attempts : t.stats.attempts = s.stats.attempts + seeds.length
  agenda : s.agenda = .empty → t.agenda = .empty

lemma mem_targetSeeds (h : x ∈ v.targetSeeds s a) : x = a ∧ v.isSettled s a = false := by
  unfold targetSeeds at h
  split at h
  · cases h
  · next hopen =>
    rw [Bool.or_eq_true, not_or, Bool.not_eq_true] at hopen
    exact ⟨List.mem_singleton.mp h, hopen.1⟩

lemma nodup_targetSeeds (v : Survey) (s : State) (a : Address) : (v.targetSeeds s a).Nodup := by
  unfold targetSeeds
  split
  · exact List.nodup_nil
  · exact List.pairwise_singleton _ a

lemma drained_foldl (hv : v.Proper) (hs : v.Sound s.map) (targets : List Address) :
    v.Drained s (v.drainSeeds s targets) (targets.foldl v.decodeTarget s) := by
  induction targets generalizing s with
  | nil => exact ⟨.refl, id, nofun, List.nodup_nil, Or.inl, rfl, id⟩
  | cons target rest ih =>
    obtain ⟨htried, hattempts, hagenda⟩ := tried_decodeTarget hv hs target
    have hrest := ih (htried.changes.sound hv hs)
    constructor
    case changes => exact htried.changes.trans hrest.changes
    case isSettled => exact fun hx => hrest.isSettled (htried.isSettled hx)
    case opened =>
      intro x hx
      rcases List.mem_append.mp hx with hfirst | hlater
      · obtain ⟨rfl, hopen⟩ := mem_targetSeeds hfirst
        exact hopen
      · rw [Bool.eq_false_iff]
        intro hsettled
        have hopen := hrest.opened hlater
        rw [htried.isSettled hsettled] at hopen
        cases hopen
    case nodup =>
      refine List.nodup_append.mpr ⟨nodup_targetSeeds v s target, hrest.nodup, ?_⟩
      rintro x hx y hy rfl
      obtain ⟨rfl, -⟩ := mem_targetSeeds hx
      have hopen := hrest.opened hy
      rw [htried.seed] at hopen
      cases hopen
    case history =>
      intro e he
      rcases hrest.history he with hold | hnew
      · exact htried.history hold
      · exact Or.inr hnew
    case attempts =>
      rw [List.foldl_cons, hrest.attempts, hattempts, drainSeeds, List.length_append]
      omega
    case agenda => exact fun hempty => hrest.agenda (hagenda hempty)

/-! ## The last step -/

/-- The state in which the tables are marked and their targets not decoded yet. -/
def State.noteTables (s : State) (scan : PointerTables.Scan) : State :=
  { s with
    map := scan.map
    index := scan.index
    stats := { s.stats with addressTables := s.stats.addressTables + scan.tables.length } }

/-- What the search for tables finds in a state, unless it fails. -/
def tables? (v : Survey) (s : State) : Option PointerTables.Scan :=
  PointerTables.detect v.image s.map s.index

/-- The addresses from which the last step makes attempts, in order. -/
def finalSeeds (v : Survey) (s : State) : List Address :=
  if v.settings.detectAddressTables then
    match v.tables? s with
    | none => []
    | some scan => v.drainSeeds (({ s with agenda := .empty } : State).noteTables scan) scan.targets
  else []

variable {scan : PointerTables.Scan}

lemma fills_noteTables (hv : v.Proper) (hscan : v.tables? s = some scan) :
    s.map.Fills (s.noteTables scan).map := PointerTables.fills_detect hv.placed hscan

lemma keeps_noteTables (hv : v.Proper) (hscan : v.tables? s = some scan) :
    s.map.Keeps (s.noteTables scan).map := (fills_noteTables hv hscan).keeps

lemma drained_noteTables (hv : v.Proper) (hs : v.Sound s.map) (hscan : v.tables? s = some scan) :
    v.Drained s (v.drainSeeds (s.noteTables scan) scan.targets)
      (scan.targets.foldl v.decodeTarget (s.noteTables scan)) := by
  have hkeeps := keeps_noteTables hv hscan
  have hdrained := drained_foldl hv (hs.keeps hv hkeeps) scan.targets
  have hagenda : (s.noteTables scan).agenda = s.agenda := rfl
  have hfailed : (s.noteTables scan).failedSeeds = s.failedSeeds := rfl
  have hhistory : (s.noteTables scan).history = s.history := rfl
  have hattempts : (s.noteTables scan).stats.attempts = s.stats.attempts := rfl
  generalize s.noteTables scan = s₁ at hkeeps hdrained hagenda hfailed hhistory hattempts
  have hsettled : ∀ {x : Address}, v.isSettled s x = true → v.isSettled s₁ x = true :=
    isSettled_mono hkeeps.coverage (by rw [hkeeps.isCode]; exact id) hkeeps.data
      (by rw [hfailed]; exact id)
  refine ⟨.head (.keep hkeeps) hdrained.changes, fun hx => hdrained.isSettled (hsettled hx),
    fun {x} hx => ?_, hdrained.nodup, ?_, ?_, ?_⟩
  · rw [Bool.eq_false_iff]
    intro hx'
    have hopen := hdrained.opened hx
    rw [hsettled hx'] at hopen
    cases hopen
  · rw [← hhistory]
    exact hdrained.history
  · rw [← hattempts]
    exact hdrained.attempts
  · rw [← hagenda]
    exact hdrained.agenda

/-- What the passes after the search for tables may do to a state. -/
structure Reviewed (v : Survey) (s t : State) : Prop where
  changes : v.Changes s.map t.map
  agenda : t.agenda = s.agenda
  history : t.history = s.history
  attempts : t.stats.attempts = s.stats.attempts

lemma fills_finalizeStrings (v : Survey) (s : State) : s.map.Fills (v.finalizeStrings s).map := by
  unfold finalizeStrings
  dsimp only
  exact Strings.fills_detect v.image s.map

lemma reviewed_finalizeStrings (v : Survey) (s : State) : v.Reviewed s (v.finalizeStrings s) :=
  ⟨.single (.keep (fills_finalizeStrings v s).keeps), rfl, rfl, rfl⟩

lemma map_finalizeCode (v : Survey) (s : State) :
    (v.finalizeCode s).map = (CodeBlocks.review v.image v.decoder s.map s.index).map ∧
      (v.finalizeCode s).index = (CodeBlocks.review v.image v.decoder s.map s.index).index := by
  unfold finalizeCode
  exact ⟨rfl, rfl⟩

lemma reviewed_finalizeCode (hv : v.Proper) (hs : v.Sound s.map) :
    v.Reviewed s (v.finalizeCode s) := by
  refine ⟨?_, rfl, rfl, rfl⟩
  rw [(map_finalizeCode v s).1]
  exact CodeBlocks.changes_review hv hs s.index

lemma fills_finalizeRest (s : State) : s.map.Fills (finalizeRest s).map := by
  unfold finalizeRest
  dsimp only
  exact Passes.fills_backfill s.map

lemma reviewed_finalizeRest (v : Survey) (s : State) : v.Reviewed s (finalizeRest s) :=
  ⟨.single (.keep (fills_finalizeRest s).keeps), rfl, rfl, rfl⟩

lemma kind_finalizeRest_ne (s : State) (a : Address) :
    (finalizeRest s).map.kind a ≠ .unprocessed := by
  unfold finalizeRest
  dsimp only
  exact Passes.kind_backfill_ne s.map a

/-- **What is known about the last state of a survey**, with the addresses from which the last step
made attempts. -/
structure Finalized (v : Survey) (s : State) (seeds : List Address) (t : State) : Prop where
  changes : v.Changes s.map t.map
  decided : t.phase = .done → ∀ a, t.map.kind a ≠ .unprocessed
  opened {x : Address} : x ∈ seeds → v.isSettled s x = false
  nodup : seeds.Nodup
  history {e : ErasedSpan} : e ∈ t.history → e ∈ s.history ∨ e.failure.kind ≠ .insideInstruction
  attempts : t.stats.attempts = s.stats.attempts + seeds.length
  agenda : t.agenda = .empty
  phase : t.phase.isOver = true

/-- The passes behind the search for tables. -/
def finishFrom (v : Survey) (s : State) : State :=
  let s := if v.settings.detectStrings then v.finalizeStrings s else s
  let s := if v.settings.validateCode then v.finalizeCode s else s
  { finalizeRest s with phase := .done }

/-- **How the last step goes.**  It begins with the search for tables, if there is to be one.  Where
the search fails the survey stops; otherwise the targets are decoded and the other passes follow. -/
lemma finalize_cases (v : Survey) (s : State) :
    (v.settings.detectAddressTables = true ∧ v.tables? s = none ∧ v.finalSeeds s = [] ∧
      v.finalize s = ({ s with agenda := .empty } : State).halt) ∨
    (∃ scan, v.settings.detectAddressTables = true ∧ v.tables? s = some scan ∧
      v.finalSeeds s =
        v.drainSeeds (({ s with agenda := .empty } : State).noteTables scan) scan.targets ∧
      v.finalize s = v.finishFrom (scan.targets.foldl v.decodeTarget
        (({ s with agenda := .empty } : State).noteTables scan))) ∨
    v.settings.detectAddressTables = false ∧ v.finalSeeds s = [] ∧
      v.finalize s = v.finishFrom { s with agenda := .empty } := by
  unfold finalize finalSeeds finalizeTables tables?
  dsimp only
  cases v.settings.detectAddressTables with
  | false => exact Or.inr (Or.inr ⟨rfl, rfl, rfl⟩)
  | true =>
    cases PointerTables.detect v.image s.map s.index with
    | none => exact Or.inl ⟨rfl, rfl, rfl, rfl⟩
    | some scan => exact Or.inr (Or.inl ⟨scan, rfl, rfl, rfl, rfl⟩)

lemma isOver_finalize (v : Survey) (s : State) : (v.finalize s).phase.isOver = true := by
  rcases finalize_cases v s with ⟨-, -, -, hfinal⟩ | ⟨scan, -, -, -, hfinal⟩ | ⟨-, -, hfinal⟩ <;>
    rw [hfinal] <;> rfl

lemma finalized_finishFrom (hv : v.Proper) (hs : v.Sound s.map) {s₁ : State} {seeds : List Address}
    (hdrained : v.Drained { s with agenda := .empty } seeds s₁) :
    v.Finalized s seeds (v.finishFrom s₁) := by
  unfold finishFrom
  dsimp only
  have hs₁ := hdrained.changes.sound hv hs
  have hstrings :
      v.Reviewed s₁ (if v.settings.detectStrings then v.finalizeStrings s₁ else s₁) := by
    split
    · exact reviewed_finalizeStrings v s₁
    · exact ⟨.refl, rfl, rfl, rfl⟩
  generalize (if v.settings.detectStrings then v.finalizeStrings s₁ else s₁) = s₂ at hstrings
  have hs₂ := hstrings.changes.sound hv hs₁
  have hcode : v.Reviewed s₂ (if v.settings.validateCode then v.finalizeCode s₂ else s₂) := by
    split
    · exact reviewed_finalizeCode hv hs₂
    · exact ⟨.refl, rfl, rfl, rfl⟩
  generalize (if v.settings.validateCode then v.finalizeCode s₂ else s₂) = s₃ at hcode
  have hrest := reviewed_finalizeRest v s₃
  have hchanges := (hstrings.changes.trans hcode.changes).trans hrest.changes
  have hhistory := (hrest.history.trans hcode.history).trans hstrings.history
  have hattempts := (hrest.attempts.trans hcode.attempts).trans hstrings.attempts
  have hagenda := (hrest.agenda.trans hcode.agenda).trans hstrings.agenda
  exact ⟨hdrained.changes.trans hchanges, fun _ => kind_finalizeRest_ne s₃, hdrained.opened,
    hdrained.nodup, fun {e} he => hdrained.history (hhistory ▸ he),
    hattempts.trans hdrained.attempts, hagenda.trans (hdrained.agenda rfl), rfl⟩

/-- **The last step** decides every byte, unless the search for tables fails. -/
lemma finalized_finalize (hv : v.Proper) (hs : v.Sound s.map) :
    v.Finalized s (v.finalSeeds s) (v.finalize s) := by
  rcases finalize_cases v s with ⟨-, -, hseeds, hfinal⟩ | ⟨scan, -, hscan, hseeds, hfinal⟩ |
    ⟨-, hseeds, hfinal⟩
  · rw [hseeds, hfinal]
    exact ⟨.refl, nofun, nofun, List.nodup_nil, Or.inl, rfl, rfl, rfl⟩
  · rw [hseeds, hfinal]
    exact finalized_finishFrom hv hs
      (drained_noteTables (s := { s with agenda := .empty }) hv hs hscan)
  · rw [hseeds, hfinal]
    exact finalized_finishFrom hv hs ⟨.refl, id, nofun, List.nodup_nil, Or.inl, rfl, id⟩

end Survey

end CodeSift
