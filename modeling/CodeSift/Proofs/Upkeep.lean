import CodeSift.Proofs.Noting
import CodeSift.Proofs.Reachability

/-!
# Properties that hold all through a survey

Whatever a step does to the map, the index and the agenda is made of a few pieces: attempts, giving
up a failed one, noting tables, marking strings, reviewing code, and making the rest data.  A
property of states that stands each of the pieces is `Survey.Maintained`, and holds in every state
that comes after one in which it holds (`Maintained.reaches`).

Giving up needs some care.  A failed attempt is given up one step after it was made, and the pieces
it is made of are not told apart by the state in between.  So the two are one piece here, which
begins with the state before the attempt: of that state the property is known, and while the failure
is pending it is kept in mind (`Survey.Pending`).
-/

namespace CodeSift

namespace Survey

variable {v : Survey} {P : State → Prop} {s s₁ t : State} {f : Failure}
  {purpose : Purpose} {lead : Lead}

/-! ## What a property has to stand -/

/-- How an attempt comes about: a lead is taken from the agenda, or no lead waits and a table points
to an address.  The second state is the one from which the attempt is made. -/
inductive Occasion (s : State) : Purpose → Lead → State → Prop
  | taken {lead : Lead} {rest : Agenda} : s.agenda.pop? = some (lead, rest) →
      Occasion s .discovery lead { s with agenda := rest }
  | pointed (a : Address) : s.agenda = .empty → Occasion s .decoding ⟨a, .tableEntry⟩ s

/-- The two states differ in their agendas only, and no lead comes to wait. -/
lemma Occasion.same (h : Occasion s purpose lead s₁) :
    s₁.map = s.map ∧ s₁.index = s.index ∧ ∀ l ∈ s₁.agenda.leads, l ∈ s.agenda.leads := by
  cases h with
  | taken hpop => exact ⟨rfl, rfl, fun l hl => Agenda.mem_of_mem_rest hpop hl⟩
  | pointed a _ => exact ⟨rfl, rfl, fun _ => id⟩

/-- **An attempt is made**: it begins in a state in order, at an address that is not settled, and
leads to the last state. -/
structure Attempted (v : Survey) (s : State) (purpose : Purpose) (lead : Lead) (t : State)
    (failure : Option Failure) : Prop where
  sound : v.Sound s.map
  opened : v.isSettled s lead.address = false
  made : ∃ s₁, Occasion s purpose lead s₁ ∧
    v.attempt purpose lead.confidence s₁ lead.address = (t, failure)

/-- A property that stands what an attempt does holds after it. -/
lemma Attempted.grown {failure : Option Failure} (hv : v.Proper)
    (h : v.Attempted s purpose lead t failure) (hgrown : v.Grown lead.confidence.isSpeculative P)
    (hP : ∀ s₁ : State, s₁.map = s.map → s₁.index = s.index →
      (∀ l ∈ s₁.agenda.leads, l ∈ s.agenda.leads) → P s₁) : P t := by
  obtain ⟨s₁, hoccasion, hattempt⟩ := h.made
  obtain ⟨hmap, hindex, hleads⟩ := hoccasion.same
  exact hgrown.attempt hv (hmap ▸ h.sound) (hP s₁ hmap hindex hleads) hattempt

/-- **What a failed attempt leaves in doubt** was undecided before it, and can be cleared. -/
lemma Attempted.doubt (hv : v.Proper) (h : v.Attempted s purpose lead t (some f)) :
    v.Sound t.map ∧ t.map.Severable (t.doubt f) ∧ ∀ x ∈ t.doubt f, s.map.kind x = .unprocessed := by
  obtain ⟨s₁, hoccasion, hattempt⟩ := h.made
  obtain ⟨hmap, -, -⟩ := hoccasion.same
  have hsound : v.Sound s₁.map := hmap ▸ h.sound
  have hbody : (s₁.map.marks lead.address).body = false := by
    rw [hmap]
    exact body_of_isSettled h.opened
  obtain ⟨hseed, hcursor, -, path, hswept, -⟩ := swept_of_attempt_failed hv hsound hbody hattempt
  rw [← hseed] at hswept
  have ht := hswept.changes.sound hv hsound
  obtain ⟨hsever, hspan⟩ := (hswept.doubtful hv ht hcursor).severable hv ht
  refine ⟨ht, hsever, fun x hx => ?_⟩
  rw [← hmap]
  exact hswept.fresh (hspan x hx)

/-- **The property stands everything that a survey does.** -/
structure Maintained (v : Survey) (P : State → Prop) : Prop where
  frame {s t : State} : P s → t.map = s.map → t.index = s.index →
    (∀ l ∈ t.agenda.leads, l ∈ s.agenda.leads) → P t
  attempt {s t : State} {purpose : Purpose} {lead : Lead} {failure : Option Failure} :
    v.Attempted s purpose lead t failure → P s → P t
  recover {s t : State} {purpose : Purpose} {lead : Lead} {f : Failure} :
    v.Attempted s purpose lead t (some f) → P s → P (v.recover t f)
  tables {s : State} {scan : PointerTables.Scan} : v.Sound s.map → v.tables? s = some scan → P s →
    P (s.noteTables scan)
  strings {s : State} : v.Sound s.map → P s → P (v.finalizeStrings s)
  code {s : State} : v.Sound s.map → s.agenda = .empty → P s → P (v.finalizeCode s)
  rest {s : State} : v.Sound s.map → P s → P (finalizeRest s)

/-- A failed attempt waits to be given up, and the property held before it was made. -/
def Pending (v : Survey) (P : State → Prop) (s : State) : Prop :=
  ∃ s₀ lead t f, v.Attempted s₀ .discovery lead t (some f) ∧ P s₀ ∧
    s = { t with failure := some f, phase := .recovering }

namespace Maintained

/-! ## Discovery -/

lemma withPhase (h : v.Maintained P) (hs : P s) (phase : Phase) : P { s with phase } :=
  h.frame hs rfl rfl fun _ => id

/-- **A step of discovery** keeps the property, and leaves a pending failure in mind. -/
lemma discover (h : v.Maintained P) (hsound : v.Sound s.map) (hs : P s) (cancelled : Bool) :
    P (v.discover cancelled s) ∧
      ((v.discover cancelled s).phase = .recovering → v.Pending P (v.discover cancelled s)) := by
  have hended : ∀ {t : State}, t.map = s.map → t.index = s.index → t.agenda = .empty → P t := by
    intro t hmap hindex hagenda
    refine h.frame hs hmap hindex fun l hl => ?_
    rw [hagenda] at hl
    exact absurd hl (OrderedSet.not_mem_empty l)
  unfold Survey.discover
  split
  · exact ⟨hended rfl rfl rfl, nofun⟩
  · split
    · exact ⟨hended rfl rfl rfl, nofun⟩
    · split
      · exact ⟨h.withPhase hs _, nofun⟩
      · next lead rest hpop =>
        have hrest : P { s with agenda := rest } :=
          h.frame hs rfl rfl fun l hl => Agenda.mem_of_mem_rest hpop hl
        dsimp only
        split
        · exact ⟨h.withPhase hrest _,
            fun hphase => absurd hphase (proceeds_nextPhase _).ne_recovering⟩
        · next hopen =>
          split
          · exact ⟨h.frame hrest rfl rfl fun _ => id,
              fun hphase => absurd hphase (proceeds_nextPhase _).ne_recovering⟩
          · rcases hattempt : v.attempt .discovery lead.confidence { s with agenda := rest }
              lead.address with
              ⟨t, failure⟩
            have hmade : v.Attempted s .discovery lead t failure :=
              ⟨hsound, Bool.eq_false_iff.mpr hopen, _, .taken hpop, hattempt⟩
            cases failure with
            | none =>
              exact ⟨h.withPhase (h.attempt hmade hs) _,
                fun hphase => absurd hphase (proceeds_nextPhase _).ne_recovering⟩
            | some f =>
              exact ⟨h.frame (h.attempt hmade hs) rfl rfl fun _ => id,
                fun _ => ⟨s, lead, t, f, hmade, hs, rfl⟩⟩

/-! ## Giving up -/

end Maintained

lemma withdraw_pending (s : State) (a : Address) (failure : Option Failure) (phase : Phase) :
    withdraw { s with failure, phase } a = { withdraw s a with failure, phase } := by
  unfold withdraw
  dsimp only
  split <;> rfl

/-- Giving up neither reads nor writes what is pending. -/
lemma recover_pending (v : Survey) (s : State) (f : Failure) (failure : Option Failure)
    (phase : Phase) :
    v.recover { s with failure, phase } f = { v.recover s f with failure, phase } := by
  have hfold : ∀ (relations : List CrossReference) (s : State),
      relations.foldl (fun s r => withdraw s r.target) { s with failure, phase } =
        { relations.foldl (fun s r => withdraw s r.target) s with failure, phase } := by
    intro relations
    induction relations with
    | nil => exact fun _ => rfl
    | cons r rest ih =>
      intro s
      rw [List.foldl_cons, withdraw_pending, ih, List.foldl_cons]
  unfold recover
  dsimp only
  rw [← hfold]

namespace Maintained

/-- **The step behind a failed attempt** keeps the property, and nothing is pending any more. -/
lemma recoverFailure (h : v.Maintained P) (hs : v.Pending P s) :
    P (v.recoverFailure s) ∧ (v.recoverFailure s).Proceeds := by
  obtain ⟨s₀, lead, t, f, hmade, hs₀, rfl⟩ := hs
  have hgivenUp : P (v.recover { t with failure := none, phase := .recovering } f) := by
    rw [recover_pending]
    exact h.frame (h.recover hmade hs₀) rfl rfl fun _ => id
  unfold Survey.recoverFailure
  dsimp only
  split
  · refine ⟨h.frame hgivenUp rfl rfl fun l hl => ?_, Or.inr (Or.inl rfl)⟩
    exact absurd hl (OrderedSet.not_mem_empty l)
  · exact ⟨h.withPhase hgivenUp _, proceeds_nextPhase _⟩

/-! ## The last step -/

lemma decodeTarget (h : v.Maintained P) (hsound : v.Sound s.map) (hempty : s.agenda = .empty)
    (hs : P s) (a : Address) : P (v.decodeTarget s a) := by
  unfold Survey.decodeTarget
  split
  · exact hs
  · next hopen =>
    split
    · exact h.frame hs rfl rfl fun _ => id
    · rcases hattempt : v.attempt .decoding .tableEntry s a with ⟨t, failure⟩
      have hmade : v.Attempted s .decoding ⟨a, .tableEntry⟩ t failure :=
        ⟨hsound, Bool.eq_false_iff.mpr hopen, _, .pointed a hempty, hattempt⟩
      cases failure with
      | none => exact h.attempt hmade hs
      | some f => exact h.recover hmade hs

lemma foldl_decodeTarget (h : v.Maintained P) (hv : v.Proper) (hsound : v.Sound s.map)
    (hempty : s.agenda = .empty) (hs : P s) (targets : List Address) :
    P (targets.foldl v.decodeTarget s) := by
  induction targets generalizing s with
  | nil => exact hs
  | cons a rest ih =>
    obtain ⟨htried, -, hagenda⟩ := tried_decodeTarget hv hsound a
    exact ih (htried.changes.sound hv hsound) (hagenda hempty) (h.decodeTarget hsound hempty hs a)

lemma finishFrom (h : v.Maintained P) (hv : v.Proper) (hsound : v.Sound s.map)
    (hempty : s.agenda = .empty) (hs : P s) : P (v.finishFrom s) := by
  unfold Survey.finishFrom
  dsimp only
  have hstrings : P (if v.settings.detectStrings then v.finalizeStrings s else s) ∧
      v.Sound (if v.settings.detectStrings then v.finalizeStrings s else s).map ∧
      (if v.settings.detectStrings then v.finalizeStrings s else s).agenda = .empty := by
    split
    · have hreviewed := reviewed_finalizeStrings v s
      exact ⟨h.strings hsound hs, hreviewed.changes.sound hv hsound, hreviewed.agenda.trans hempty⟩
    · exact ⟨hs, hsound, hempty⟩
  generalize (if v.settings.detectStrings then v.finalizeStrings s else s) = s₁ at hstrings
  obtain ⟨hP₁, hsound₁, hempty₁⟩ := hstrings
  have hcode : P (if v.settings.validateCode then v.finalizeCode s₁ else s₁) ∧
      v.Sound (if v.settings.validateCode then v.finalizeCode s₁ else s₁).map := by
    split
    · exact ⟨h.code hsound₁ hempty₁ hP₁,
        (reviewed_finalizeCode hv hsound₁).changes.sound hv hsound₁⟩
    · exact ⟨hP₁, hsound₁⟩
  generalize (if v.settings.validateCode then v.finalizeCode s₁ else s₁) = s₂ at hcode
  exact h.withPhase (h.rest hcode.2 hcode.1) .done

/-- **The last step** keeps the property. -/
lemma finalize (h : v.Maintained P) (hv : v.Proper) (hsound : v.Sound s.map) (hs : P s) :
    P (v.finalize s) := by
  have hcleared : P { s with agenda := .empty } :=
    h.frame hs rfl rfl fun l hl => absurd hl (OrderedSet.not_mem_empty l)
  rcases finalize_cases v s with ⟨-, -, -, hfinal⟩ | ⟨scan, -, hscan, -, hfinal⟩ | ⟨-, -, hfinal⟩
  · rw [hfinal]
    exact h.withPhase hcleared .stopped
  · have hdrained := drained_noteTables (s := { s with agenda := .empty }) hv hsound hscan
    have hkeeps := keeps_noteTables (s := { s with agenda := .empty }) hv hscan
    rw [hfinal]
    exact h.finishFrom hv (hdrained.changes.sound hv hsound) (hdrained.agenda rfl)
      (h.foldl_decodeTarget hv (hsound.keeps hv hkeeps) rfl (h.tables hsound hscan hcleared) _)
  · rw [hfinal]
    exact h.finishFrom hv hsound rfl hcleared

/-! ## Steps and runs -/

/-- **One step.** -/
lemma step (h : v.Maintained P) (hv : v.Proper) (hconsistent : v.Consistent s) (hs : P s)
    (hpending : s.phase = .recovering → v.Pending P s) (cancelled : Bool) :
    P (v.step cancelled s) ∧
      ((v.step cancelled s).phase = .recovering → v.Pending P (v.step cancelled s)) := by
  unfold Survey.step
  cases hphase : s.phase with
  | discovering => exact h.discover hconsistent.sound hs cancelled
  | recovering =>
    obtain ⟨hrecovered, hnext⟩ := h.recoverFailure (hpending hphase)
    exact ⟨hrecovered, fun hrecovering => absurd hrecovering hnext.ne_recovering⟩
  | finalizing =>
    have hover := (finalized_finalize hv hconsistent.sound).phase
    exact ⟨h.finalize hv hconsistent.sound hs,
      fun hrecovering => absurd hrecovering (ne_recovering_of_isOver hover)⟩
  | done => exact ⟨hs, fun hrecovering => by rw [hphase] at hrecovering; cases hrecovering⟩
  | stopped => exact ⟨hs, fun hrecovering => by rw [hphase] at hrecovering; cases hrecovering⟩

/-- **Any number of steps** keep the property, from every state on in which no failure is
pending. -/
lemma reaches (h : v.Maintained P) (hv : v.Proper) (hconsistent : v.Consistent s)
    (hphase : s.phase ≠ .recovering) (hs : P s) (hreaches : v.Reaches s t) : P t := by
  suffices hboth : P t ∧ (t.phase = .recovering → v.Pending P t) from hboth.1
  induction hreaches with
  | refl => exact ⟨hs, fun hrecovering => absurd hrecovering hphase⟩
  | step cancelled hreaches ih =>
    exact h.step hv (hreaches.consistent hv hconsistent).1 ih.1 ih.2 cancelled

/-- **All through a survey** the property holds if it holds in the first state. -/
lemma reachable (h : v.Maintained P) (hv : v.Proper) (hstart : P v.start) (hs : v.Reachable s) :
    P s := by
  refine h.reaches hv (consistent_start v) ?_ hstart hs
  obtain ⟨map, agenda, hfirst⟩ := exists_start_eq v
  rw [hfirst]
  exact nofun

end Maintained

end Survey

end CodeSift
