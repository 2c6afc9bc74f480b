import CodeSift.Proofs.Following

/-!
# What an attempt does

An attempt reads one instruction after the other, each where the one before ends: a *sweep* of the
bytes from its seed to the address where it stops (`Survey.Sweep`).  `Survey.Swept` says everything
about the state behind a sweep in terms of the state before it.  The swept bytes were undecided, and
the instructions read stand on them; every instruction that stood before still stands, and no other
byte has become code; no data and no relation is lost; the new relations are made by the
instructions read or by the slots of jump tables; and the addresses that have come to wait were open
before.

It is proved for one accepted instruction (`swept_accept`) and for one sweep in front of another
(`Swept.cons`), so an attempt is a sweep by induction along it (`swept_attempt`).

A failed attempt has read no indirect jump, since such a jump would have ended it.  So it has made
no data at all, and it never fails because it arrived inside an instruction: the address behind an
instruction never is a body.
-/

namespace CodeSift

namespace Survey

variable {v : Survey} {s t u : State} {a b c : Address} {i : Instruction} {path : List Instruction}
  {m : ByteMap}

/-! ## Sweeps -/

/-- The instructions stand one behind the other, the first at the first address and the last in
front of the second. -/
inductive Sweep (v : Survey) : Address → List Instruction → Address → Prop
  | nil (a : Address) : Sweep v a [] a
  | cons {a c : Address} {i : Instruction} {path : List Instruction} :
      v.Reads a i → Sweep v i.stop path c → Sweep v a (i :: path) c

namespace Sweep

lemma le (hv : v.Proper) (h : v.Sweep a path c) : a.toNat ≤ c.toNat := by
  induction h with
  | nil a => exact Nat.le_refl _
  | cons hreads _ ih =>
    have hlt := hv.lt_stop hreads
    omega

/-- The instructions of a sweep start and end within it. -/
lemma bounds (hv : v.Proper) (h : v.Sweep a path c) (hi : i ∈ path) :
    a.toNat ≤ i.address.toNat ∧ i.address.toNat < i.stop.toNat ∧ i.stop.toNat ≤ c.toNat := by
  induction h with
  | nil a => cases hi
  | @cons a c j path hreads hrest ih =>
    have hlt := hv.lt_stop hreads
    have hle := hrest.le hv
    rcases List.mem_cons.mp hi with rfl | hmem
    · rw [hv.faithful.address hreads]
      omega
    · have hbounds := ih hmem
      omega

lemma mem_span (hv : v.Proper) (h : v.Sweep a path c) (hi : i ∈ path) :
    i.address ∈ (⟨a, c⟩ : Span) := by
  have hbounds := h.bounds hv hi
  exact Span.mem_mk.mpr ⟨hbounds.1, Nat.lt_of_lt_of_le hbounds.2.1 hbounds.2.2⟩

/-- Every byte of a sweep belongs to one of its instructions. -/
lemma exists_mem (h : v.Sweep a path c) (hb : b ∈ (⟨a, c⟩ : Span)) (hv : v.Proper) :
    ∃ i ∈ path, i.address.toNat ≤ b.toNat ∧ b.toNat < i.stop.toNat := by
  induction h with
  | nil a =>
    obtain ⟨hle, hlt⟩ := Span.mem_mk.mp hb
    omega
  | @cons a c j path hreads _ ih =>
    obtain ⟨hle, hlt⟩ := Span.mem_mk.mp hb
    by_cases hbehind : b.toNat < j.stop.toNat
    · refine ⟨j, List.mem_cons_self, ?_, hbehind⟩
      rw [hv.faithful.address hreads]
      exact hle
    · obtain ⟨i, hi, hbounds⟩ := ih (Span.mem_mk.mpr ⟨by omega, hlt⟩)
      exact ⟨i, List.mem_cons_of_mem _ hi, hbounds⟩

/-- A sweep of some bytes begins with an instruction at the first. -/
lemma exists_first (hv : v.Proper) (h : v.Sweep a path c) (hne : a ≠ c) :
    ∃ i ∈ path, i.address = a := by
  cases h with
  | nil => exact absurd rfl hne
  | cons hreads _ => exact ⟨_, List.mem_cons_self, hv.faithful.address hreads⟩

/-- **A sweep can be split at every address that is no body.** -/
lemma split (hv : v.Proper) (h : v.Sweep a path c) (hstands : ∀ i ∈ path, v.Stands m i.address i)
    (hab : a.toNat ≤ b.toNat) (hbc : b.toNat ≤ c.toNat) (hbody : (m.marks b).body = false) :
    ∃ kept dropped, path = kept ++ dropped ∧ v.Sweep a kept b ∧ v.Sweep b dropped c := by
  induction h with
  | nil a =>
    have heq : a = b := UInt32.toNat_inj.mp (by omega)
    subst heq
    exact ⟨[], [], rfl, .nil a, .nil a⟩
  | @cons a c j path hreads hrest ih =>
    by_cases heq : a.toNat = b.toNat
    · have heq := UInt32.toNat_inj.mp heq
      subst heq
      exact ⟨[], j :: path, rfl, .nil a, .cons hreads hrest⟩
    · have hj := hstands j List.mem_cons_self
      rw [hv.faithful.address hreads] at hj
      have hstop := hj.stop_le_of_not_body hv hbody (by omega)
      obtain ⟨kept, dropped, rfl, hkept, hdropped⟩ :=
        ih (fun i hi => hstands i (List.mem_cons_of_mem _ hi)) hstop hbc
      exact ⟨j :: kept, dropped, rfl, .cons hreads hkept, hdropped⟩

end Sweep

/-! ## Swept states -/

/-- **What is known about the state behind a sweep.** -/
structure Swept (v : Survey) (s : State) (a : Address) (path : List Instruction) (t : State)
    (c : Address) : Prop where
  sweep : v.Sweep a path c
  fresh {b : Address} : b ∈ (⟨a, c⟩ : Span) → s.map.kind b = .unprocessed
  changes : v.Changes s.map t.map
  standing {b : Address} {i : Instruction} : v.Stands s.map b i → v.Stands t.map b i
  stands {i : Instruction} : i ∈ path → v.Stands t.map i.address i
  same {b : Address} : b ∉ (⟨a, c⟩ : Span) →
    (t.map.marks b).start = (s.map.marks b).start ∧ (t.map.marks b).body = (s.map.marks b).body
  cursor : (t.map.marks c).body = false
  data {b : Address} : (s.map.marks b).data = true → (t.map.marks b).data = true
  untouched : (∀ i ∈ path, i.flow ≠ .jumpIndirect) → ∀ b,
    (t.map.marks b).data = (s.map.marks b).data ∧ t.map.dataClass b = s.map.dataClass b
  relations {r : CrossReference} : r ∈ s.index → r ∈ t.index
  paired : s.index.Paired → t.index.Paired
  sites {r : CrossReference} : r ∈ t.index → r.isForward = true →
    r ∈ s.index ∨ (∃ i ∈ path, r.site = i.address) ∨
      (∃ i ∈ path, i.flow = .jumpIndirect) ∧ (t.map.marks r.site).data = true
  waits {b : Address} : t.agenda.contains b = true →
    s.agenda.contains b = true ∨ v.isSettled s b = false ∧ b ≠ a
  failedSeeds : t.failedSeeds = s.failedSeeds
  history : t.history = s.history
  attempts : t.stats.attempts = s.stats.attempts
  decoded : t.stats.instructionsDecoded = s.stats.instructionsDecoded + path.length
  phase : t.phase = s.phase ∨
    (∃ i ∈ path, i.flow = .jumpIndirect) ∧ t.phase = .stopped ∧ t.Overruns

namespace Swept

lemma nil (ha : (s.map.marks a).body = false) : v.Swept s a [] s a where
  sweep := .nil a
  fresh hb := by
    obtain ⟨hle, hlt⟩ := Span.mem_mk.mp hb
    exact absurd hle (Nat.not_le.mpr hlt)
  changes := .refl
  standing := id
  stands hi := nomatch hi
  same _ := ⟨rfl, rfl⟩
  cursor := ha
  data := id
  untouched _ _ := ⟨rfl, rfl⟩
  relations := id
  paired := id
  sites hr _ := Or.inl hr
  waits := Or.inl
  failedSeeds := rfl
  history := rfl
  attempts := rfl
  decoded := rfl
  phase := Or.inl rfl

/-- The swept bytes are code. -/
lemma isCode (hv : v.Proper) (h : v.Swept s a path t c) (hb : b ∈ (⟨a, c⟩ : Span)) :
    (t.map.marks b).isCode = true := by
  obtain ⟨i, hi, hle, hlt⟩ := h.sweep.exists_mem hb hv
  exact (h.stands hi).isCode hv hle hlt

/-- What was code is code. -/
lemma isCode_of_isCode (h : v.Swept s a path t c) (hcode : (s.map.marks b).isCode = true) :
    (t.map.marks b).isCode = true := by
  have hout : b ∉ (⟨a, c⟩ : Span) := by
    intro hb
    obtain ⟨hstart, hbody, -⟩ := ByteMap.kind_eq_unprocessed_iff.mp (h.fresh hb)
    rw [Marks.isCode, hstart, hbody] at hcode
    cases hcode
  unfold Marks.isCode at hcode ⊢
  rw [(h.same hout).1, (h.same hout).2, hcode]

lemma isSettled (h : v.Swept s a path t c) (hb : v.isSettled s b = true) : v.isSettled t b = true :=
  isSettled_mono h.changes.coverage h.isCode_of_isCode h.data (by rw [h.failedSeeds]; exact id) hb

/-- What is open behind a sweep was open before it, and is not its first address. -/
lemma open_of_open (hv : v.Proper) (h : v.Swept s a path t c) (hne : a ≠ c)
    (hb : v.isSettled t b = false) : v.isSettled s b = false ∧ b ≠ a := by
  refine ⟨Bool.eq_false_iff.mpr fun hsettled => ?_, ?_⟩
  · rw [h.isSettled hsettled] at hb
    cases hb
  · rintro rfl
    have hle := h.sweep.le hv
    rw [Ne, ← UInt32.toNat_inj] at hne
    have hcode := h.isCode hv (Span.mem_mk.mpr ⟨Nat.le_refl b.toNat, by omega⟩)
    rw [isSettled_iff.mpr (Or.inl hcode)] at hb
    cases hb

/-- A byte that is undecided behind a sweep was undecided before it. -/
lemma unprocessed_of_unprocessed (h : v.Swept s a path t c) (hb : t.map.kind b = .unprocessed) :
    s.map.kind b = .unprocessed := by
  by_cases hmem : b ∈ (⟨a, c⟩ : Span)
  · exact h.fresh hmem
  · obtain ⟨hstart, hbody, hdata⟩ := ByteMap.kind_eq_unprocessed_iff.mp hb
    refine ByteMap.kind_eq_unprocessed_iff.mpr ⟨?_, ?_, ?_⟩
    · rw [← (h.same hmem).1, hstart]
    · rw [← (h.same hmem).2, hbody]
    · rw [Bool.eq_false_iff]
      intro hold
      rw [h.data hold] at hdata
      cases hdata

/-- One instruction in front of a sweep. -/
lemma cons (hv : v.Proper) (h : v.Swept s a [i] t i.stop) (h' : v.Swept t i.stop path u c) :
    v.Swept s a (i :: path) u c := by
  have hreads : v.Reads a i := by
    cases h.sweep with
    | cons hreads _ => exact hreads
  have hlt := hv.lt_stop hreads
  have hle := h'.sweep.le hv
  have hsplit : ∀ {b : Address}, b ∈ (⟨a, c⟩ : Span) ↔
      b ∈ (⟨a, i.stop⟩ : Span) ∨ b ∈ (⟨i.stop, c⟩ : Span) := by
    intro b
    rw [Span.mem_mk, Span.mem_mk, Span.mem_mk]
    omega
  constructor
  case sweep => exact .cons hreads h'.sweep
  case fresh =>
    intro b hb
    rcases hsplit.mp hb with hfirst | hrest
    · exact h.fresh hfirst
    · exact h.unprocessed_of_unprocessed (h'.fresh hrest)
  case changes => exact h.changes.trans h'.changes
  case standing => exact fun hb => h'.standing (h.standing hb)
  case stands =>
    intro j hj
    rcases List.mem_cons.mp hj with rfl | hmem
    · exact h'.standing (h.stands List.mem_cons_self)
    · exact h'.stands hmem
  case same =>
    intro b hb
    rw [hsplit, not_or] at hb
    exact ⟨(h'.same hb.2).1.trans (h.same hb.1).1, (h'.same hb.2).2.trans (h.same hb.1).2⟩
  case cursor => exact h'.cursor
  case data => exact fun hb => h'.data (h.data hb)
  case untouched =>
    intro hflow b
    have hfirst :=
      h.untouched (fun j hj => hflow j (List.mem_cons.mpr (Or.inl (List.mem_singleton.mp hj)))) b
    have hrest := h'.untouched (fun j hj => hflow j (List.mem_cons_of_mem _ hj)) b
    exact ⟨hrest.1.trans hfirst.1, hrest.2.trans hfirst.2⟩
  case relations => exact fun hr => h'.relations (h.relations hr)
  case paired => exact fun hs => h'.paired (h.paired hs)
  case sites =>
    intro r hr hforward
    rcases h'.sites hr hforward with hold | ⟨j, hj, hsite⟩ | ⟨⟨j, hj, hflow⟩, hdata⟩
    · rcases h.sites hold hforward with hold | ⟨j, hj, hsite⟩ | ⟨⟨j, hj, hflow⟩, hdata⟩
      · exact Or.inl hold
      · exact Or.inr (Or.inl ⟨j, List.mem_cons.mpr (Or.inl (List.mem_singleton.mp hj)), hsite⟩)
      · exact Or.inr (Or.inr
          ⟨⟨j, List.mem_cons.mpr (Or.inl (List.mem_singleton.mp hj)), hflow⟩, h'.data hdata⟩)
    · exact Or.inr (Or.inl ⟨j, List.mem_cons_of_mem _ hj, hsite⟩)
    · exact Or.inr (Or.inr ⟨⟨j, List.mem_cons_of_mem _ hj, hflow⟩, hdata⟩)
  case waits =>
    intro b hb
    rcases h'.waits hb with hold | ⟨hopen, -⟩
    · exact h.waits hold
    · refine Or.inr (h.open_of_open hv (fun heq => ?_) hopen)
      rw [← heq] at hlt
      omega
  case failedSeeds => exact h'.failedSeeds.trans h.failedSeeds
  case history => exact h'.history.trans h.history
  case attempts => exact h'.attempts.trans h.attempts
  case decoded =>
    have hfirst := h.decoded
    have hrest := h'.decoded
    simp only [List.length_cons, List.length_nil] at hfirst ⊢
    omega
  case phase =>
    rcases h'.phase with hsame | ⟨⟨j, hj, hflow⟩, hstops⟩
    · rcases h.phase with hsame' | ⟨⟨j, hj, hflow⟩, hstopped, hover⟩
      · exact Or.inl (hsame.trans hsame')
      · exact Or.inr ⟨⟨j, List.mem_cons.mpr (Or.inl (List.mem_singleton.mp hj)), hflow⟩,
          hsame.trans hstopped, hover.mono h'.changes.coverage fun _ => h'.relations⟩
    · exact Or.inr ⟨⟨j, List.mem_cons_of_mem _ hj, hflow⟩, hstops⟩

end Swept

/-! ## One instruction -/

/-- The state in which an instruction is laid down and its references are not followed yet. -/
def State.layDown (s : State) (a : Address) (i : Instruction) (suspicious : Bool) : State :=
  { s with
    map := markInstruction s.map a i suspicious
    stats := { s.stats with instructionsDecoded := s.stats.instructionsDecoded + 1 } }

lemma isSettled_layDown (hv : v.Proper) {suspicious : Bool} (h : v.examine s.map a = .ok (some i))
    (hb : v.isSettled s b = true) : v.isSettled (s.layDown a i suspicious) b = true := by
  have hchange : v.Change s.map (markInstruction s.map a i suspicious) := .decode suspicious h
  refine isSettled_mono (t := s.layDown a i suspicious) hchange.coverage (fun hcode => ?_)
    (fun hdata => ?_) id hb
  · unfold State.layDown
    rw [Marks.isCode, start_markInstruction h hv, body_markInstruction h hv]
    rw [Marks.isCode, Bool.or_eq_true] at hcode
    rcases hcode with hcode | hcode <;> simp [hcode]
  · unfold State.layDown
    rw [(other_markInstruction h hv b).1, hdata]

/-- In discovery, accepting an instruction lays it down and then follows its references. -/
lemma accept_discovery (v : Survey) (s : State) (a : Address) (i : Instruction)
    (suspicious : Bool) :
    v.accept .discovery suspicious s a i =
      v.followReferences i suspicious (s.layDown a i suspicious) := by
  unfold accept State.layDown
  rfl

lemma follows_accept (hv : v.Proper) (hs : v.Sound s.map) (purpose : Purpose) (suspicious : Bool)
    (h : v.examine s.map a = .ok (some i)) :
    v.Follows (i.flow != .jumpIndirect) a (s.layDown a i suspicious)
      (v.accept purpose suspicious s a i) := by
  obtain ⟨-, hreads, -⟩ := examine_eq_some h
  have hchange : v.Change s.map (s.layDown a i suspicious).map := .decode suspicious h
  cases purpose with
  | discovery =>
    have hreferences := follows_followReferences hv (hchange.sound hv hs) i suspicious
    rw [hv.faithful.address hreads] at hreferences
    rw [accept_discovery]
    exact hreferences
  | decoding => exact .refl v _ a _

/-- **Accepting an instruction is a sweep of its bytes.** -/
lemma swept_accept (hv : v.Proper) (hs : v.Sound s.map) (purpose : Purpose) (suspicious : Bool)
    (h : v.examine s.map a = .ok (some i)) :
    v.Swept s a [i] (v.accept purpose suspicious s a i) i.stop := by
  obtain ⟨hkind, hreads, htail⟩ := examine_eq_some h
  have haddress := hv.faithful.address hreads
  have hlt := hv.lt_stop hreads
  have hnew : v.Stands (s.layDown a i suspicious).map a i := hs.tiled.stands_markInstruction h hv
  have hmem : ∀ {b : Address}, b ∈ (⟨a, i.stop⟩ : Span) ↔ b = a ∨ b ∈ tailOf a i := by
    intro b
    rw [hv.mem_tailOf hreads, Span.mem_mk, ← UInt32.toNat_inj]
    omega
  have hfollows := follows_accept hv hs purpose suspicious h
  generalize v.accept purpose suspicious s a i = t at hfollows
  constructor
  case sweep => exact .cons hreads (.nil _)
  case fresh =>
    intro b hb
    rcases hmem.mp hb with rfl | hb
    · exact hkind
    · exact (htail b hb).1
  case changes =>
    exact (Relation.ReflTransGen.single (.decode suspicious h)).tail (.keep hfollows.keeps)
  case standing => exact fun hb => (hb.markInstruction h hv).keeps hfollows.keeps
  case stands =>
    intro j hj
    obtain rfl := List.mem_singleton.mp hj
    rw [haddress]
    exact hnew.keeps hfollows.keeps
  case same =>
    intro b hb
    rw [hmem, not_or] at hb
    rw [hfollows.keeps.start, hfollows.keeps.body]
    unfold State.layDown
    rw [start_markInstruction h hv, body_markInstruction h hv, decide_eq_false hb.1,
      decide_eq_false hb.2, Bool.or_false, Bool.or_false]
    exact ⟨rfl, rfl⟩
  case cursor => exact (hnew.keeps hfollows.keeps).ends
  case data =>
    intro b hb
    refine hfollows.keeps.data ?_
    unfold State.layDown
    rw [(other_markInstruction h hv b).1, hb]
  case untouched =>
    intro hflow b
    have hquiet : (i.flow != .jumpIndirect) = true := bne_iff_ne.mpr (hflow i List.mem_cons_self)
    obtain ⟨hdata, hclass⟩ := hfollows.untouched hquiet b
    exact ⟨hdata.trans (other_markInstruction h hv b).1,
      hclass.trans (other_markInstruction h hv b).2.2.2⟩
  case relations => exact hfollows.relations
  case paired => exact hfollows.paired
  case sites =>
    intro r hr hforward
    rcases hfollows.sites hr hforward with hold | hsite | ⟨hloud, hdata⟩
    · exact Or.inl hold
    · exact Or.inr (Or.inl ⟨i, List.mem_cons_self, hsite.trans haddress.symm⟩)
    · refine Or.inr (Or.inr ⟨⟨i, List.mem_cons_self, ?_⟩, hdata⟩)
      simpa using hloud
  case waits =>
    intro b hb
    rcases hfollows.waits hb with hold | hopen
    · exact Or.inl hold
    · refine Or.inr ⟨Bool.eq_false_iff.mpr fun hold => ?_, fun hba => ?_⟩
      · rw [isSettled_layDown hv h hold] at hopen
        cases hopen
      · have hcode := hnew.isCode hv (Nat.le_refl a.toNat) hlt
        rw [hba, isSettled_iff.mpr (Or.inl hcode)] at hopen
        cases hopen
  case failedSeeds => exact hfollows.failedSeeds
  case history => exact hfollows.history
  case attempts => exact hfollows.attempts
  case decoded => exact hfollows.decoded
  case phase =>
    rcases hfollows.phase with hsame | ⟨hloud, hstops⟩
    · exact Or.inl hsame
    · exact Or.inr ⟨⟨i, List.mem_cons_self, by simpa using hloud⟩, hstops⟩

/-! ## Whole attempts -/

lemma start_of_examine_eq_none (h : v.examine m a = .ok none) : (m.marks a).start = true := by
  by_contra hstart
  unfold examine at h
  split at h
  · next hkind =>
    rw [ByteMap.kind, Marks.kind, if_neg hstart] at hkind
    split at hkind
    · cases hkind
    · split at hkind <;> cases hkind
  · cases h
  · cases h
  · split at h
    · cases h
    · split at h <;> cases h

/-- Where nothing can be decoded no instruction starts. -/
lemma start_of_examine_eq_error {k : Conflict} (h : v.examine m a = .error k) :
    (m.marks a).start = false := by
  rw [Bool.eq_false_iff]
  intro hstart
  have hkind : m.kind a = .instructionStart := by rw [ByteMap.kind, Marks.kind, if_pos hstart]
  rw [examine, hkind] at h
  cases h

/-- Outside the bodies of instructions, decoding never fails for being inside an instruction. -/
lemma ne_insideInstruction_of_examine {k : Conflict} (h : v.examine m a = .error k)
    (hbody : (m.marks a).body = false) : k ≠ .insideInstruction := by
  rintro rfl
  have hstart := start_of_examine_eq_error h
  unfold examine at h
  split at h
  · cases h
  · next hkind =>
    rw [ByteMap.kind, Marks.kind, hstart, hbody] at hkind
    cases hdata : (m.marks a).data <;> simp [hdata] at hkind
  · cases h
  · split at h
    · cases h
    · split at h
      · next hconflict =>
        cases h
        obtain ⟨b, -, hb⟩ := List.exists_of_findSome?_eq_some hconflict
        dsimp only at hb
        split at hb
        · cases hb
        · split at hb <;> cases hb
      · cases h

lemma swept_attemptFrom (hv : v.Proper) {purpose : Purpose} {suspicious : Bool} {fuel : Nat}
    {failed : Option (Address × Conflict)} (hs : v.Sound s.map) (ha : (s.map.marks a).body = false)
    (h : v.attemptFrom purpose suspicious fuel a s = (t, failed)) :
    ∃ path c, v.Swept s a path t c ∧
      (failed = none → fuel ≠ 0 → (t.map.marks a).start = true) ∧
      ∀ x k, failed = some (x, k) →
        x = c ∧ v.examine t.map c = .error k ∧ ∀ i ∈ path, i.isTerminator = false := by
  induction fuel generalizing s a with
  | zero =>
    cases h
    exact ⟨[], a, .nil ha, fun _ hfuel => absurd rfl hfuel, nofun⟩
  | succ fuel ih =>
    rw [attemptFrom] at h
    split at h
    · next k herror =>
      cases h
      refine ⟨[], a, .nil ha, nofun, ?_⟩
      rintro x k ⟨⟩
      exact ⟨rfl, herror, List.forall_mem_nil _⟩
    · next hnone =>
      cases h
      exact ⟨[], a, .nil ha, fun _ _ => start_of_examine_eq_none hnone, nofun⟩
    · next i hsome =>
      have hfirst := swept_accept hv hs purpose suspicious hsome
      have haddress := hv.faithful.address (examine_eq_some hsome).2.1
      have hi := hfirst.stands List.mem_cons_self
      rw [haddress] at hi
      dsimp only at h
      split at h
      · cases h
        exact ⟨[i], i.stop, hfirst, fun _ _ => hi.start, nofun⟩
      · next hterminator =>
        obtain ⟨path, c, hrest, -, hfailed⟩ :=
          ih (hfirst.changes.sound hv hs) hfirst.cursor h
        refine ⟨i :: path, c, hfirst.cons hv hrest, fun _ _ => (hrest.standing hi).start, ?_⟩
        intro x k hx
        obtain ⟨hxc, herror, hpath⟩ := hfailed x k hx
        refine ⟨hxc, herror, fun j hj => ?_⟩
        rcases List.mem_cons.mp hj with rfl | hj
        · exact Bool.eq_false_iff.mpr hterminator
        · exact hpath j hj

/-- The state in which an attempt is counted and nothing is decoded yet. -/
def State.countAttempt (s : State) : State :=
  { s with stats := { s.stats with attempts := s.stats.attempts + 1 } }

/-- **An attempt is a sweep from its seed.**  When it succeeds an instruction stands at the seed,
and when it fails nothing can be decoded where the sweep ends. -/
lemma swept_attempt (hv : v.Proper) {purpose : Purpose} {confidence : Confidence}
    {failure : Option Failure} (hs : v.Sound s.map) (ha : (s.map.marks a).body = false)
    (h : v.attempt purpose confidence s a = (t, failure)) :
    ∃ path c, v.Swept s.countAttempt a path t c ∧ (failure = none → (t.map.marks a).start = true) ∧
      ∀ f, failure = some f → f.seed = a ∧ f.cursor = c ∧ v.examine t.map c = .error f.kind ∧
        ∀ i ∈ path, i.isTerminator = false := by
  rcases hrun : v.attemptFrom purpose confidence.isSpeculative (s.map.size + 1) a
    s.countAttempt with
    ⟨t', failed⟩
  have hresult : (t', failed.map fun p => (⟨a, p.1, p.2⟩ : Failure)) = (t, failure) := by
    rw [← h]
    change _ =
      ((v.attemptFrom purpose confidence.isSpeculative (s.map.size + 1) a s.countAttempt).1,
      (v.attemptFrom purpose confidence.isSpeculative (s.map.size + 1) a s.countAttempt).2.map _)
    rw [hrun]
  obtain ⟨rfl, rfl⟩ := Prod.mk.inj hresult
  obtain ⟨path, c, hswept, hstart, hfailed⟩ :=
    @swept_attemptFrom v s.countAttempt _ a hv _ _ _ _ hs ha hrun
  refine ⟨path, c, hswept,
    fun hnone => hstart (Option.map_eq_none_iff.mp hnone) (Nat.succ_ne_zero _), ?_⟩
  intro f hf
  obtain ⟨⟨x, k⟩, hx, rfl⟩ := Option.map_eq_some_iff.mp hf
  exact ⟨rfl, hfailed x k hx⟩

lemma flow_ne_jumpIndirect_of_isTerminator (h : i.isTerminator = false) :
    i.flow ≠ .jumpIndirect := by
  intro hflow
  rw [Instruction.isTerminator, hflow] at h
  cases h

/-- **A failed attempt** has read no indirect jump, and stops at a byte that is no code, for another
reason than being inside an instruction. -/
lemma swept_of_attempt_failed (hv : v.Proper) {purpose : Purpose} {confidence : Confidence}
    {f : Failure} (hs : v.Sound s.map) (ha : (s.map.marks a).body = false)
    (h : v.attempt purpose confidence s a = (t, some f)) :
    f.seed = a ∧ (t.map.marks f.cursor).isCode = false ∧ f.kind ≠ .insideInstruction ∧
      ∃ path, v.Swept s.countAttempt a path t f.cursor ∧ ∀ i ∈ path, i.flow ≠ .jumpIndirect := by
  obtain ⟨path, c, hswept, -, hfailed⟩ := swept_attempt hv hs ha h
  obtain ⟨hseed, rfl, herror, hpath⟩ := hfailed f rfl
  refine ⟨hseed, ?_, ne_insideInstruction_of_examine herror hswept.cursor, path, hswept, ?_⟩
  · exact Marks.isCode_eq_false_iff.mpr ⟨start_of_examine_eq_error herror, hswept.cursor⟩
  · exact fun i hi => flow_ne_jumpIndirect_of_isTerminator (hpath i hi)

end Survey

end CodeSift
