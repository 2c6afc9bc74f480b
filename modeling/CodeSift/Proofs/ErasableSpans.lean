import CodeSift.Proofs.ByteMap
import CodeSift.Survey.Recovery

/-!
# The span that is given up

After a failed attempt the doubt reaches back from the cursor to a labelled instruction, to the
seed, or to an anchored instruction, and forward to the next label or anchor.  The span between
should be a *clean cut* (`ByteMap.CleanCut`): all of it code, none of it a byte of an anchored
instruction, no end of it inside an instruction.

All that is needed of the map is that its instructions have their bytes together, the start first,
and that no anchor is inside an instruction (`ByteMap.WellFormed`); what the instructions are does
not matter.  On such a map the cut is clean wherever the cursor is, in free bytes, at a start or
inside an instruction, with one exception: when the cursor is inside an anchored instruction
(`erasable_cuts_clean_iff`).  There the way back ends at the anchored start, the end of that
instruction lies behind the cursor, and the span begins at the cursor, in the middle of what it
should keep (`erasable_cuts_anchored_instruction`).

An attempt never fails inside an instruction, so a survey does not get there; what it gives up
always is a clean cut.
-/

namespace CodeSift

namespace ByteMap

variable {m : ByteMap} {a b c s seed cursor stop : Address}

/-! ## Instructions on a map -/

/-- **The instructions of the map have their bytes together.**  A start is no body, a body follows a
byte of code, and no anchor is a body. -/
structure WellFormed (m : ByteMap) : Prop where
  start {a : Address} : (m.marks a).start = true → (m.marks a).body = false
  body {a : Address} : (m.marks a).body = true → 0 < a.toNat ∧ (m.marks (a - 1)).isCode = true
  anchored {a : Address} : (m.marks a).isAnchored = true → (m.marks a).body = false

/-- It is enough to look at the bytes of the map. -/
lemma wellFormed_iff : m.WellFormed ↔ ∀ a ∈ m.coverage.addresses, (m.marks a).body = true →
    (m.marks a).start = false ∧ (m.marks a).isAnchored = false ∧ 0 < a.toNat ∧
      (m.marks (a - 1)).isCode = true := by
  constructor
  · intro h a _ hbody
    refine ⟨?_, ?_, h.body hbody⟩
    · rw [Bool.eq_false_iff]
      intro hstart
      rw [h.start hstart] at hbody
      cases hbody
    · rw [Bool.eq_false_iff]
      intro hanchored
      rw [h.anchored hanchored] at hbody
      cases hbody
  · intro h
    have hcovered : ∀ {a : Address}, (m.marks a).body = true → a ∈ m.coverage.addresses :=
      fun hbody =>
      Coverage.contains_iff.mp (contains_of_isCode (by rw [Marks.isCode, hbody, Bool.or_true]))
    refine ⟨fun {a} hstart => ?_, fun hbody => (h _ (hcovered hbody) hbody).2.2,
      fun {a} hanchored => ?_⟩
    · rw [Bool.eq_false_iff]
      intro hbody
      rw [(h a (hcovered hbody) hbody).1] at hstart
      cases hstart
    · rw [Bool.eq_false_iff]
      intro hbody
      rw [(h a (hcovered hbody) hbody).2.1] at hanchored
      cases hanchored

-- the instance for lists by name: a search may find the one that goes through all addresses
instance (m : ByteMap) : Decidable m.WellFormed :=
  @decidable_of_iff _ _ wellFormed_iff.symm (List.decidableBAll _ m.coverage.addresses)

/-- The byte belongs to the instruction that starts at `s`: it is the start, or one of the bodies
behind it. -/
def Belongs (m : ByteMap) (s b : Address) : Prop :=
  (m.marks s).start = true ∧ s.toNat ≤ b.toNat ∧
    ∀ x : Address, s.toNat < x.toNat → x.toNat ≤ b.toNat → (m.marks x).body = true

/-- Between a start and a byte of its instruction there are only bodies. -/
lemma Belongs.body (h : m.Belongs s b) (hs : s.toNat < c.toNat) (hc : c.toNat ≤ b.toNat) :
    (m.marks c).body = true := h.2.2 c hs hc

/-- **The span is a clean cut.**  It holds code only, no byte of an anchored instruction, begins at
the seed or behind it, and neither begins nor ends inside an instruction. -/
structure CleanCut (m : ByteMap) (seed : Address) (span : Span) : Prop where
  code {b : Address} : b ∈ span → (m.marks b).isCode = true
  spares {s b : Address} : (m.marks s).isAnchored = true → m.Belongs s b → b ∉ span
  le : seed.toNat ≤ span.start.toNat
  start : (m.marks span.start).body = false
  stop : (m.marks span.stop).body = false

/-! ## The end of an instruction -/

lemma isCode_of_body (h : (m.marks a).body = true) : (m.marks a).isCode = true := by
  rw [Marks.isCode, h, Bool.or_true]

/-- **The end of an instruction** is the first byte behind its start that is no body. -/
lemma instructionStop_spec (hstart : (m.marks a).start = true) :
    a.toNat < (m.instructionStop a).toNat ∧ (m.marks (m.instructionStop a)).body = false ∧
      ∀ b : Address, a.toNat < b.toNat → b.toNat < (m.instructionStop a).toNat →
        (m.marks b).body = true := by
  have hcontains : m.contains a = true :=
    contains_of_isCode (by rw [Marks.isCode, hstart, Bool.true_or])
  have hnext : (Address.addSaturated a 1).toNat = a.toNat + 1 := by
    have hsucc := Coverage.toNat_succ_of_contains hcontains
    have hbound := (a + 1).toNat_lt
    rw [Address.toNat_addSaturated]
    omega
  have hwalk := @skipWhile_spec m (fun b => m.contains b && (m.marks b).body)
    (fun _ hb => (Bool.and_eq_true_iff.mp hb).1) m.size _
    (m.countFrom_le (Address.addSaturated a 1))
  change _ ≤ (m.instructionStop a).toNat ∧ (∀ b ∈ (⟨_, m.instructionStop a⟩ : Span), _) ∧ _ at hwalk
  obtain ⟨hle, hbodies, hfail⟩ := hwalk
  refine ⟨by omega, ?_, fun b hab hb => ?_⟩
  · rw [Bool.eq_false_iff]
    intro hbody
    rw [← instructionStop, hbody, contains_of_isCode (isCode_of_body hbody)] at hfail
    cases hfail
  · exact (Bool.and_eq_true_iff.mp (hbodies b (Span.mem_mk.mpr ⟨by omega, hb⟩))).2

/-! ## The way back -/

/-- The address is inside an anchored instruction. -/
def InsideAnchored (m : ByteMap) (a : Address) : Prop :=
  ∃ s, (m.marks s).isAnchored = true ∧ s.toNat < a.toNat ∧ m.Belongs s a

lemma InsideAnchored.body (h : m.InsideAnchored a) : (m.marks a).body = true := by
  obtain ⟨s, -, hlt, hbelongs⟩ := h
  exact hbelongs.body hlt (Nat.le_refl _)

/-- What is known about the address at which the doubt begins. -/
structure DoubtBegins (m : ByteMap) (seed cursor b : Address) : Prop where
  le : seed.toNat ≤ b.toNat
  le_cursor : b.toNat ≤ cursor.toNat
  code {x : Address} : x ∈ (⟨b, cursor⟩ : Span) → (m.marks x).isCode = true
  free {x : Address} : x ∈ (⟨b, cursor⟩ : Span) → (m.marks x).isAnchored = false
  boundary : (m.marks b).body = false ∨ m.InsideAnchored cursor

/-- Where an anchored instruction bounds the doubt, it begins behind that instruction, unless the
cursor is inside it. -/
lemma doubtBegins_instructionStop (hanchored : (m.marks b).isAnchored = true)
    (hstart : (m.marks b).start = true) (hseed : seed.toNat ≤ b.toNat) (hb : b.toNat < cursor.toNat)
    (hcode : ∀ x : Address, b.toNat < x.toNat → x.toNat < cursor.toNat → (m.marks x).isCode = true)
    (hfree : ∀ x : Address, b.toNat < x.toNat → x.toNat < cursor.toNat →
      (m.marks x).isAnchored = false) :
    m.DoubtBegins seed cursor (min (m.instructionStop b) cursor) := by
  obtain ⟨hlt, hends, hbodies⟩ := instructionStop_spec hstart
  have hmin := Address.toNat_min (m.instructionStop b) cursor
  have hbehind : ∀ x : Address, x ∈ (⟨min (m.instructionStop b) cursor, cursor⟩ : Span) →
      b.toNat < x.toNat ∧ x.toNat < cursor.toNat := by
    intro x hx
    rw [Span.mem_mk] at hx
    omega
  refine ⟨by omega, by omega, fun {x} hx => ?_, fun {x} hx => ?_, ?_⟩
  · exact hcode x (hbehind x hx).1 (hbehind x hx).2
  · exact hfree x (hbehind x hx).1 (hbehind x hx).2
  · by_cases hinside : cursor.toNat < (m.instructionStop b).toNat
    · right
      exact ⟨b, hanchored, hb, hstart, Nat.le_of_lt hb, fun x hx hxc => hbodies x hx (by omega)⟩
    · left
      have heq : min (m.instructionStop b) cursor = m.instructionStop b :=
        UInt32.toNat_inj.mp (by omega)
      rw [heq, hends]

/-- **Walking back over code ends at a boundary**, unless the cursor is inside an anchored
instruction. -/
lemma doubtBegins_walkBack (hm : m.WellFormed) (hseed : (m.marks seed).body = false) {n : Nat}
    (hn : seed.toNat + n = stop.toNat) (hstop : stop.toNat ≤ cursor.toNat)
    (hcode : ∀ x ∈ (⟨stop, cursor⟩ : Span), (m.marks x).isCode = true)
    (hfree : ∀ x ∈ (⟨stop, cursor⟩ : Span), (m.marks x).isAnchored = false) :
    m.DoubtBegins seed cursor (m.walkBack cursor n stop).1 := by
  induction n generalizing stop with
  | zero =>
    obtain rfl : seed = stop := UInt32.toNat_inj.mp (by omega)
    exact ⟨Nat.le_refl _, hstop, fun hx => hcode _ hx, fun hx => hfree _ hx, Or.inl hseed⟩
  | succ n ih =>
    have hone : (1 : Address).toNat = 1 := rfl
    have hprevious : (stop - 1).toNat = stop.toNat - 1 := by
      rw [Address.toNat_sub_of_le (by omega), hone]
    unfold walkBack
    dsimp only
    split
    · -- what follows a byte that is no code is no body
      next hnoCode =>
      show m.DoubtBegins seed cursor stop
      refine ⟨by omega, hstop, fun hx => hcode _ hx, fun hx => hfree _ hx, Or.inl ?_⟩
      rw [Bool.eq_false_iff]
      intro hbody
      rw [(hm.body hbody).2] at hnoCode
      cases hnoCode
    · next hcodePrevious =>
      rw [Bool.not_eq_true', Bool.not_eq_false] at hcodePrevious
      split
      · next hanchored =>
        rw [Bool.and_eq_true] at hanchored
        refine doubtBegins_instructionStop hanchored.2 hanchored.1 (by omega) (by omega) ?_ ?_
        · exact fun x hx hxc => hcode x (Span.mem_mk.mpr ⟨by omega, hxc⟩)
        · exact fun x hx hxc => hfree x (Span.mem_mk.mpr ⟨by omega, hxc⟩)
      · next hnotAnchored =>
        -- the byte walked over is no anchor: as a start it was just tested, as a body it cannot be
        -- one
        have hfreePrevious : (m.marks (stop - 1)).isAnchored = false := by
          rw [Bool.eq_false_iff]
          intro hanchored
          rw [Marks.isCode, hm.anchored hanchored, Bool.or_false] at hcodePrevious
          exact hnotAnchored (by rw [hcodePrevious, hanchored]; rfl)
        have hwalked : ∀ x ∈ (⟨stop - 1, cursor⟩ : Span),
            x = stop - 1 ∨ x ∈ (⟨stop, cursor⟩ : Span) := by
          intro x hx
          rw [← UInt32.toNat_inj, Span.mem_mk]
          rw [Span.mem_mk] at hx
          omega
        have hcode' : ∀ x ∈ (⟨stop - 1, cursor⟩ : Span), (m.marks x).isCode = true := by
          intro x hx
          rcases hwalked x hx with rfl | hold
          · exact hcodePrevious
          · exact hcode x hold
        have hfree' : ∀ x ∈ (⟨stop - 1, cursor⟩ : Span), (m.marks x).isAnchored = false := by
          intro x hx
          rcases hwalked x hx with rfl | hold
          · exact hfreePrevious
          · exact hfree x hold
        split
        · next hlabel =>
          rw [Bool.and_eq_true] at hlabel
          show m.DoubtBegins seed cursor (stop - 1)
          exact ⟨by omega, by omega,
            fun hx => hcode' _ hx, fun hx => hfree' _ hx, Or.inl (hm.start hlabel.1)⟩
        · exact ih (by omega) (by omega) hcode' hfree'

/-! ## The way forward -/

lemma doubtReaches_iff : m.doubtReaches cursor a = true ↔
    m.contains a = true ∧ (m.marks a).isCode = true ∧ (m.marks a).isAnchored = false ∧
      ¬(a ≠ cursor ∧ (m.marks a).start = true ∧ (m.marks a).isLabel = true) := by
  simp only [doubtReaches, Bool.and_eq_true, Bool.not_eq_true', Bool.and_eq_false_iff,
    bne_eq_false_iff_eq, and_assoc, ne_eq]
  cases (m.marks a).start <;> cases (m.marks a).isLabel <;> simp

/-- The doubt goes through bodies. -/
lemma doubtReaches_of_body (hm : m.WellFormed) (hbody : (m.marks a).body = true) :
    m.doubtReaches cursor a = true := by
  have hcode := isCode_of_body hbody
  refine doubtReaches_iff.mpr ⟨contains_of_isCode hcode, hcode, ?_, fun hlabel => ?_⟩
  · rw [Bool.eq_false_iff]
    intro hanchored
    rw [hm.anchored hanchored] at hbody
    cases hbody
  · rw [hm.start hlabel.2.1] at hbody
    cases hbody

/-- Where the doubt ends. -/
def doubtStop (m : ByteMap) (cursor : Address) : Address :=
  skipWhile (m.doubtReaches cursor) m.size cursor

/-- **The doubt ends at a boundary**, at the cursor or behind it. -/
lemma doubtStop_spec (hm : m.WellFormed) (cursor : Address) :
    cursor.toNat ≤ (m.doubtStop cursor).toNat ∧
      (∀ b ∈ (⟨cursor, m.doubtStop cursor⟩ : Span), m.doubtReaches cursor b = true) ∧
      (m.marks (m.doubtStop cursor)).body = false ∧
        m.doubtReaches cursor (m.doubtStop cursor) = false := by
  obtain ⟨hle, hreached, hfail⟩ := skipWhile_spec (fun _ hb => (doubtReaches_iff.mp hb).1)
    (m.countFrom_le cursor)
  refine ⟨hle, hreached, ?_, hfail⟩
  rw [Bool.eq_false_iff]
  intro hbody
  have hreaches : m.doubtReaches cursor (m.doubtStop cursor) = true := doubtReaches_of_body hm hbody
  rw [doubtStop, hfail] at hreaches
  cases hreaches

/-! ## The whole span -/

/-- The span to give up, from where the doubt begins to where it ends. -/
lemma erasable_eq (hm : m.WellFormed) (hseed : (m.marks seed).body = false)
    (hle : seed.toNat ≤ cursor.toNat) :
    ∃ b, (m.erasable seed cursor).1 = ⟨b, m.doubtStop cursor⟩ ∧ m.DoubtBegins seed cursor b := by
  have hfloor : min seed cursor = seed := by
    rw [← UInt32.toNat_inj, Address.toNat_min]
    omega
  have hempty : ∀ x : Address, x ∉ (⟨cursor, cursor⟩ : Span) := by
    intro x hx
    rw [Span.mem_mk] at hx
    omega
  have hbegins : m.DoubtBegins seed cursor
      (m.walkBack cursor (cursor.toNat - seed.toNat) cursor).1 :=
    doubtBegins_walkBack hm hseed (by omega) (Nat.le_refl _) (fun x hx => absurd hx (hempty x))
      (fun x hx => absurd hx (hempty x))
  refine ⟨_, ?_, hbegins⟩
  have hstop := (doubtStop_spec hm cursor).1
  have hmax : max (m.doubtStop cursor) (m.walkBack cursor (cursor.toNat - seed.toNat) cursor).1 =
      m.doubtStop cursor := by
    have hbefore := hbegins.le_cursor
    rw [← UInt32.toNat_inj, Address.toNat_max]
    omega
  unfold erasable
  dsimp only
  rw [hfloor, ← doubtStop, hmax]

/-- Away from anchored instructions the span is a clean cut. -/
lemma DoubtBegins.cleanCut (hm : m.WellFormed) (h : m.DoubtBegins seed cursor b)
    (hcursor : ¬m.InsideAnchored cursor) : m.CleanCut seed ⟨b, m.doubtStop cursor⟩ := by
  obtain ⟨hle, hreached, hstop, -⟩ := doubtStop_spec hm cursor
  have hstart : (m.marks b).body = false := h.boundary.resolve_right hcursor
  have hsides : ∀ x ∈ (⟨b, m.doubtStop cursor⟩ : Span),
      x ∈ (⟨b, cursor⟩ : Span) ∨ x ∈ (⟨cursor, m.doubtStop cursor⟩ : Span) := by
    intro x hx
    rw [Span.mem_mk] at hx
    rw [Span.mem_mk, Span.mem_mk]
    omega
  have hfree : ∀ x ∈ (⟨b, m.doubtStop cursor⟩ : Span), (m.marks x).isAnchored = false := by
    intro x hx
    rcases hsides x hx with hback | hforth
    · exact h.free hback
    · exact (doubtReaches_iff.mp (hreached x hforth)).2.2.1
  refine ⟨fun {x} hx => ?_, fun {s x} hanchored hbelongs hx => ?_, h.le, hstart, hstop⟩
  · rcases hsides x hx with hback | hforth
    · exact h.code hback
    · exact (doubtReaches_iff.mp (hreached x hforth)).2.1
  · -- an anchored instruction that reaches into the span starts before it, so that its bodies cover
    -- the first byte
    rw [Span.mem_mk] at hx
    by_cases hbefore : s.toNat < b.toNat
    · rw [hbelongs.body hbefore hx.1] at hstart
      cases hstart
    · have hle := hbelongs.2.1
      rw [hfree s (Span.mem_mk.mpr (by omega))] at hanchored
      cases hanchored

/-- **What is given up is a clean cut exactly if the cursor is not inside an anchored instruction.**
This is for every well-formed map, every seed that is no body and every cursor from the seed on. -/
theorem erasable_cuts_clean_iff (hm : m.WellFormed) (hseed : (m.marks seed).body = false)
    (hle : seed.toNat ≤ cursor.toNat) :
    m.CleanCut seed (m.erasable seed cursor).1 ↔ ¬m.InsideAnchored cursor := by
  obtain ⟨b, hspan, hbegins⟩ := erasable_eq hm hseed hle
  rw [hspan]
  constructor
  · intro hclean hinside
    -- the doubt goes through the bodies of the anchored instruction, the cursor being one of them
    have hreaches : m.doubtReaches cursor cursor = true := doubtReaches_of_body hm hinside.body
    obtain ⟨hforward, -, -, hends⟩ := doubtStop_spec hm cursor
    have hne : cursor.toNat ≠ (m.doubtStop cursor).toNat := by
      intro heq
      rw [← UInt32.toNat_inj.mp heq, hreaches] at hends
      cases hends
    obtain ⟨s, hanchored, -, hbelongs⟩ := hinside
    exact hclean.spares hanchored hbelongs (Span.mem_mk.mpr ⟨hbegins.le_cursor, by omega⟩)
  · exact hbegins.cleanCut hm

/-! ## A call and a jump

An anchored call of five bytes, and a jump of two bytes behind it. -/

/-- The map of the call and the jump. -/
def callAndJump : ByteMap :=
  let call := ((ofSpans [⟨0x1000, 0x1010⟩]).mark 0x1000 { start := true, entry := true }).markSpan
    ⟨0x1001, 0x1005⟩ { body := true }
  (call.mark 0x1005 { start := true }).mark 0x1006 { body := true }

/-- A failure inside the anchored call gives up what lies behind the cursor, the last bytes of the
call first. -/
theorem erasable_cuts_anchored_instruction :
    callAndJump.WellFormed ∧ (callAndJump.marks 0x1000).body = false ∧
      (callAndJump.marks 0x1000).isAnchored = true ∧ (callAndJump.marks 0x1000).start = true ∧
      (callAndJump.erasable 0x1000 0x1002).1 = ⟨0x1002, 0x1007⟩ ∧
      (callAndJump.marks 0x1001).body = true ∧ (callAndJump.marks 0x1002).body = true ∧
      ¬callAndJump.CleanCut 0x1000 (callAndJump.erasable 0x1000 0x1002).1 := by
  refine ⟨by decide +kernel, by decide +kernel, by decide +kernel, by decide +kernel,
    by decide +kernel, by decide +kernel, by decide +kernel, fun hclean => ?_⟩
  have hstart : (callAndJump.marks (callAndJump.erasable 0x1000 0x1002).1.start).body = true := by
    decide +kernel
  rw [hclean.start] at hstart
  cases hstart

/-- A failure inside the jump gives up the jump and leaves the call as it is. -/
theorem erasable_cuts_clean_iff_jump :
    callAndJump.WellFormed ∧ (callAndJump.erasable 0x1000 0x1006).1 = ⟨0x1005, 0x1007⟩ ∧
      callAndJump.CleanCut 0x1000 (callAndJump.erasable 0x1000 0x1006).1 := by
  have hm : callAndJump.WellFormed := by decide +kernel
  refine ⟨hm, by decide +kernel,
    (erasable_cuts_clean_iff hm (by decide +kernel) (by decide)).mpr ?_⟩
  rintro ⟨s, hanchored, hlt, hbelongs⟩
  have hnumber : (0x1006 : Address).toNat = 0x1006 ∧ (0x1005 : Address).toNat = 0x1005 := ⟨rfl, rfl⟩
  by_cases heq : s = 0x1005
  · have hfree : (callAndJump.marks 0x1005).isAnchored = false := by decide +kernel
    rw [heq, hfree] at hanchored
    cases hanchored
  · rw [← UInt32.toNat_inj] at heq
    have hbody : (callAndJump.marks 0x1005).body = true := hbelongs.body (by omega) (by omega)
    have hstart : (callAndJump.marks 0x1005).body = false := by decide +kernel
    rw [hstart] at hbody
    cases hbody

end ByteMap

end CodeSift
