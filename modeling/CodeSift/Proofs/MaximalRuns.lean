import CodeSift.Proofs.Runs

/-!
# Runs are another way to write a map

Coalescing a list of addresses with values and expanding runs undo each other.  Expanding what was
coalesced gives back the list, byte for byte (`expand_coalesce`).  Coalescing what was expanded
gives back the runs, as long as none is empty and two neighbours that touch differ in value
(`coalesce_expand`): so runs are maximal, and no other runs would do.

For the runs of a map this says that they hold the kind and the class of every covered byte and of
no other, and that they are determined by that (`coalesces_iff_eq_runs`).  A run begins where the
byte in front is not covered or reads otherwise (`exists_start_eq_iff`).
-/

namespace CodeSift

namespace Run

variable {α : Type}

/-- The addresses of the run, each with the value of the run. -/
def expand (r : Run α) : List (Address × α) := r.span.addresses.map fun a => (a, r.value)

/-- A run of more than one address is its first address and a shorter run. -/
lemma expand_cons {a stop : Address} {value : α} (hsucc : (a + 1).toNat = a.toNat + 1)
    (hstop : (a + 1).toNat ≤ stop.toNat) :
    (⟨⟨a, stop⟩, value⟩ : Run α).expand =
      (a, value) :: (⟨⟨a + 1, stop⟩, value⟩ : Run α).expand := by
  have hsingle : (⟨a, a + 1⟩ : Span).addresses = [a] := by
    simp [Span.addresses, Span.size_mk, hsucc, Address.consecutive]
  simp [expand, Span.addresses_append (show a.toNat ≤ (a + 1).toNat by omega) hstop, hsingle]

/-- A run that ends where it begins has no address. -/
lemma expand_empty (a : Address) (value : α) : (⟨⟨a, a⟩, value⟩ : Run α).expand = [] := by
  simp [expand, Span.addresses, Span.size_mk, Address.consecutive]

variable [DecidableEq α]

/-! ## Expanding what was coalesced -/

/-- Putting an address in front of runs puts it in front of their addresses. -/
lemma expand_extend {e : Address × α} {runs : List (Run α)}
    (hsucc : (e.1 + 1).toNat = e.1.toNat + 1)
    (hnonempty : ∀ r ∈ runs, r.span.start.toNat < r.span.stop.toNat) :
    (extend e runs).flatMap expand = e :: runs.flatMap expand := by
  have hsingle : (⟨⟨e.1, e.1 + 1⟩, e.2⟩ : Run α).expand = [e] := by
    rw [expand_cons hsucc (Nat.le_refl _), expand_empty]
  cases runs with
  | nil => simp [extend, hsingle]
  | cons first others =>
    simp only [extend]
    split
    · next hjoin =>
      obtain ⟨hvalue, htouch⟩ := hjoin
      have hfirst := hnonempty first List.mem_cons_self
      have hstart := congrArg UInt32.toNat htouch
      have hentry : (e.1, first.value) = e := by rw [← hvalue]
      rw [List.flatMap_cons, expand_cons hsucc (by omega), htouch, hentry]
      rfl
    · simp [hsingle]

/-- **Coalescing loses nothing.** -/
lemma expand_coalesce {entries : List (Address × α)}
    (hsucc : ∀ e ∈ entries, (e.1 + 1).toNat = e.1.toNat + 1) :
    (coalesce entries).flatMap expand = entries := by
  induction entries with
  | nil => rfl
  | cons e rest ih =>
    have hrest : ∀ e ∈ rest, (e.1 + 1).toNat = e.1.toNat + 1 := fun e he =>
      hsucc e (List.mem_cons_of_mem _ he)
    show (extend e (coalesce rest)).flatMap expand = e :: rest
    rw [expand_extend (hsucc e List.mem_cons_self) fun r hr =>
      nonempty_of_mem_coalesce hrest hr, ih hrest]

/-! ## Coalescing what was expanded -/

/-- Where the run touches the first of the runs behind it, the two differ in value. -/
def Ends (r : Run α) (behind : List (Run α)) : Prop :=
  ∀ q ∈ behind.head?, r.span.stop = q.span.start → r.value ≠ q.value

/-- The addresses of a run, put one by one in front of other runs, become that run again. -/
lemma foldr_extend_expand {r : Run α} {behind : List (Run α)}
    (hnonempty : r.span.start < r.span.stop) (hends : r.Ends behind) :
    r.expand.foldr extend behind = r :: behind := by
  obtain ⟨⟨start, stop⟩, value⟩ := r
  have hlt : start.toNat < stop.toNat := UInt32.lt_iff_toNat_lt.mp hnonempty
  have hbound := stop.toNat_lt
  -- the induction is on the bytes of the run, which is taken up from its end
  obtain ⟨n, hn⟩ := Nat.exists_eq_add_of_lt hlt
  induction n generalizing start with
  | zero =>
    have hsucc : (start + 1).toNat = start.toNat + 1 := Address.toNat_succ (by omega)
    have hstop : start + 1 = stop := UInt32.toNat_inj.mp (by omega)
    rw [expand_cons hsucc (by omega), hstop, expand_empty]
    cases behind with
    | nil => simp [extend, hstop]
    | cons q others =>
      have hchange : ¬ (value = q.value ∧ stop = q.span.start) := by
        rintro ⟨hvalue, htouch⟩
        exact hends q rfl htouch hvalue
      simp only [List.foldr_cons, List.foldr_nil, extend, hstop, if_neg hchange]
  | succ n ih =>
    have hsucc : (start + 1).toNat = start.toNat + 1 := Address.toNat_succ (by omega)
    have hshorter : (start + 1).toNat < stop.toNat := by omega
    rw [expand_cons hsucc (by omega), List.foldr_cons,
      ih (start + 1) (UInt32.lt_iff_toNat_lt.mpr hshorter) hends hshorter (by omega)]
    simp [extend]

/-- **Runs that could not be longer are what coalescing makes of their addresses.** -/
lemma coalesce_expand {runs : List (Run α)} (hnonempty : ∀ r ∈ runs, r.span.start < r.span.stop)
    (hchange : runs.Pairwise fun r q => r.span.stop = q.span.start → r.value ≠ q.value) :
    coalesce (runs.flatMap expand) = runs := by
  induction runs with
  | nil => rfl
  | cons r rest ih =>
    obtain ⟨hr, hrest⟩ := List.pairwise_cons.mp hchange
    have ih := ih (fun q hq => hnonempty q (List.mem_cons_of_mem _ hq)) hrest
    have hends : r.Ends rest := fun q hq => hr q (List.mem_of_mem_head? hq)
    rw [List.flatMap_cons, coalesce, List.foldr_append]
    change List.foldr extend (coalesce (rest.flatMap expand)) r.expand = r :: rest
    rw [ih, foldr_extend_expand (hnonempty r List.mem_cons_self) hends]

end Run

namespace ByteMap

/-- **The runs are a map in another form.**  They ascend, hold addresses, have none in common and
cover what the map covers.  Written out they are the covered bytes in order, each with its kind,
where the body of an instruction reads as its start, and its class.  Where two touch, the kind or
the class changes. -/
structure Coalesces (m : ByteMap) (runs : List (Run RunClass)) : Prop where
  ascending : runs.Pairwise fun r q => r.span.start < q.span.start
  nonempty : ∀ r ∈ runs, r.span.start < r.span.stop
  disjoint : runs.Pairwise fun r q => ∀ a ∈ r.span, a ∉ q.span
  covers : ∀ a, (∃ r ∈ runs, a ∈ r.span) ↔ m.contains a = true
  expands : runs.flatMap Run.expand = m.coverage.addresses.map fun a =>
    (a, ⟨if m.kind a = .instructionBody then .instructionStart else m.kind a, m.dataClass a⟩)
  changes : runs.Pairwise fun r q => r.span.stop = q.span.start →
    ¬ (r.value.kind = q.value.kind ∧ r.value.dataClass = q.value.dataClass)

/-- A byte as part of a run. -/
def reading (m : ByteMap) (a : Address) : RunClass := runClass (m.cell a)

variable {m : ByteMap} {a : Address}

lemma reading_eq (m : ByteMap) (a : Address) :
    m.reading a =
      ⟨if m.kind a = .instructionBody then .instructionStart else m.kind a, m.dataClass a⟩ := by
  have hstretch : (m.kind a).stretch =
      if m.kind a = .instructionBody then .instructionStart else m.kind a := by
    cases m.kind a <;> rfl
  rw [← hstretch]
  rfl

/-- The covered bytes in order, each as part of a run. -/
def readings (m : ByteMap) : List (Address × RunClass) :=
  m.coverage.addresses.map fun a => (a, m.reading a)

lemma readings_eq (m : ByteMap) : m.readings = m.coverage.addresses.map fun a =>
    (a, ⟨if m.kind a = .instructionBody then .instructionStart else m.kind a, m.dataClass a⟩) :=
  List.map_congr_left fun a _ => by rw [reading_eq]

lemma runs_eq_coalesce_readings (m : ByteMap) : m.runs = Run.coalesce m.readings := by
  rw [runs, toList_eq, List.map_map]
  rfl

lemma mem_readings_iff {value : RunClass} :
    (a, value) ∈ m.readings ↔ m.contains a = true ∧ m.reading a = value := by
  rw [readings, contains, Coverage.contains_iff]
  simp only [List.mem_map, Prod.mk.injEq]
  constructor
  · rintro ⟨b, hb, rfl, rfl⟩
    exact ⟨hb, rfl⟩
  · rintro ⟨ha, rfl⟩
    exact ⟨a, ha, rfl, rfl⟩

lemma toNat_succ_of_mem_readings : ∀ e ∈ m.readings, (e.1 + 1).toNat = e.1.toNat + 1 := by
  rintro ⟨b, value⟩ he
  exact Coverage.toNat_succ_of_contains (mem_readings_iff.mp he).1

/-- **A byte lies in a run with some value exactly if it is covered and reads so.** -/
lemma exists_mem_runs_iff {value : RunClass} :
    (∃ r ∈ m.runs, a ∈ r.span ∧ r.value = value) ↔ m.contains a = true ∧ m.reading a = value := by
  rw [runs_eq_coalesce_readings, Run.exists_mem_coalesce_iff toNat_succ_of_mem_readings,
    mem_readings_iff]

lemma start_lt_stop_of_mem_runs {r : Run RunClass} (h : r ∈ m.runs) :
    r.span.start.toNat < r.span.stop.toNat := by
  rw [runs_eq_coalesce_readings] at h
  exact Run.nonempty_of_mem_coalesce toNat_succ_of_mem_readings h

/-- The run comes first, and where the two touch their values differ. -/
def Before (r q : Run RunClass) : Prop :=
  r.span.stop.toNat ≤ q.span.start.toNat ∧ (r.span.stop = q.span.start → r.value ≠ q.value)

lemma pairwise_runs (m : ByteMap) : m.runs.Pairwise Before := by
  rw [runs_eq_coalesce_readings]
  apply Run.pairwise_coalesce toNat_succ_of_mem_readings
  exact List.pairwise_map.mpr m.coverage.pairwise_addresses

lemma coalesces_runs (m : ByteMap) : m.Coalesces m.runs where
  nonempty r hr := UInt32.lt_iff_toNat_lt.mpr (start_lt_stop_of_mem_runs hr)
  ascending := by
    apply m.pairwise_runs.imp_of_mem
    rintro r q hr - ⟨hle, -⟩
    have hnonempty := start_lt_stop_of_mem_runs hr
    rw [UInt32.lt_iff_toNat_lt]
    omega
  disjoint := by
    apply m.pairwise_runs.imp
    rintro r q ⟨hle, -⟩ a har haq
    rw [Span.mem_iff] at har haq
    omega
  covers a := by
    constructor
    · rintro ⟨r, hr, ha⟩
      exact (exists_mem_runs_iff.mp ⟨r, hr, ha, rfl⟩).1
    · intro hcontains
      obtain ⟨r, hr, ha, -⟩ := exists_mem_runs_iff.mpr ⟨hcontains, rfl⟩
      exact ⟨r, hr, ha⟩
  expands := by
    rw [runs_eq_coalesce_readings, Run.expand_coalesce toNat_succ_of_mem_readings, readings_eq]
  changes := by
    apply m.pairwise_runs.imp
    rintro r q ⟨-, hchange⟩ htouch ⟨hkind, hclass⟩
    apply hchange htouch
    calc r.value = ⟨r.value.kind, r.value.dataClass⟩ := rfl
      _ = q.value := by rw [hkind, hclass]

/-- **Runs are a lossless and maximal form of the map**, and the only one. -/
theorem coalesces_iff_eq_runs (m : ByteMap) (runs : List (Run RunClass)) :
    m.Coalesces runs ↔ runs = m.runs := by
  constructor
  · intro h
    have hchange : runs.Pairwise fun r q => r.span.stop = q.span.start → r.value ≠ q.value := by
      apply h.changes.imp
      intro r q hrq htouch hvalue
      exact hrq htouch ⟨by rw [hvalue], by rw [hvalue]⟩
    rw [runs_eq_coalesce_readings, readings_eq, ← h.expands, Run.coalesce_expand h.nonempty hchange]
  · rintro rfl
    exact m.coalesces_runs

/-- An instruction of two bytes and the next one are one run, and a hole in the map ends a run. -/
example :
    let m := (((ofSpans [⟨0x1000, 0x1004⟩, ⟨0x1008, 0x100a⟩]).mark 0x1000 { start := true }).mark
      0x1001 { body := true }).mark 0x1002 { start := true }
    m.runs.map Run.span = [⟨0x1000, 0x1003⟩, ⟨0x1003, 0x1004⟩, ⟨0x1008, 0x100a⟩] := by
  decide +kernel

/-! ## Where runs begin -/

/-- Two runs are one, or one of them comes first. -/
lemma eq_or_before_of_mem_runs {r q : Run RunClass} (hr : r ∈ m.runs) (hq : q ∈ m.runs) :
    r = q ∨ Before r q ∨ Before q r :=
  List.Pairwise.forall_of_forall_of_flip (R := fun r q => r = q ∨ Before r q ∨ Before q r)
    (fun _ _ => Or.inl rfl) (m.pairwise_runs.imp fun h => Or.inr (Or.inl h))
    (m.pairwise_runs.imp fun h => Or.inr (Or.inr h)) hr hq

/-- **A run begins where the byte in front does not read alike.** -/
lemma exists_start_eq_iff {value : RunClass} : (∃ r ∈ m.runs, r.span.start = a ∧ r.value = value) ↔
    (m.contains a = true ∧ m.reading a = value) ∧
      ¬ (m.contains (a - 1) = true ∧ m.reading (a - 1) = value) := by
  constructor
  · rintro ⟨r, hr, rfl, rfl⟩
    have hnonempty := start_lt_stop_of_mem_runs hr
    refine ⟨exists_mem_runs_iff.mp ⟨r, hr, Span.mem_iff.mpr ⟨Nat.le_refl _, hnonempty⟩, rfl⟩,
      fun hfront => ?_⟩
    -- the run that the byte in front lies in touches this one
    have hsucc := Coverage.toNat_succ_of_contains hfront.1
    rw [UInt32.sub_add_cancel] at hsucc
    obtain ⟨q, hq, hmem, hvalue⟩ := exists_mem_runs_iff.mpr hfront
    rw [Span.mem_iff] at hmem
    have hother := start_lt_stop_of_mem_runs hq
    rcases eq_or_before_of_mem_runs hq hr with rfl | ⟨hle, hchange⟩ | ⟨hle, -⟩
    · omega
    · exact hchange (UInt32.toNat_inj.mp (by omega)) hvalue
    · omega
  · rintro ⟨hcovered, hfront⟩
    obtain ⟨r, hr, hmem, hvalue⟩ := exists_mem_runs_iff.mpr hcovered
    refine ⟨r, hr, ?_, hvalue⟩
    by_contra hne
    apply hfront
    apply exists_mem_runs_iff.mp
    refine ⟨r, hr, ?_, hvalue⟩
    rw [Span.mem_iff] at hmem ⊢
    have hlt : r.span.start.toNat ≠ a.toNat := fun h => hne (UInt32.toNat_inj.mp h)
    have hpred : (a - 1).toNat = a.toNat - 1 := Address.toNat_sub_of_le (by show 1 ≤ a.toNat; omega)
    omega

end ByteMap

end CodeSift
