import CodeSift.Names
import CodeSift.Proofs.MaximalRuns
import Mathlib.Data.List.Induction

/-!
# Every address has its strongest name

Many sources can name one address: an exported function may also be called, jumped to, read as data,
and begin a table.  `NameTable.candidatesFor` lists the names that are offered for an address,
source by source, and `Strongest` picks the first of those that come from the strongest source.  The
table of an image holds exactly these names (`names_are_strongest`).

The table is filled by inserting one name after the other.  At a single address this is a fold over
the names offered there (`get?_foldl_insert`), and the fold keeps the strongest name so far
(`foldl_offer_eq_some_iff`).  The order of the relations makes no difference, since the names that
they offer for one address differ in kind or not at all.
-/

namespace CodeSift

namespace NameTable

/-! ## Offering names -/

/-- The name that counts when one more is offered. -/
def offer : Option Name → Name → Option Name
  | none, name => some name
  | some best, name => if name.kind.rank < best.kind.rank then some name else some best

/-- **The first of the strongest names.**  The names in front are weaker, and those behind are not
stronger. -/
def Strongest (names : List Name) (name : Name) : Prop :=
  ∃ before behind, names = before ++ name :: behind ∧ (∀ n ∈ before, name.kind.rank < n.kind.rank) ∧
    ∀ n ∈ behind, name.kind.rank ≤ n.kind.rank

/-- No name is stronger than the strongest. -/
lemma Strongest.rank_le {names : List Name} {name n : Name} (h : Strongest names name)
    (hn : n ∈ names) : name.kind.rank ≤ n.kind.rank := by
  obtain ⟨before, behind, rfl, hbefore, hbehind⟩ := h
  rcases List.mem_append.mp hn with hn | hn
  · exact Nat.le_of_lt (hbefore n hn)
  · rcases List.mem_cons.mp hn with rfl | hn
    · exact Nat.le_refl _
    · exact hbehind n hn

lemma foldl_offer_eq_none_iff {names : List Name} : names.foldl offer none = none ↔ names = [] := by
  induction names using List.reverseRecOn with
  | nil => simp
  | append_singleton names name _ =>
    rw [List.foldl_append]
    cases names.foldl offer none with
    | none => simp [offer]
    | some best =>
      simp only [List.foldl_cons, List.foldl_nil, offer]
      split <;> simp

/-- The fold comes to a strongest name: the step is one more name behind the others. -/
lemma strongest_of_foldl_offer {names : List Name} {name : Name}
    (h : names.foldl offer none = some name) : Strongest names name := by
  induction names using List.reverseRecOn generalizing name with
  | nil => simp at h
  | append_singleton names last ih =>
    rw [List.foldl_append, List.foldl_cons, List.foldl_nil] at h
    cases hbest : names.foldl offer none with
    | none =>
      rw [hbest] at h
      rw [foldl_offer_eq_none_iff] at hbest
      cases h
      exact ⟨[], [], by rw [hbest], by simp, by simp⟩
    | some best =>
      rw [hbest, offer] at h
      have hstrongest := ih hbest
      split at h
      · next hstronger =>
        cases h
        refine ⟨names, [], rfl, fun n hn => ?_, by simp⟩
        have hle := hstrongest.rank_le hn
        omega
      · next hweaker =>
        cases h
        obtain ⟨before, behind, rfl, hbefore, hbehind⟩ := hstrongest
        refine ⟨before, behind ++ [last], by simp, hbefore, fun n hn => ?_⟩
        rcases List.mem_append.mp hn with hn | hn
        · exact hbehind n hn
        · rw [List.mem_singleton.mp hn]
          omega

/-- A name stays as long as no stronger one is offered. -/
lemma foldl_offer_of_rank_le {names : List Name} {best : Name}
    (h : ∀ n ∈ names, best.kind.rank ≤ n.kind.rank) :
    names.foldl offer (some best) = some best := by
  induction names with
  | nil => rfl
  | cons name rest ih =>
    have hname := h name List.mem_cons_self
    rw [List.foldl_cons, offer, if_neg (by omega)]
    exact ih fun n hn => h n (List.mem_cons_of_mem _ hn)

/-- **Offering names one by one keeps the first of the strongest.** -/
lemma foldl_offer_eq_some_iff {names : List Name} {name : Name} :
    names.foldl offer none = some name ↔ Strongest names name := by
  refine ⟨strongest_of_foldl_offer, ?_⟩
  rintro ⟨before, behind, rfl, hbefore, hbehind⟩
  have htaken : offer (before.foldl offer none) name = some name := by
    cases hbest : before.foldl offer none with
    | none => rfl
    | some best =>
      obtain ⟨_, _, rfl, -⟩ := strongest_of_foldl_offer hbest
      rw [offer, if_pos (hbefore best (by simp))]
  rw [List.foldl_append, List.foldl_cons, htaken, foldl_offer_of_rank_le hbehind]

/-! ## Filling the table -/

/-- The names that are offered for an address, in order. -/
def namesAt (a : Address) (entries : List (Address × Name)) : List Name :=
  (entries.filter fun e => e.1 = a).map Prod.snd

lemma namesAt_append (a : Address) (entries more : List (Address × Name)) :
    namesAt a (entries ++ more) = namesAt a entries ++ namesAt a more := by
  simp [namesAt]

lemma offer_get? (t : NameTable) (a : Address) (name : Name) :
    offer (t.get? a) name = if t.accepts a name then some name else t.get? a := by
  rw [accepts]
  cases t.get? a with
  | none => rfl
  | some best => simp [offer]

lemma get?_insert (t : NameTable) (a b : Address) (name : Name) :
    (t.insert b name).get? a = if b = a then offer (t.get? a) name else t.get? a := by
  have hput : (⟨t.names.insert b name⟩ : NameTable).get? a =
      if b = a then some name else t.get? a := by
    simp [get?, Std.TreeMap.getElem?_insert]
  by_cases hab : b = a
  · subst hab
    rw [if_pos rfl, offer_get?, insert]
    split
    · simpa using hput
    · rfl
  · rw [if_neg hab, insert]
    split
    · simpa [hab] using hput
    · rfl

/-- **At one address, filling the table is offering the names of that address.** -/
lemma get?_foldl_insert (t : NameTable) (entries : List (Address × Name)) (a : Address) :
    (entries.foldl (fun t e => t.insert e.1 e.2) t).get? a =
      (namesAt a entries).foldl offer (t.get? a) := by
  induction entries generalizing t with
  | nil => rfl
  | cons e rest ih =>
    rw [List.foldl_cons, ih, get?_insert]
    by_cases hea : e.1 = a <;> simp [namesAt, hea]

/-! ## The candidates for the name of an address -/

/-- The names that a relation offers for its target. -/
def givenNames (m : ByteMap) (r : CrossReference) : List Name :=
  (if r.cls = .call ∧ (m.marks r.target).start = true then [Name.madeUp .function r.target] else [])
    ++ (if (r.cls = .jump ∨ r.cls = .branch ∨ r.cls = .tableEntry ∨ r.cls = .immediate) ∧
        (m.marks r.target).start = true then [Name.madeUp .label r.target] else [])
    ++ (if r.cls = .jumpTable then [Name.madeUp .table r.target] else [])
    ++ (if r.cls = .data then [Name.madeUp .data r.target] else [])

/-- A stretch of pointers of one kind begins at the address: the byte in front is not covered or
reads otherwise. -/
def StartsTable (m : ByteMap) (a : Address) : Prop :=
  m.contains a = true ∧ m.dataClass a = .pointerTable ∧
    ¬ (m.contains (a - 1) = true ∧ m.reading (a - 1) = m.reading a)

instance (m : ByteMap) (a : Address) : Decidable (StartsTable m a) :=
  inferInstanceAs (Decidable (_ ∧ _ ∧ _))

/-- **The candidates for the name of an address**, in the order of the sources, when the relations
are visited in the given order. -/
def candidatesFor (image : Image) (m : ByteMap) (relations : List CrossReference) (a : Address) :
    List Name :=
  (if image.entryPoint = a then [⟨"entry", .entry⟩] else [])
    ++ (image.layout.exports.filter fun e => image.address e.rva = a).map
        (fun e => ⟨e.name, .exported⟩)
    ++ (image.layout.imports.filter fun i => image.address i.slot = a).map
        (fun i => ⟨i.library ++ "!" ++ i.name, .imported⟩)
    ++ (relations.filter fun r => r.target = a).flatMap (givenNames m)
    ++ (if StartsTable m a then [Name.madeUp .table a] else [])

/-- What the relations name, in the given order. -/
def given (m : ByteMap) (relations : List CrossReference) : List (Address × Name) :=
  relations.filterMap fun r => (kindOf? m r).map fun kind => (r.target, Name.madeUp kind r.target)

/-- A relation offers a name of the kind that it gives. -/
lemma givenNames_eq (m : ByteMap) (r : CrossReference) :
    givenNames m r = ((kindOf? m r).map fun kind => Name.madeUp kind r.target).toList := by
  rw [givenNames, kindOf?]
  by_cases hnamed : r.cls ∈ [.call, .jump, .branch, .tableEntry, .immediate, .jumpTable, .data]
  · -- for each class all conditions but the start of an instruction are closed
    generalize (m.marks r.target).start = start
    simp only [List.mem_cons, List.not_mem_nil, or_false] at hnamed
    rcases hnamed with h | h | h | h | h | h | h <;> rw [h] <;> cases start <;> rfl
  · simp only [List.mem_cons, List.not_mem_nil, or_false, not_or] at hnamed
    simp [hnamed]

lemma namesAt_given (m : ByteMap) (relations : List CrossReference) (a : Address) :
    namesAt a (given m relations) = (relations.filter fun r => r.target = a).flatMap
      (givenNames m) := by
  induction relations with
  | nil => rfl
  | cons r rest ih =>
    have hcons : given m (r :: rest) =
        ((kindOf? m r).map fun kind => (r.target, Name.madeUp kind r.target)).toList ++
          given m rest := by
      cases hkind : kindOf? m r <;> simp [given, hkind]
    rw [hcons, namesAt_append, ih]
    by_cases htarget : r.target = a
    · rw [List.filter_cons_of_pos (by simpa using htarget), List.flatMap_cons, givenNames_eq]
      cases kindOf? m r <;> simp [namesAt, htarget]
    · rw [List.filter_cons_of_neg (by simpa using htarget)]
      cases kindOf? m r <;> simp [namesAt, htarget]

/-- The starts of the runs of pointers. -/
def tables (m : ByteMap) : List (Address × Name) :=
  (m.runs.filter fun run => run.value.dataClass == .pointerTable).map fun run =>
    (run.span.start, Name.madeUp .table run.span.start)

/-- A run of pointers begins where the byte in front does not read alike. -/
lemma exists_table_iff {m : ByteMap} {a : Address} :
    (∃ r ∈ m.runs, r.span.start = a ∧ r.value.dataClass = .pointerTable) ↔ StartsTable m a := by
  constructor
  · rintro ⟨r, hr, hstart, hclass⟩
    obtain ⟨⟨hcontains, hreading⟩, hfront⟩ := ByteMap.exists_start_eq_iff.mp ⟨r, hr, hstart, rfl⟩
    rw [← hreading] at hclass hfront
    exact ⟨hcontains, hclass, hfront⟩
  · rintro ⟨hcontains, hclass, hfront⟩
    obtain ⟨r, hr, hstart, hvalue⟩ := ByteMap.exists_start_eq_iff.mpr ⟨⟨hcontains, rfl⟩, hfront⟩
    exact ⟨r, hr, hstart, by rw [hvalue]; exact hclass⟩

/-- The runs of pointers that begin at the address. -/
def tablesAt (m : ByteMap) (a : Address) : List (Run RunClass) :=
  m.runs.filter fun r => decide (r.span.start = a) && r.value.dataClass == .pointerTable

lemma mem_tablesAt_iff {m : ByteMap} {a : Address} {r : Run RunClass} :
    r ∈ tablesAt m a ↔ r ∈ m.runs ∧ r.span.start = a ∧ r.value.dataClass = .pointerTable := by
  simp [tablesAt]

lemma namesAt_tables (m : ByteMap) (a : Address) :
    namesAt a (tables m) = if StartsTable m a then [Name.madeUp .table a] else [] := by
  have hnames : namesAt a (tables m) = (tablesAt m a).map
      fun r => Name.madeUp .table r.span.start := by
    rw [namesAt, tables, List.filter_map, List.filter_filter, List.map_map]
    rfl
  have hascending : (tablesAt m a).Pairwise fun r q => r.span.start < q.span.start :=
    m.coalesces_runs.ascending.filter _
  rw [hnames]
  match here : tablesAt m a with
  | [] =>
    rw [if_neg fun hstarts => ?_, List.map_nil]
    obtain ⟨r, hr⟩ := exists_table_iff.mpr hstarts
    exact List.ne_nil_of_mem (mem_tablesAt_iff.mpr hr) here
  | [r] =>
    obtain ⟨hr, hstart, hclass⟩ := mem_tablesAt_iff.mp (here ▸ List.mem_cons_self)
    rw [if_pos (exists_table_iff.mp ⟨r, hr, hstart, hclass⟩), List.map_singleton, hstart]
  | r :: q :: _ =>
    -- two runs do not begin at one address
    have hstart : ∀ s ∈ tablesAt m a, s.span.start = a := fun s hs => (mem_tablesAt_iff.mp hs).2.1
    rw [here] at hascending hstart
    have hlt := (List.pairwise_cons.mp hascending).1 q List.mem_cons_self
    rw [hstart r (by simp), hstart q (by simp)] at hlt
    exact absurd hlt (UInt32.lt_irrefl a)

/-- What the image itself names: its entry point, its exports and its imports. -/
def fixed (image : Image) : List (Address × Name) :=
  [(image.entryPoint, ⟨"entry", .entry⟩)]
    ++ (image.layout.exports.map fun e => (image.address e.rva, ⟨e.name, .exported⟩))
    ++ (image.layout.imports.map
        fun i => (image.address i.slot, ⟨i.library ++ "!" ++ i.name, .imported⟩))

/-- The names of an image as classified, when the relations are visited in the given order. -/
def buildVisiting (image : Image) (m : ByteMap) (relations : List CrossReference) : NameTable :=
  (fixed image ++ given m relations ++ tables m).foldl (fun t e => t.insert e.1 e.2) empty

lemma build_eq (image : Image) (m : ByteMap) (index : ReferenceIndex) :
    build image m index = buildVisiting image m index.forward := rfl

lemma namesAt_fixed (image : Image) (a : Address) : namesAt a (fixed image) =
    (if image.entryPoint = a then [⟨"entry", .entry⟩] else [])
      ++ (image.layout.exports.filter fun e => image.address e.rva = a).map
          (fun e => ⟨e.name, .exported⟩)
      ++ (image.layout.imports.filter fun i => image.address i.slot = a).map
          (fun i => ⟨i.library ++ "!" ++ i.name, .imported⟩) := by
  rw [fixed, namesAt_append, namesAt_append]
  by_cases hentry : image.entryPoint = a <;>
    simp [namesAt, hentry, List.filter_map, Function.comp_def]

/-- **The table offers every address its candidates.** -/
lemma get?_buildVisiting (image : Image) (m : ByteMap) (relations : List CrossReference)
    (a : Address) :
    (buildVisiting image m relations).get? a =
      (candidatesFor image m relations a).foldl offer none := by
  have hempty : empty.get? a = none := by simp [get?, empty]
  rw [buildVisiting, get?_foldl_insert, hempty, namesAt_append, namesAt_append,
    namesAt_fixed, namesAt_given, namesAt_tables, candidatesFor]

/-! ## The order of the relations -/

lemma rank_inj {k l : NameKind} (h : k.rank = l.rank) : k = l := by
  revert h
  cases k <;> cases l <;> decide

lemma offer_comm {best : Option Name} {x y : Name} (h : x.kind.rank = y.kind.rank → x = y) :
    offer (offer best x) y = offer (offer best y) x := by
  cases best <;> grind [offer]

lemma exists_of_mem_givenNames {m : ByteMap} {r : CrossReference} {name : Name}
    (h : name ∈ givenNames m r) : name = Name.madeUp name.kind r.target := by
  rw [givenNames_eq, Option.mem_toList, Option.map_eq_some_iff] at h
  obtain ⟨kind, -, rfl⟩ := h
  rfl

/-- In whatever order the relations are visited, the same name is left. -/
lemma foldl_offer_candidatesFor {image : Image} {m : ByteMap}
    {relations others : List CrossReference} (h : relations.Perm others) (a : Address) :
    (candidatesFor image m relations a).foldl offer none =
      (candidatesFor image m others a).foldl offer none := by
  have hmade : ∀ name ∈ (relations.filter fun r => r.target = a).flatMap (givenNames m),
      name = Name.madeUp name.kind a := by
    intro name hname
    obtain ⟨r, hr, hgiven⟩ := List.mem_flatMap.mp hname
    have htarget : r.target = a := by simpa using (List.mem_filter.mp hr).2
    rw [← htarget]
    exact exists_of_mem_givenNames hgiven
  have hperm := (h.filter fun r => r.target = a).flatMap_right (givenNames m)
  simp only [candidatesFor, List.foldl_append]
  congr 1
  apply hperm.foldl_eq'
  intro x hx y hy best
  apply offer_comm
  intro hrank
  rw [hmade x hx, hmade y hy, rank_inj hrank]

/-- **Every address has its strongest name.**  Whatever the order in which the relations are
visited, the table names an address exactly if there is a candidate for it, and the name is the
first candidate of the strongest kind. -/
theorem names_are_strongest (image : Image) (m : ByteMap) (index : ReferenceIndex)
    {relations : List CrossReference} (h : relations.Perm index.forward) (a : Address) :
    (buildVisiting image m relations).get? a = (build image m index).get? a ∧
    ((build image m index).get? a = none ↔ candidatesFor image m relations a = []) ∧
    ∀ name, (build image m index).get? a = some name ↔
      Strongest (candidatesFor image m relations a) name := by
  have hget : (build image m index).get? a =
      (candidatesFor image m relations a).foldl offer none := by
    rw [build_eq, get?_buildVisiting, foldl_offer_candidatesFor h]
  rw [hget]
  exact ⟨get?_buildVisiting image m relations a, foldl_offer_eq_none_iff,
    fun _ => foldl_offer_eq_some_iff⟩

/-- A function that is read as data, jumped to and called has the name of a function, although the
other relations come first. -/
theorem names_are_strongest_called :
    let image : Image := ⟨Layout.flat 0x400000 0x1000 0x20, []⟩
    let m := (ByteMap.ofSpans [⟨0x401000, 0x401020⟩]).mark 0x401008 { start := true }
    let index := ((ReferenceIndex.empty.insert ⟨.call, 0x401000, 0x401008⟩).insert
      ⟨.jump, 0x401001, 0x401008⟩).insert ⟨.data, 0x401002, 0x401008⟩
    index.forward.reverse.Perm index.forward ∧
      candidatesFor image m index.forward.reverse 0x401008 =
        [Name.madeUp .data 0x401008, Name.madeUp .label 0x401008, Name.madeUp .function 0x401008] ∧
      (build image m index).get? 0x401008 = some (Name.madeUp .function 0x401008) := by
  intro image m index
  have hcandidates : candidatesFor image m index.forward.reverse 0x401008 =
      [Name.madeUp .data 0x401008, Name.madeUp .label 0x401008,
        Name.madeUp .function 0x401008] := by
    decide +kernel
  have hperm : index.forward.reverse.Perm index.forward := List.reverse_perm _
  obtain ⟨-, -, hname⟩ := names_are_strongest image m index hperm 0x401008
  refine ⟨hperm, hcandidates, (hname _).mpr ?_⟩
  rw [hcandidates]
  exact ⟨[Name.madeUp .data 0x401008, Name.madeUp .label 0x401008], [], rfl,
    by simp [Name.madeUp, NameKind.rank], by simp⟩

end NameTable

end CodeSift
