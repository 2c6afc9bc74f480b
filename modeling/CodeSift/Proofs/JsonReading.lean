import CodeSift.Proofs.JsonLexemes

/-!
# Reading JSON documents

The reader takes exactly the texts of the grammar, as what they stand for (`strict_parse?`).  Both
directions are inductions on the fuel: a text of the grammar is read if the fuel is at least twice
its length (`readsAll`), which the bound of the reader always is, and whatever is read is a text of
the grammar (`readsOnly`).

An object at the top of a text can also be read with its keys as they are written
(`parseTopLevel?_of_objectText`).
-/

namespace CodeSift.Json

/-! ## White space -/

lemma isBlank_iff {c : Char} : isBlank c = true ↔ c = ' ' ∨ c = '\t' ∨ c = '\n' ∨ c = '\r' := by
  simp [isBlank, or_assoc]

@[simp] lemma skipBlanks_cons_of_not_blank {c : Char} (h : isBlank c = false) (text : List Char) :
    skipBlanks (c :: text) = c :: text := by
  simp [skipBlanks, h]

lemma skipBlanks_append {blank : List Char} (h : Blank blank) (text : List Char) :
    skipBlanks (blank ++ text) = skipBlanks text := by
  induction blank with
  | nil => rfl
  | cons c rest ih =>
    obtain ⟨hc, hrest⟩ := List.forall_mem_cons.mp h
    simp [skipBlanks, isBlank_iff.mpr hc, ih hrest]

lemma exists_blank_skipBlanks (text : List Char) :
    ∃ blank, Blank blank ∧ text = blank ++ skipBlanks text := by
  induction text with
  | nil => exact ⟨[], blank_nil, rfl⟩
  | cons c rest ih =>
    obtain ⟨blank, hblank, hrest⟩ := ih
    rw [skipBlanks]
    split
    · next hc =>
      have hfront : Blank (c :: blank) := List.forall_mem_cons.mpr ⟨isBlank_iff.mp hc, hblank⟩
      exact ⟨c :: blank, hfront, by rw [List.cons_append, ← hrest]⟩
    · exact ⟨[], blank_nil, rfl⟩

@[simp] lemma skipBlanks_skipBlanks (text : List Char) :
    skipBlanks (skipBlanks text) = skipBlanks text := by
  obtain ⟨blank, hblank, htext⟩ := exists_blank_skipBlanks text
  conv_rhs => rw [htext, skipBlanks_append hblank]

/-! ## Documents -/

lemma eq_append_of_expect? {expected text rest : List Char}
    (h : expect? expected text = some rest) : text = expected ++ rest := by
  fun_induction expect? expected text with
  | case1 => simpa using h
  | case2 => cases h
  | case3 c more text ih => rw [ih h, List.cons_append]
  | case4 => cases h

section Blanks

attribute [local simp] readValue? readElements? readMembers?

/-- White space in front of a value does not matter. -/
lemma readValue?_skipBlanks (fuel : Nat) (text : List Char) :
    readValue? fuel (skipBlanks text) = readValue? fuel text := by
  cases fuel <;> simp

lemma readElements?_skipBlanks (fuel : Nat) (text : List Char) :
    readElements? fuel (skipBlanks text) = readElements? fuel text := by
  cases fuel <;> simp [readValue?_skipBlanks]

lemma readMembers?_skipBlanks (fuel : Nat) (text : List Char) :
    readMembers? fuel (skipBlanks text) = readMembers? fuel text := by
  cases fuel <;> simp

end Blanks

/-- What a number begins with. -/
lemma NumberOf.exists_cons {written : List Char} {x : Json} (h : NumberOf written x) :
    ∃ c rest, written = c :: rest ∧ (c = '-' ∨ c.isDigit = true) := by
  obtain ⟨negative, digits, fraction, exponent, ⟨⟨hsome, hdigit⟩, -⟩, -, -, rfl, -⟩ :=
    h.exists_parts
  obtain ⟨d, others, rfl⟩ := List.exists_cons_of_ne_nil hsome
  cases negative with
  | true => exact ⟨'-', _, rfl, .inl rfl⟩
  | false => exact ⟨d, _, rfl, .inr (hdigit d List.mem_cons_self)⟩

/-- **Where a value begins**, there is no white space and no closing bracket. -/
lemma ValueOf.exists_cons {halves : Prop} {written : List Char} {x : Json}
    (h : ValueOf halves written x) :
    ∃ c rest, written = c :: rest ∧ isBlank c = false ∧ c ≠ ']' := by
  cases h with
  | number hnumber =>
    obtain ⟨c, rest, rfl, rfl | hdigit⟩ := hnumber.exists_cons
    · exact ⟨_, _, rfl, by decide, by decide⟩
    · refine ⟨c, rest, rfl, ?_, by rintro rfl; cases hdigit⟩
      rw [Bool.eq_false_iff]
      intro hblank
      rcases isBlank_iff.mp hblank with rfl | rfl | rfl | rfl <;> cases hdigit
  | string hliteral =>
    obtain ⟨body, rfl, -⟩ := readString?_append hliteral
    exact ⟨_, _, rfl, by decide, by decide⟩
  | _ => exact ⟨_, _, rfl, by decide, by decide⟩

/-! ### What a value begins with decides how it is read -/

section Dispatch

variable {fuel : Nat} {text rest last : List Char}

lemma readValue?_emptyArray (h : skipBlanks text = '[' :: rest)
    (hclose : skipBlanks rest = ']' :: last) :
    readValue? (fuel + 1) text = some (.array [], last) := by
  simp only [readValue?, h, hclose]

lemma readValue?_array (h : skipBlanks text = '[' :: rest)
    (hsome : ∀ last, skipBlanks rest ≠ ']' :: last) :
    readValue? (fuel + 1) text = (readElements? fuel rest).map fun r => (.array r.1, r.2) := by
  simp only [readValue?, h, readElements?_skipBlanks]

lemma readValue?_emptyObject (h : skipBlanks text = '{' :: rest)
    (hclose : skipBlanks rest = '}' :: last) :
    readValue? (fuel + 1) text = some (.object [], last) := by
  simp only [readValue?, h, hclose]

lemma readValue?_object (h : skipBlanks text = '{' :: rest)
    (hsome : ∀ last, skipBlanks rest ≠ '}' :: last) :
    readValue? (fuel + 1) text =
      (readMembers? fuel rest).map fun r => (.object (r.1.map fun m => (m.1.text, m.2)), r.2) := by
  simp only [readValue?, h, readMembers?_skipBlanks]

lemma readValue?_string (h : skipBlanks text = '"' :: rest) :
    readValue? (fuel + 1) text = (readString? rest).map fun r => (.string r.1.text, r.2) := by
  simp only [readValue?, h]

lemma readValue?_number {c : Char} (h : skipBlanks text = c :: rest)
    (hc : c = '-' ∨ c.isDigit = true) : readValue? (fuel + 1) text = readNumber? (c :: rest) := by
  have hother {d : Char} (hd : d.isDigit = false) (hminus : d ≠ '-') : c ≠ d := by
    rintro rfl
    simp_all
  simp only [readValue?, h]
  split <;> simp_all

end Dispatch

/-! ### Every text of the grammar is read -/

lemma Ended.blank_append {blank rest : List Char} (hblank : Blank blank) (h : Ended rest) :
    Ended (blank ++ rest) := by
  cases blank with
  | nil => exact h
  | cons c others =>
    rintro d hd
    obtain rfl : c = d := by simpa using hd
    rcases hblank c List.mem_cons_self with rfl | rfl | rfl | rfl <;> decide

lemma ended_separator {c : Char} (hc : c = ',' ∨ c = ']' ∨ c = '}') (rest : List Char) :
    Ended (c :: rest) := by
  rintro d hd
  obtain rfl : c = d := by simpa using hd
  rcases hc with rfl | rfl | rfl <;> decide

variable {halves : Prop} {fuel : Nat}

lemma skipBlanks_value {front written : List Char} {x : Json} (hfront : Blank front)
    (h : ValueOf halves written x) (rest : List Char) :
    skipBlanks (front ++ (written ++ rest)) = written ++ rest := by
  obtain ⟨c, more, rfl, hblank, -⟩ := h.exists_cons
  simp [skipBlanks_append hfront, hblank]

lemma TextOf.skipBlanks_ne {written : List Char} {x : Json} (h : TextOf halves written x)
    (rest last : List Char) : skipBlanks (written ++ rest) ≠ ']' :: last := by
  cases h with
  | @mk front written back x hfront hvalue _ =>
    rw [List.append_assoc, List.append_assoc, skipBlanks_value hfront hvalue]
    obtain ⟨c, more, rfl, -, hclose⟩ := hvalue.exists_cons
    simp [hclose]

lemma ElementsOf.skipBlanks_ne {written : List Char} {xs : List Json}
    (h : ElementsOf halves written xs) (hsome : xs ≠ []) (rest last : List Char) :
    skipBlanks (written ++ rest) ≠ ']' :: last := by
  cases h with
  | none => exact absurd rfl hsome
  | last htext => exact htext.skipBlanks_ne rest last
  | more htext _ => simpa using htext.skipBlanks_ne (',' :: (_ ++ rest)) last

lemma KeyOf.skipBlanks {name : List Char} {key : StringLiteral} (h : KeyOf halves name key) :
    ∃ body back,
      Blank back ∧ (∀ rest, skipBlanks (name ++ rest) = '"' :: (body ++ (back ++ rest))) ∧
      ∀ rest, readString? (body ++ rest) = some (key, rest) := by
  cases h with
  | @mk front written back key hfront hliteral hback =>
    obtain ⟨body, rfl, hread⟩ := readString?_append hliteral
    refine ⟨body, back, hback, fun rest => ?_, hread⟩
    have hquote : isBlank '"' = false := by decide
    simp [skipBlanks_append hfront, hquote]

lemma MembersOf.skipBlanks_ne {written : List Char} {ms : List (StringLiteral × Json)}
    (h : MembersOf halves written ms) (hsome : ms ≠ []) (rest last : List Char) :
    skipBlanks (written ++ rest) ≠ '}' :: last := by
  cases h with
  | none => exact absurd rfl hsome
  | last hkey _ =>
    obtain ⟨body, back, -, hskip, -⟩ := hkey.skipBlanks
    simp [hskip]
  | more hkey _ _ =>
    obtain ⟨body, back, -, hskip, -⟩ := hkey.skipBlanks
    simp [hskip]

/-- The texts of the grammar are read, if there is fuel for their length. -/
structure ReadsAll (halves : Prop) (fuel : Nat) : Prop where
  value : ∀ {text written rest : List Char} {x : Json}, ValueOf halves written x →
    skipBlanks text = written ++ rest →
    Ended rest → 2 * written.length ≤ fuel → readValue? fuel text = some (x, rest)
  elements : ∀ {written : List Char} {xs : List Json}, ElementsOf halves written xs → xs ≠ [] →
    2 * written.length + 1 ≤ fuel → ∀ rest,
    readElements? fuel (written ++ ']' :: rest) = some (xs, rest)
  members : ∀ {written : List Char} {ms : List (StringLiteral × Json)},
    MembersOf halves written ms → ms ≠ [] →
    2 * written.length + 1 ≤ fuel → ∀ rest,
    readMembers? fuel (written ++ '}' :: rest) = some (ms, rest)

/-- A text is read up to the white space behind its value. -/
lemma ReadsAll.text (h : ReadsAll halves fuel) {written rest : List Char} {x : Json}
    (hwritten : TextOf halves written x) (hrest : Ended rest) (hfuel : 2 * written.length ≤ fuel) :
    ∃ back, Blank back ∧ readValue? fuel (written ++ rest) = some (x, back ++ rest) := by
  cases hwritten with
  | @mk front written back x hfront hvalue hback =>
    refine ⟨back, hback, ?_⟩
    rw [List.append_assoc, List.append_assoc]
    exact h.value hvalue (skipBlanks_value hfront hvalue _) (hrest.blank_append hback) (by grind)

lemma ReadsAll.value_succ (h : ReadsAll halves fuel) {text written rest : List Char} {x : Json}
    (hvalue : ValueOf halves written x) (hskip : skipBlanks text = written ++ rest)
    (hrest : Ended rest) (hfuel : 2 * written.length ≤ fuel + 1) :
    readValue? (fuel + 1) text = some (x, rest) := by
  cases hvalue with
  | null => simp [readValue?, hskip, expect?]
  | truth => simp [readValue?, hskip, expect?]
  | falsity => simp [readValue?, hskip, expect?]
  | number hnumber =>
    rw [← readNumber?_append hnumber hrest]
    obtain ⟨c, more, rfl, hc⟩ := hnumber.exists_cons
    exact readValue?_number hskip hc
  | string hliteral =>
    obtain ⟨body, rfl, hread⟩ := readString?_append hliteral
    rw [List.cons_append] at hskip
    rw [readValue?_string hskip, hread]
    rfl
  | @array inner xs helements =>
    have hopen : skipBlanks text = '[' :: (inner ++ ']' :: rest) := by simpa using hskip
    by_cases hsome : xs = []
    · subst hsome
      cases helements with
      | none hblank =>
        exact readValue?_emptyArray hopen (by rw [skipBlanks_append hblank]; rfl)
    · rw [readValue?_array hopen (helements.skipBlanks_ne hsome _),
        h.elements helements hsome (by grind)]
      rfl
  | @object inner ms hmembers =>
    have hopen : skipBlanks text = '{' :: (inner ++ '}' :: rest) := by simpa using hskip
    by_cases hsome : ms = []
    · subst hsome
      cases hmembers with
      | none hblank =>
        exact readValue?_emptyObject hopen (by rw [skipBlanks_append hblank]; rfl)
    · rw [readValue?_object hopen (hmembers.skipBlanks_ne hsome _),
        h.members hmembers hsome (by grind)]
      rfl

lemma ReadsAll.elements_succ (h : ReadsAll halves fuel) {written : List Char} {xs : List Json}
    (helements : ElementsOf halves written xs) (hsome : xs ≠ [])
    (hfuel : 2 * written.length + 1 ≤ fuel + 1) (rest : List Char) :
    readElements? (fuel + 1) (written ++ ']' :: rest) = some (xs, rest) := by
  cases helements with
  | none => exact absurd rfl hsome
  | last htext =>
    obtain ⟨back, hback, hread⟩ := h.text htext (ended_separator (.inr (.inl rfl)) rest) (by omega)
    have hclose : skipBlanks (back ++ ']' :: rest) = ']' :: rest := by
      rw [skipBlanks_append hback]
      rfl
    simp [readElements?, hread, hclose]
  | @more written others x y ys htext hmore =>
    obtain ⟨back, hback, hread⟩ :=
      h.text htext (ended_separator (.inl rfl) (others ++ ']' :: rest)) (by grind)
    have hcomma : skipBlanks (back ++ ',' :: (others ++ ']' :: rest)) =
        ',' :: (others ++ ']' :: rest) := by
      rw [skipBlanks_append hback]; rfl
    have hrest := h.elements hmore (by simp) (by grind) rest
    simp [readElements?, hread, hcomma, hrest]

lemma ReadsAll.members_succ (h : ReadsAll halves fuel) {written : List Char}
    {ms : List (StringLiteral × Json)} (hmembers : MembersOf halves written ms) (hsome : ms ≠ [])
    (hfuel : 2 * written.length + 1 ≤ fuel + 1) (rest : List Char) :
    readMembers? (fuel + 1) (written ++ '}' :: rest) = some (ms, rest) := by
  have hcolon {back : List Char} (hback : Blank back) (behind : List Char) :
      skipBlanks (back ++ ':' :: behind) = ':' :: behind := by rw [skipBlanks_append hback]; rfl
  cases hmembers with
  | none => exact absurd rfl hsome
  | last hkey htext =>
    obtain ⟨body, between, hbetween, hskip, hname⟩ := hkey.skipBlanks
    obtain ⟨back, hback, hread⟩ := h.text htext (ended_separator (.inr (.inr rfl)) rest) (by grind)
    have hclose : skipBlanks (back ++ '}' :: rest) = '}' :: rest := by
      rw [skipBlanks_append hback]
      rfl
    simp [readMembers?, hskip, hname, hcolon hbetween, hread, hclose]
  | @more name written others key x m ms hkey htext hmore =>
    obtain ⟨body, between, hbetween, hskip, hname⟩ := hkey.skipBlanks
    obtain ⟨back, hback, hread⟩ :=
      h.text htext (ended_separator (.inl rfl) (others ++ '}' :: rest)) (by grind)
    have hcomma : skipBlanks (back ++ ',' :: (others ++ '}' :: rest)) =
        ',' :: (others ++ '}' :: rest) := by
      rw [skipBlanks_append hback]; rfl
    have hrest := h.members hmore (by simp) (by grind) rest
    simp [readMembers?, hskip, hname, hcolon hbetween, hread, hcomma, hrest]

/-- **Every text of the grammar is read.**  The induction is on the fuel, which bounds the length of
the text. -/
lemma readsAll (halves : Prop) (fuel : Nat) : ReadsAll halves fuel := by
  induction fuel with
  | zero =>
    refine ⟨fun hvalue _ _ hfuel => ?_, fun _ _ hfuel => ?_, fun _ _ hfuel => ?_⟩
    · obtain ⟨c, more, rfl, -⟩ := hvalue.exists_cons
      simp at hfuel
    · simp at hfuel
    · simp at hfuel
  | succ fuel ih => exact ⟨ih.value_succ, ih.elements_succ, ih.members_succ⟩

/-! ### Nothing else is read -/

/-- What is read are texts of the grammar. -/
structure ReadsOnly (fuel : Nat) : Prop where
  value : ∀ {text rest : List Char} {x : Json}, readValue? fuel text = some (x, rest) →
    ∃ written, ValueOf True written x ∧ skipBlanks text = written ++ rest
  elements : ∀ {text rest : List Char} {xs : List Json}, readElements? fuel text = some (xs, rest) →
    ∃ written, ElementsOf True written xs ∧ xs ≠ [] ∧ text = written ++ ']' :: rest
  members : ∀ {text rest : List Char} {ms : List (StringLiteral × Json)},
    readMembers? fuel text = some (ms, rest) →
    ∃ written, MembersOf True written ms ∧ ms ≠ [] ∧ text = written ++ '}' :: rest

/-- The white space around a value is part of its text. -/
lemma ReadsOnly.text (h : ReadsOnly fuel) {text rest : List Char} {x : Json}
    (hread : readValue? fuel text = some (x, rest)) :
    ∃ written, TextOf True written x ∧ text = written ++ skipBlanks rest := by
  obtain ⟨written, hvalue, hskip⟩ := h.value hread
  obtain ⟨front, hfront, htext⟩ := exists_blank_skipBlanks text
  obtain ⟨back, hback, hrest⟩ := exists_blank_skipBlanks rest
  refine ⟨_, .mk hfront hvalue hback, ?_⟩
  rw [List.append_assoc, List.append_assoc, ← hrest, ← hskip, ← htext]

lemma ReadsOnly.value_succ (h : ReadsOnly fuel) {text rest : List Char} {x : Json}
    (hread : readValue? (fuel + 1) text = some (x, rest)) :
    ∃ written, ValueOf True written x ∧ skipBlanks text = written ++ rest := by
  rw [readValue?] at hread
  split at hread
  · cases hread
  · next inner hskip =>
    obtain ⟨blank, hblank, hinner⟩ := exists_blank_skipBlanks inner
    split at hread
    · next last hclose =>
      cases hread
      rw [hclose] at hinner
      exact ⟨_, .array (.none hblank), by simp [hskip, hinner]⟩
    · obtain ⟨⟨xs, last⟩, helements, heq⟩ := Option.map_eq_some_iff.mp hread
      cases heq
      rw [readElements?_skipBlanks] at helements
      obtain ⟨written, hwritten, -, rfl⟩ := h.elements helements
      exact ⟨_, .array hwritten, by simp [hskip]⟩
  · next inner hskip =>
    obtain ⟨blank, hblank, hinner⟩ := exists_blank_skipBlanks inner
    split at hread
    · next last hclose =>
      cases hread
      rw [hclose] at hinner
      exact ⟨_, .object (.none hblank), by simp [hskip, hinner]⟩
    · obtain ⟨⟨ms, last⟩, hmembers, heq⟩ := Option.map_eq_some_iff.mp hread
      cases heq
      rw [readMembers?_skipBlanks] at hmembers
      obtain ⟨written, hwritten, -, rfl⟩ := h.members hmembers
      exact ⟨_, .object hwritten, by simp [hskip]⟩
  · next inner hskip =>
    obtain ⟨⟨s, last⟩, hstring, heq⟩ := Option.map_eq_some_iff.mp hread
    cases heq
    obtain ⟨written, hwritten, heq⟩ := literalOf_of_readString? hstring
    exact ⟨written, .string hwritten, hskip.trans heq⟩
  · next inner hskip =>
    obtain ⟨last, hword, heq⟩ := Option.map_eq_some_iff.mp hread
    cases heq
    exact ⟨_, .null, by rw [hskip, eq_append_of_expect? hword]; rfl⟩
  · next inner hskip =>
    obtain ⟨last, hword, heq⟩ := Option.map_eq_some_iff.mp hread
    cases heq
    exact ⟨_, .truth, by rw [hskip, eq_append_of_expect? hword]; rfl⟩
  · next inner hskip =>
    obtain ⟨last, hword, heq⟩ := Option.map_eq_some_iff.mp hread
    cases heq
    exact ⟨_, .falsity, by rw [hskip, eq_append_of_expect? hword]; rfl⟩
  · obtain ⟨written, hnumber, heq⟩ := numberOf_of_readNumber? hread
    exact ⟨written, .number hnumber, heq⟩

lemma ReadsOnly.elements_succ (h : ReadsOnly fuel) {text rest : List Char} {xs : List Json}
    (hread : readElements? (fuel + 1) text = some (xs, rest)) :
    ∃ written, ElementsOf True written xs ∧ xs ≠ [] ∧ text = written ++ ']' :: rest := by
  rw [readElements?] at hread
  split at hread
  · cases hread
  · next x behind hvalue =>
    obtain ⟨written, htext, rfl⟩ := h.text hvalue
    split at hread
    · next more hcomma =>
      obtain ⟨⟨ys, last⟩, helements, heq⟩ := Option.map_eq_some_iff.mp hread
      cases heq
      obtain ⟨others, hothers, hsome, rfl⟩ := h.elements helements
      obtain ⟨y, ys, rfl⟩ := List.exists_cons_of_ne_nil hsome
      exact ⟨_, .more htext hothers, by simp, by simp [hcomma]⟩
    · next more hclose =>
      cases hread
      exact ⟨_, .last htext, by simp, by rw [hclose]⟩
    · cases hread

lemma ReadsOnly.members_succ (h : ReadsOnly fuel) {text rest : List Char}
    {ms : List (StringLiteral × Json)} (hread : readMembers? (fuel + 1) text = some (ms, rest)) :
    ∃ written, MembersOf True written ms ∧ ms ≠ [] ∧ text = written ++ '}' :: rest := by
  rw [readMembers?] at hread
  split at hread
  · next quoted hquote =>
    split at hread
    · cases hread
    · next key between hstring =>
      split at hread
      · next behind hcolon =>
        have hkey : ∃ name, KeyOf True name key ∧ text = name ++ ':' :: behind := by
          obtain ⟨front, hfront, htext⟩ := exists_blank_skipBlanks text
          obtain ⟨back, hback, hbetween⟩ := exists_blank_skipBlanks between
          obtain ⟨written, hliteral, heq⟩ := literalOf_of_readString? hstring
          refine ⟨_, .mk hfront hliteral hback, ?_⟩
          rw [List.append_assoc, List.append_assoc, ← hcolon, ← hbetween, ← heq, ← hquote, ← htext]
        obtain ⟨name, hname, rfl⟩ := hkey
        split at hread
        · cases hread
        · next x last hvalue =>
          obtain ⟨written, htext, rfl⟩ := h.text hvalue
          split at hread
          · next more hcomma =>
            obtain ⟨⟨ns, final⟩, hmembers, heq⟩ := Option.map_eq_some_iff.mp hread
            cases heq
            obtain ⟨others, hothers, hsome, rfl⟩ := h.members hmembers
            obtain ⟨n, ns, rfl⟩ := List.exists_cons_of_ne_nil hsome
            exact ⟨_, .more hname htext hothers, by simp, by simp [hcomma]⟩
          · next more hclose =>
            cases hread
            exact ⟨_, .last hname htext, by simp, by simp [hclose]⟩
          · cases hread
      · cases hread
  · cases hread

/-- **Only texts of the grammar are read.** -/
lemma readsOnly (fuel : Nat) : ReadsOnly fuel := by
  induction fuel with
  | zero =>
    refine ⟨fun h => ?_, fun h => ?_, fun h => ?_⟩
    · cases h
    · cases h
    · cases h
  | succ fuel ih => exact ⟨ih.value_succ, ih.elements_succ, ih.members_succ⟩

/-! ### Whole texts -/

lemma isAtEnd_iff {text : List Char} : isAtEnd text = true ↔ Blank text := by
  rw [isAtEnd, List.isEmpty_iff]
  constructor
  · intro hnone
    obtain ⟨blank, hblank, htext⟩ := exists_blank_skipBlanks text
    rw [htext, hnone, List.append_nil]
    exact hblank
  · intro hblank
    simpa [skipBlanks] using skipBlanks_append hblank []

lemma ended_nil : Ended [] := by simp [Ended]

lemma parse?_of_textOf {text : String} {x : Json} (h : TextOf halves text.toList x) :
    parse? text = some x := by
  have hfuel : 2 * text.toList.length ≤ depthBound text.toList := by rw [depthBound]; omega
  obtain ⟨back, hback, hread⟩ := (readsAll halves (depthBound text.toList)).text h ended_nil hfuel
  rw [List.append_nil, List.append_nil] at hread
  simp [parse?, hread, isAtEnd_iff.mpr hback]

lemma textOf_of_parse? {text : String} {x : Json} (h : parse? text = some x) :
    TextOf True text.toList x := by
  simp only [parse?] at h
  split at h
  · next y rest hread =>
    split at h
    · next hend =>
      cases h
      obtain ⟨written, htext, heq⟩ := (readsOnly _).text hread
      rw [heq, List.isEmpty_iff.mp hend, List.append_nil]
      exact htext
    · cases h
  · cases h

/-- **The reader is strict.**  It reads every text of the strict grammar as what it stands for, and
no text outside the grammar.  Whether it reads a text that spells half a surrogate pair is left
open. -/
structure Strict (read : String → Option Json) : Prop where
  reads : ∀ {text : String} {x : Json}, TextOf False text.toList x → read text = some x
  refuses : ∀ {text : String} {x : Json}, read text = some x → TextOf True text.toList x

/-- **`parse?` is a strict reader.** -/
lemma strict_parse? : Strict parse? := ⟨parse?_of_textOf, textOf_of_parse?⟩

/-! ### Objects at the top of a text -/

/-- The text of an object with the given members. -/
inductive ObjectText (halves : Prop) : List Char → List (StringLiteral × Json) → Prop where
  | mk {front written back : List Char} {members : List (StringLiteral × Json)} : Blank front →
      MembersOf halves written members → Blank back →
      ObjectText halves (front ++ ('{' :: (written ++ ('}' :: back)))) members

/-- What is written for an object is a text of it. -/
lemma objectText_pretty {members : List (String × Json)} (h : ∀ m ∈ members, Proper m.2) :
    ObjectText halves (pretty (.object members)).toList
      (members.map fun m => (.ofText m.1, m.2)) := by
  have hinner := @membersOf_innerLines halves 0 members fun m hm => valueOf_lines (h m hm) 1
  simpa [pretty, lines_object] using ObjectText.mk blank_nil hinner blank_nil

/-- **An object at the top of a text is read with its keys as they are written.** -/
lemma parseTopLevel?_of_objectText {text : String} {members : List (StringLiteral × Json)}
    (h : ObjectText halves text.toList members) :
    parseTopLevel? text = some (.members members) := by
  generalize htext : text.toList = whole at h
  cases h with
  | @mk front inner back members hfront hmembers hback =>
    have hopen : skipBlanks text.toList = '{' :: (inner ++ '}' :: back) := by
      rw [htext, skipBlanks_append hfront]
      rfl
    by_cases hsome : members = []
    · subst hsome
      cases hmembers with
      | none hblank =>
        have hclose : skipBlanks (inner ++ '}' :: back) = '}' :: back := by
          rw [skipBlanks_append hblank]
          rfl
        simp [parseTopLevel?, hopen, hclose, isAtEnd_iff.mpr hback]
    · have hfuel : 2 * inner.length + 1 ≤ depthBound text.toList := by grind [depthBound]
      have hread := (readsAll halves _).members hmembers hsome hfuel back
      -- No closing brace comes first, so the reader takes the branch of the members.
      have hbrace := hmembers.skipBlanks_ne hsome ('}' :: back)
      simp [parseTopLevel?, hopen, readMembers?_skipBlanks, hread, isAtEnd_iff.mpr hback]

end CodeSift.Json
