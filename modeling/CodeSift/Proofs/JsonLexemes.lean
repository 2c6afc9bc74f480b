import CodeSift.Proofs.JsonGrammar
import Mathlib.Tactic.IntervalCases

/-!
# Reading the numbers and strings of JSON

For each kind of lexeme there are two lemmas: what the grammar has is read up to its end, and what
is read is in the grammar.  A number has no end of its own, so it is read only if nothing follows
that could be part of it (`Ended`).  A string literal is read in two steps, its units first
(`readUnits?`) and then the surrogate pairs among them (`joinPairs`).
-/

namespace CodeSift.Json

/-! ## Numbers -/

/-- Nothing comes next that could be part of a number. -/
def Ended (text : List Char) : Prop :=
  ∀ c ∈ text.head?, c.isDigit = false ∧ c ≠ '.' ∧ c ≠ 'e' ∧ c ≠ 'E'

lemma splitDigits_append {digits rest : List Char} (hdigits : ∀ c ∈ digits, c.isDigit = true)
    (hrest : ∀ c ∈ rest.head?, c.isDigit = false) :
    splitDigits (digits ++ rest) = (digits, rest) := by
  rw [splitDigits, List.takeWhile_append_of_pos hdigits, List.dropWhile_append_of_pos hdigits]
  cases rest with
  | nil => simp
  | cons c others => simp [hrest c rfl]

lemma splitDigits_spec (text : List Char) : text = (splitDigits text).1 ++ (splitDigits text).2 ∧
    ∀ c ∈ (splitDigits text).1, c.isDigit = true :=
  ⟨List.takeWhile_append_dropWhile.symm, List.all_eq_true.mp List.all_takeWhile⟩

lemma readFraction?_append {fraction rest : List Char} (h : Fraction fraction)
    (hrest : ∀ c ∈ rest.head?, c.isDigit = false ∧ c ≠ '.') :
    readFraction? (fraction ++ rest) = some (fraction, rest) := by
  cases h with
  | absent =>
    cases rest with
    | nil => rfl
    | cons c others => simp [readFraction?, (hrest c rfl).2]
  | @present digits hdigits =>
    obtain ⟨hsome, hdigit⟩ := hdigits
    obtain ⟨d, others, rfl⟩ := List.exists_cons_of_ne_nil hsome
    simp only [readFraction?, List.cons_append]
    rw [← List.cons_append, splitDigits_append hdigit fun c hc => (hrest c hc).1]

lemma fraction_of_readFraction? {text fraction rest : List Char}
    (h : readFraction? text = some (fraction, rest)) :
    Fraction fraction ∧ text = fraction ++ rest := by
  unfold readFraction? at h
  split at h
  · next more =>
    obtain ⟨hsplit, hdigit⟩ := splitDigits_spec more
    split at h
    · cases h
    · next digits others hsome hread =>
      obtain ⟨rfl, rfl⟩ : '.' :: digits = fraction ∧ others = rest := by simpa using h
      rw [hread] at hsplit hdigit
      exact ⟨.present ⟨hsome, hdigit⟩, by rw [hsplit]; rfl⟩
  · cases h
    exact ⟨.absent, rfl⟩

lemma readExponent?_append {exponent rest : List Char} (h : Exponent exponent)
    (hrest : Ended rest) : readExponent? (exponent ++ rest) = some (exponent, rest) := by
  cases h with
  | absent =>
    cases rest with
    | nil => rfl
    | cons c others =>
      obtain ⟨-, -, he, hE⟩ := hrest c rfl
      simp [readExponent?, he, hE]
  | @present e sign digits he hsign hdigits =>
    obtain ⟨hsome, hdigit⟩ := hdigits
    have hsplit := splitDigits_append hdigit fun c hc => (hrest c hc).1
    obtain ⟨d, others, rfl⟩ := List.exists_cons_of_ne_nil hsome
    rw [List.cons_append] at hsplit
    rcases hsign with rfl | rfl | rfl
    · -- Without a sign, a digit follows the letter at once.
      have hd : d.isDigit = true := hdigit d List.mem_cons_self
      have hplus : d ≠ '+' := by rintro rfl; cases hd
      have hminus : d ≠ '-' := by rintro rfl; cases hd
      simp [readExponent?, he, hplus, hminus, hsplit]
    · simp [readExponent?, he, hsplit]
    · simp [readExponent?, he, hsplit]

lemma exponent_of_readExponent? {text exponent rest : List Char}
    (h : readExponent? text = some (exponent, rest)) :
    Exponent exponent ∧ text = exponent ++ rest := by
  unfold readExponent? at h
  split at h
  · next e more =>
    split at h
    · next he =>
      split at h
      next sign behind hread =>
      have hsign : (sign = [] ∨ sign = ['+'] ∨ sign = ['-']) ∧ more = sign ++ behind := by
        split at hread <;> cases hread <;> simp
      obtain ⟨hsplit, hdigit⟩ := splitDigits_spec behind
      split at h
      · cases h
      · next digits others hsome hdigits =>
        obtain ⟨rfl, rfl⟩ : e :: (sign ++ digits) = exponent ∧ others = rest := by simpa using h
        rw [hdigits] at hsplit hdigit
        exact ⟨.present he hsign.1 ⟨hsome, hdigit⟩, by simp [hsign.2, hsplit]⟩
    · cases h
      exact ⟨.absent, rfl⟩
  · cases h
    exact ⟨.absent, rfl⟩

lemma isInteger_iff {digits : List Char} (hdigit : ∀ c ∈ digits, c.isDigit = true) :
    isInteger digits = true ↔ Integral digits := by
  unfold isInteger
  split
  · simp [Integral, Digits]
  · simp [Integral, Digits]
  · next c others hzero =>
    have hlone : c = '0' → others ≠ [] := hzero
    simp_all [Integral, Digits]

/-- The minus sign of a number, if it has one. -/
def minus (negative : Bool) : List Char := if negative then ['-'] else []

/-- What the parts of a number stand for. -/
def ofParts (negative : Bool) (digits fraction exponent : List Char) : Json :=
  if fraction.isEmpty && exponent.isEmpty && !(negative && Nat.ofDigitChars 10 digits 0 == 0) then
    .int (if negative then -(Nat.ofDigitChars 10 digits 0) else Nat.ofDigitChars 10 digits 0)
  else .real (String.ofList (minus negative ++ digits ++ fraction ++ exponent))

lemma natOfDigits_eq (digits : List Char) : natOfDigits digits = Nat.ofDigitChars 10 digits 0 := rfl

/-- **A number is read by its parts.** -/
lemma readNumber?_parts {negative : Bool} {digits fraction exponent rest : List Char}
    (hdigits : Integral digits) (hfraction : Fraction fraction) (hexponent : Exponent exponent)
    (hrest : Ended rest) :
    readNumber? (minus negative ++ (digits ++ (fraction ++ (exponent ++ rest)))) =
      some (ofParts negative digits fraction exponent, rest) := by
  have hfront : ∀ c ∈ (exponent ++ rest).head?, c.isDigit = false ∧ c ≠ '.' := by
    cases hexponent with
    | absent => exact fun c hc => ⟨(hrest c hc).1, (hrest c hc).2.1⟩
    | present he _ _ => rcases he with rfl | rfl <;> simp
  have hbehind : ∀ c ∈ (fraction ++ (exponent ++ rest)).head?, c.isDigit = false := by
    cases hfraction with
    | absent => exact fun c hc => (hfront c hc).1
    | present _ => simp
  have hsplit := splitDigits_append hdigits.1.2 hbehind
  have hinteger := (isInteger_iff hdigits.1.2).mpr hdigits
  have hrunsOn := readFraction?_append hfraction hfront
  have hends := readExponent?_append hexponent hrest
  cases negative with
  | true =>
    simp only [readNumber?, minus, ofParts, if_true, List.cons_append, List.nil_append, hsplit,
      hinteger, hrunsOn, hends, natOfDigits_eq, Option.bind_some, bind, pure]
    split_ifs <;> rfl
  | false =>
    -- The first digit is no minus sign.
    obtain ⟨d, others, rfl⟩ := List.exists_cons_of_ne_nil hdigits.1.1
    have hd : d ≠ '-' := by
      rintro rfl
      exact absurd (hdigits.1.2 '-' List.mem_cons_self) (by decide)
    simp only [readNumber?, minus, ofParts, Bool.false_eq_true, if_false, List.nil_append,
      List.cons_append]
    rw [List.cons_append] at hsplit
    split
    · next heq => exact absurd (List.cons.inj heq).1 hd
    · simp only [hsplit, hinteger, hrunsOn, hends, natOfDigits_eq, Bool.false_eq_true,
        if_true, if_false, Option.bind_some, bind, pure]
      split_ifs <;> rfl

lemma NumberOf.exists_parts {written : List Char} {x : Json} (h : NumberOf written x) :
    ∃ negative digits fraction exponent, Integral digits ∧ Fraction fraction ∧ Exponent exponent ∧
      written = minus negative ++ (digits ++ (fraction ++ exponent)) ∧
      x = ofParts negative digits fraction exponent := by
  cases h with
  | positive hdigits =>
    exact ⟨false, written, [], [], hdigits, .absent, .absent, by simp [minus], by simp [ofParts]⟩
  | @negative digits hdigits hpos =>
    exact ⟨true, digits, [], [], hdigits, .absent,
      .absent, by simp [minus], by simp [ofParts, hpos]⟩
  | @negativeZero digits hdigits hzero =>
    exact ⟨true, digits, [], [], hdigits, .absent,
      .absent, by simp [minus], by simp [ofParts, hzero, minus]⟩
  | @real sign digits fraction exponent hsign hdigits hfraction hexponent hsome =>
    obtain ⟨negative, rfl⟩ : ∃ negative, sign = minus negative := by
      rcases hsign with rfl | rfl
      · exact ⟨false, rfl⟩
      · exact ⟨true, rfl⟩
    have hparts : ¬(fraction.isEmpty && exponent.isEmpty) := by simpa using hsome
    refine ⟨negative, digits, fraction, exponent, hdigits, hfraction, hexponent, by simp, ?_⟩
    rw [ofParts, if_neg]
    grind

lemma numberOf_parts {negative : Bool} {digits fraction exponent : List Char}
    (hdigits : Integral digits) (hfraction : Fraction fraction) (hexponent : Exponent exponent) :
    NumberOf (minus negative ++ (digits ++ (fraction ++ exponent)))
      (ofParts negative digits fraction exponent) := by
  by_cases hsome : fraction = [] ∧ exponent = []
  · obtain ⟨rfl, rfl⟩ := hsome
    cases negative with
    | false => simpa [minus, ofParts] using NumberOf.positive hdigits
    | true =>
      by_cases hzero : Nat.ofDigitChars 10 digits 0 = 0
      · simpa [minus, ofParts, hzero] using NumberOf.negativeZero hdigits hzero
      · simpa [minus, ofParts, hzero] using NumberOf.negative hdigits hzero
  · have hsign : minus negative = [] ∨ minus negative = ['-'] := by cases negative <;> simp [minus]
    have hparts : ¬(fraction.isEmpty && exponent.isEmpty) := by simpa using hsome
    rw [ofParts, if_neg (by grind)]
    simpa using NumberOf.real hsign hdigits hfraction hexponent hsome

/-- **A number of the grammar is read**, if what follows could not be part of it. -/
lemma readNumber?_append {written rest : List Char} {x : Json} (h : NumberOf written x)
    (hrest : Ended rest) : readNumber? (written ++ rest) = some (x, rest) := by
  obtain ⟨negative, digits, fraction, exponent, hdigits, hfraction, hexponent, rfl, rfl⟩ :=
    h.exists_parts
  simpa using readNumber?_parts hdigits hfraction hexponent hrest

/-- **Only numbers of the grammar are read.** -/
lemma numberOf_of_readNumber? {text rest : List Char} {x : Json}
    (h : readNumber? text = some (x, rest)) :
    ∃ written, NumberOf written x ∧ text = written ++ rest := by
  unfold readNumber? at h
  split at h
  next negative behind hread =>
  have hsign : text = minus negative ++ behind := by
    split at hread <;> cases hread <;> simp [minus]
  obtain ⟨hsplit, hdigit⟩ := splitDigits_spec behind
  split at h
  next digits others hdigits =>
  rw [hdigits] at hsplit hdigit
  split at h
  · next hinteger =>
    simp only [bind, Option.bind_eq_some_iff] at h
    obtain ⟨⟨fraction, more⟩, hfraction, ⟨exponent, last⟩, hexponent, h⟩ := h
    have hparts : some (ofParts negative digits fraction exponent, last) = some (x, rest) := by
      rw [← h, ofParts, natOfDigits_eq, minus]
      split_ifs <;> rfl
    obtain ⟨rfl, rfl⟩ : ofParts negative digits fraction exponent = x ∧ last = rest := by
      simpa using hparts
    obtain ⟨hfractional, rfl⟩ := fraction_of_readFraction? hfraction
    obtain ⟨hexponential, rfl⟩ := exponent_of_readExponent? hexponent
    have hintegral := (isInteger_iff hdigit).mp hinteger
    exact ⟨_, numberOf_parts hintegral hfractional hexponential, by simp [hsign, hsplit]⟩
  · cases h

/-! ## Strings -/

lemma hexDigitOf_of_hexValue? {c : Char} {n : Nat} (h : hexValue? c = some n) : HexDigitOf c n := by
  have hchar : c = Char.ofNat c.toNat := (Char.ofNat_toNat c).symm
  unfold hexValue? at h
  simp only [Char.le_def, UInt32.le_iff_toNat_le] at h
  change (if 48 ≤ c.toNat ∧ c.toNat ≤ 57 then some (c.toNat - 48)
    else if 97 ≤ c.toNat ∧ c.toNat ≤ 102 then some (c.toNat - 97 + 10)
    else if 65 ≤ c.toNat ∧ c.toNat ≤ 70 then some (c.toNat - 65 + 10) else none) = some n at h
  generalize c.toNat = m at h hchar
  subst hchar
  split_ifs at h with hdigit hlower hupper
  all_goals
    cases h
    obtain ⟨hlow, hhigh⟩ := ‹_ ∧ _›
    interval_cases m <;> exact ⟨by decide, by decide⟩

lemma hexValue?_of_hexDigitOf {c : Char} {n : Nat} (h : HexDigitOf c n) : hexValue? c = some n := by
  have hall : ∀ m < 16, hexValue? m.digitChar = some m ∧
    hexValue? m.digitChar.toUpper = some m := by decide
  obtain ⟨hn, rfl | rfl⟩ := h
  · exact (hall n hn).1
  · exact (hall n hn).2

lemma hexValue4?_iff {a b c d : Char} {n : Nat} : hexValue4? a b c d = some n ↔
    ∃ i j k l, HexDigitOf a i ∧ HexDigitOf b j ∧ HexDigitOf c k ∧ HexDigitOf d l ∧
      0x1000 * i + 0x100 * j + 0x10 * k + l = n := by
  constructor
  · intro h
    simp only [hexValue4?, bind, pure, Option.bind_eq_some_iff, Option.some.injEq] at h
    obtain ⟨i, hi, j, hj, k, hk, l, hl, hn⟩ := h
    exact ⟨i, j, k, l, hexDigitOf_of_hexValue? hi, hexDigitOf_of_hexValue? hj,
      hexDigitOf_of_hexValue? hk, hexDigitOf_of_hexValue? hl, by omega⟩
  · rintro ⟨i, j, k, l, hi, hj, hk, hl, rfl⟩
    simp only [hexValue4?, hexValue?_of_hexDigitOf hi, hexValue?_of_hexDigitOf hj,
      hexValue?_of_hexDigitOf hk, hexValue?_of_hexDigitOf hl, bind, pure, Option.bind_some,
      Option.some.injEq]
    omega

lemma escapedChar?_iff {e c : Char} : escapedChar? e = some c ↔ EscapeOf e c := by
  constructor
  · intro h
    unfold escapedChar? at h
    split_ifs at h with h1 h2 h3 h4 h5 h6 h7 h8 <;> cases h <;> subst_vars <;> constructor
  · intro h
    cases h <;> rfl

/-- **What stands between quotes is read** up to the closing one. -/
lemma readUnits?_append {written : List Char} {units : List StringUnit} (h : UnitsOf written units)
    (rest : List Char) : readUnits? (written ++ '"' :: rest) = some (units, rest) := by
  induction h with
  | nil => simp [readUnits?]
  | plain hquote hbackslash hcontrol _ ih =>
    rw [List.cons_append, readUnits?]
    all_goals simp_all
  | @escape e c written _ hescape _ ih =>
    have hshort : e ≠ 'u' := by rintro rfl; cases hescape
    rw [List.cons_append, List.cons_append, readUnits?]
    · simp [escapedChar?_iff.mpr hescape, ih]
    · simp [hshort]
  | code ha hb hc hd _ ih =>
    have hvalue := hexValue4?_iff.mpr ⟨_, _, _, _, ha, hb, hc, hd, rfl⟩
    simp [readUnits?, hvalue, ih]

/-- **Only what may stand between quotes is read.** -/
lemma unitsOf_of_readUnits? {text rest : List Char} {units : List StringUnit}
    (h : readUnits? text = some (units, rest)) :
    ∃ written, UnitsOf written units ∧ text = written ++ '"' :: rest := by
  fun_induction readUnits? text generalizing units with
  | case1 => cases h
  | case2 more =>
    cases h
    exact ⟨[], .nil, rfl⟩
  | case3 => cases h
  | case4 a b c d more n hn ih =>
    obtain ⟨⟨others, last⟩, hread, heq⟩ := Option.map_eq_some_iff.mp h
    cases heq
    obtain ⟨i, j, k, l, ha, hb, hc, hd, rfl⟩ := hexValue4?_iff.mp hn
    obtain ⟨written, hwritten, rfl⟩ := ih hread
    exact ⟨_, .code ha hb hc hd hwritten, rfl⟩
  | case5 => cases h
  | case6 e more _ c hc ih =>
    obtain ⟨⟨others, last⟩, hread, heq⟩ := Option.map_eq_some_iff.mp h
    cases heq
    obtain ⟨written, hwritten, rfl⟩ := ih hread
    exact ⟨_, .escape (escapedChar?_iff.mp hc) hwritten, rfl⟩
  | case7 => cases h
  | case8 => cases h
  | case9 c more hquote _ hescape _ hcontrol ih =>
    obtain ⟨⟨others, last⟩, hread, heq⟩ := Option.map_eq_some_iff.mp h
    cases heq
    obtain ⟨written, hwritten, rfl⟩ := ih hread
    have hbackslash : c ≠ '\\' := by
      intro hc
      obtain ⟨d, behind, hcons⟩ : ∃ d behind, written ++ '"' :: rest = d :: behind :=
        List.exists_cons_of_ne_nil (by simp)
      exact hescape d behind hc hcons
    exact ⟨_, .plain hquote hbackslash (Nat.not_lt.mp hcontrol) hwritten, rfl⟩

/-- The number is half a surrogate pair. -/
lemma isSurrogate_iff {n : Nat} :
    (isHighSurrogate n || isLowSurrogate n) = true ↔ 0xd800 ≤ n ∧ n < 0xe000 := by
  simp only [isHighSurrogate, isLowSurrogate, Bool.or_eq_true, Bool.and_eq_true, decide_eq_true_eq]
  omega

/-- A unit that is not the first half of a pair is joined by itself. -/
lemma joinPairs_code {n : Nat} {units : List StringUnit} (h : ¬BeginsWithPair (.code n :: units)) :
    joinPairs (.code n :: units) =
      (if 0xd800 ≤ n ∧ n < 0xe000 then none else some (Char.ofNat n)) :: joinPairs units := by
  cases units with
  | nil => simp only [joinPairs, isSurrogate_iff]
  | cons unit rest =>
    cases unit with
    | char c => simp only [joinPairs, isSurrogate_iff]
    | code low =>
      have hpair : ¬(isHighSurrogate n && isLowSurrogate low) = true := by
        intro hpair
        simp only [isHighSurrogate, isLowSurrogate, Bool.and_eq_true, decide_eq_true_eq] at hpair
        exact h ⟨n, low, rest, rfl, hpair.1.1, hpair.1.2, hpair.2.1, hpair.2.2⟩
      simp only [joinPairs, if_neg hpair, isSurrogate_iff]

/-- The numbers of characters are no halves of pairs. -/
lemma toNat_not_surrogate (c : Char) : ¬(0xd800 ≤ c.toNat ∧ c.toNat < 0xe000) := by
  have hvalid : c.toNat < 0xd800 ∨ 0xdfff < c.toNat ∧ c.toNat < 0x110000 := c.valid
  omega

lemma joinPairs_codeUnits (c : Char) (units : List StringUnit) :
    joinPairs ((codeUnits c).map .code ++ units) = some c :: joinPairs units := by
  have hvalid : c.toNat < 0xd800 ∨ 0xdfff < c.toNat ∧ c.toNat < 0x110000 := c.valid
  rw [codeUnits]
  split
  · next hsmall =>
    have hnone := toNat_not_surrogate c
    have hpair : ¬BeginsWithPair (.code c.toNat :: units) := by
      rintro ⟨high, low, rest, heq, hhigh⟩
      cases heq
      omega
    simpa [hnone] using joinPairs_code hpair
  · next hlarge =>
    have hhigh : isHighSurrogate (0xd800 + (c.toNat - 0x10000) / 0x400) = true := by
      simp only [isHighSurrogate, Bool.and_eq_true, decide_eq_true_eq]
      omega
    have hlow : isLowSurrogate (0xdc00 + (c.toNat - 0x10000) % 0x400) = true := by
      simp only [isLowSurrogate, Bool.and_eq_true, decide_eq_true_eq]
      omega
    have hnumber : 0x10000 + (0xd800 + (c.toNat - 0x10000) / 0x400 - 0xd800) * 0x400 +
        (0xdc00 + (c.toNat - 0x10000) % 0x400 - 0xdc00) = c.toNat := by omega
    simp only [List.map_cons, List.map_nil, List.cons_append, List.nil_append, joinPairs, hhigh,
      hlow, Bool.and_self, if_true, hnumber, Char.ofNat_toNat]

lemma joinPairs_of_joined {units : List StringUnit} {characters : List (Option Char)}
    (h : Joined units characters) : joinPairs units = characters := by
  induction h with
  | nil => rfl
  | char _ ih => simp [joinPairs, ih]
  | codes _ ih => rw [joinPairs_codeUnits, ih]
  | half hlow hhigh hpair _ ih => simp [joinPairs_code hpair, hlow, hhigh, ih]

lemma UnitsOf.code_lt {written : List Char} {units : List StringUnit} (h : UnitsOf written units)
    {n : Nat} (hn : .code n ∈ units) : n < 0x10000 := by
  induction h with
  | nil => simp at hn
  | plain _ _ _ _ ih => exact ih (by simpa using hn)
  | escape _ _ ih => exact ih (by simpa using hn)
  | code ha hb hc hd _ ih =>
    rcases List.mem_cons.mp hn with heq | hmore
    · cases heq
      have := ha.1
      have := hb.1
      have := hc.1
      have := hd.1
      omega
    · exact ih hmore

lemma toNat_ofNat_of_isValidChar {n : Nat} (h : n.isValidChar) : (Char.ofNat n).toNat = n := by
  rw [Char.ofNat, dif_pos h]
  rfl

lemma codeUnits_ofNat {n : Nat} (h : n < 0x10000) (hwhole : ¬(0xd800 ≤ n ∧ n < 0xe000)) :
    codeUnits (Char.ofNat n) = [n] := by
  have hvalid : n.isValidChar := by unfold Nat.isValidChar; omega
  rw [codeUnits, toNat_ofNat_of_isValidChar hvalid, if_pos h]

lemma codeUnits_ofNat_pair {high low : Nat} (hhigh : 0xd800 ≤ high ∧ high < 0xdc00)
    (hlow : 0xdc00 ≤ low ∧ low < 0xe000) :
    codeUnits (Char.ofNat (0x10000 + (high - 0xd800) * 0x400 + (low - 0xdc00))) = [high, low] := by
  have hvalid : (0x10000 + (high - 0xd800) * 0x400 + (low - 0xdc00)).isValidChar := by
    unfold Nat.isValidChar
    omega
  have hfirst : 0xd800 + (0x10000 + (high - 0xd800) * 0x400 + (low - 0xdc00) - 0x10000) / 0x400 =
    high := by omega
  have hsecond : 0xdc00 + (0x10000 + (high - 0xd800) * 0x400 + (low - 0xdc00) - 0x10000) % 0x400 =
    low := by omega
  rw [codeUnits, toNat_ofNat_of_isValidChar hvalid, if_neg (by omega), hfirst, hsecond]

lemma joined_of_code {n : Nat} {units : List StringUnit} {characters : List (Option Char)}
    (hpair : ¬BeginsWithPair (.code n :: units)) (hn : n < 0x10000) (h : Joined units characters) :
    Joined (.code n :: units) ((if 0xd800 ≤ n ∧ n < 0xe000 then none else some (Char.ofNat n)) ::
      characters) := by
  split
  · next hhalf => exact .half hhalf.1 hhalf.2 hpair h
  · next hwhole =>
    have hcodes := Joined.codes (c := Char.ofNat n) h
    rwa [codeUnits_ofNat hn hwhole] at hcodes

lemma joined_joinPairs {units : List StringUnit} (hunits : ∀ n, .code n ∈ units → n < 0x10000) :
    Joined units (joinPairs units) := by
  fun_induction joinPairs units with
  | case1 => exact .nil
  | case2 c rest ih => exact .char (ih fun n hn => hunits n (List.mem_cons_of_mem _ hn))
  | case3 high low rest hpair ih =>
    simp only [isHighSurrogate, isLowSurrogate, Bool.and_eq_true, decide_eq_true_eq] at hpair
    have hrest := ih fun n hn => hunits n (List.mem_cons_of_mem _ (List.mem_cons_of_mem _ hn))
    have hcodes :=
      Joined.codes (c := Char.ofNat (0x10000 + (high - 0xd800) * 0x400 + (low - 0xdc00))) hrest
    rwa [codeUnits_ofNat_pair hpair.1 hpair.2] at hcodes
  | case4 high low rest hpair ih =>
    have hlone : ¬BeginsWithPair (.code high :: .code low :: rest) := by
      rintro ⟨_, _, _, heq, hhalves⟩
      cases heq
      simp [isHighSurrogate, isLowSurrogate, hhalves] at hpair
    simp only [isSurrogate_iff]
    exact joined_of_code hlone (hunits high List.mem_cons_self)
      (ih fun n hn => hunits n (List.mem_cons_of_mem _ hn))
  | case5 n rest hcode ih =>
    have hlone : ¬BeginsWithPair (.code n :: rest) := by
      rintro ⟨_, low, more, heq, -⟩
      cases heq
      exact hcode low more rfl
    simp only [isSurrogate_iff]
    exact joined_of_code hlone (hunits n List.mem_cons_self)
      (ih fun m hm => hunits m (List.mem_cons_of_mem _ hm))

/-- **A literal of the grammar is read**, behind its opening quote. -/
lemma readString?_append {halves : Prop} {written : List Char} {s : StringLiteral}
    (h : LiteralOf halves written s) :
    ∃ body, written = '"' :: body ∧ ∀ rest, readString? (body ++ rest) = some (s, rest) := by
  cases h with
  | @mk body units s hunits hjoined _ =>
    refine ⟨body ++ ['"'], rfl, fun rest => ?_⟩
    simp [readString?, readUnits?_append hunits, joinPairs_of_joined hjoined]

/-- **Only literals of the grammar are read.** -/
lemma literalOf_of_readString? {text rest : List Char} {s : StringLiteral}
    (h : readString? text = some (s, rest)) :
    ∃ written, LiteralOf True written s ∧ '"' :: text = written ++ rest := by
  obtain ⟨⟨units, last⟩, hread, heq⟩ := Option.map_eq_some_iff.mp h
  cases heq
  obtain ⟨written, hunits, rfl⟩ := unitsOf_of_readUnits? hread
  exact ⟨_, .mk hunits (joined_joinPairs fun _ => hunits.code_lt) fun _ => trivial, by simp⟩

end CodeSift.Json
