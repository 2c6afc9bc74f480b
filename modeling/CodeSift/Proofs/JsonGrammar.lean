import CodeSift.Json.Printer
import CodeSift.Json.Reader
import Mathlib.Tactic.Lemma
import Mathlib.Tactic.SplitIfs

/-!
# The grammar of JSON, and what is written in it

The grammar is given by relations between a text and what it stands for.  `NumberOf` and `LiteralOf`
are the numbers and the string literals; `ValueOf`, `ElementsOf`, `MembersOf` and `TextOf` are the
documents, with white space between their parts.  An object may have any keys in any order, and the
same key more than once.

A string literal may spell a character as it is, by a short escape, or by its UTF-16 code units in
hexadecimal.  Such escapes can also spell half a surrogate pair, which is no character; whether a
text may do so is a parameter of the grammar, since readers differ on it.  The strict grammar is the
one without halves.

What the printer writes is a text of the strict grammar (`textOf_pretty`), whatever characters the
strings hold.
-/

namespace CodeSift.Json

/-! ## Numbers -/

/-- One digit or more. -/
def Digits (text : List Char) : Prop := text ≠ [] ∧ ∀ c ∈ text, c.isDigit = true

/-- **How the integer part of a number may be written.**  No zero stands in front of other
digits. -/
def Integral (text : List Char) : Prop := Digits text ∧ (text.head? = some '0' → text = ['0'])

/-- **How the fraction of a number may be written.**  There need not be one. -/
inductive Fraction : List Char → Prop where
  | absent : Fraction []
  | present {digits : List Char} : Digits digits → Fraction ('.' :: digits)

/-- **How the exponent of a number may be written.**  There need not be one. -/
inductive Exponent : List Char → Prop where
  | absent : Exponent []
  | present {e : Char} {sign digits : List Char} : (e = 'e' ∨ e = 'E') →
      (sign = [] ∨ sign = ['+'] ∨ sign = ['-']) →
      Digits digits → Exponent (e :: (sign ++ digits))

/-- **How a number may be written.**  It is an integer if it has neither fraction nor exponent and
is not a negative zero; else it stands for itself as it is written. -/
inductive NumberOf : List Char → Json → Prop where
  | positive {digits : List Char} : Integral digits →
      NumberOf digits (.int (Nat.ofDigitChars 10 digits 0))
  | negative {digits : List Char} : Integral digits → Nat.ofDigitChars 10 digits 0 ≠ 0 →
      NumberOf ('-' :: digits) (.int (-(Nat.ofDigitChars 10 digits 0)))
  | negativeZero {digits : List Char} : Integral digits → Nat.ofDigitChars 10 digits 0 = 0 →
      NumberOf ('-' :: digits) (.real (String.ofList ('-' :: digits)))
  | real {sign digits fraction exponent : List Char} :
      (sign = [] ∨ sign = ['-']) → Integral digits → Fraction fraction → Exponent exponent →
      ¬(fraction = [] ∧ exponent = []) →
      NumberOf (sign ++ digits ++ fraction ++ exponent)
        (.real (String.ofList (sign ++ digits ++ fraction ++ exponent)))

/-! ## Strings -/

/-- The digit has the value, in upper or lower case. -/
def HexDigitOf (c : Char) (n : Nat) : Prop := n < 16 ∧ (c = n.digitChar ∨ c = n.digitChar.toUpper)

/-- **How a character may be written behind a backslash.** -/
inductive EscapeOf : Char → Char → Prop where
  | quote : EscapeOf '"' '"'
  | backslash : EscapeOf '\\' '\\'
  | slash : EscapeOf '/' '/'
  | backspace : EscapeOf 'b' '\x08'
  | formFeed : EscapeOf 'f' '\x0c'
  | lineFeed : EscapeOf 'n' '\n'
  | carriageReturn : EscapeOf 'r' '\r'
  | tab : EscapeOf 't' '\t'

/-- **What may stand between the quotes of a literal**: characters as they are, short escapes, and
code units. -/
inductive UnitsOf : List Char → List StringUnit → Prop where
  | nil : UnitsOf [] []
  | plain {c : Char} {written : List Char} {units : List StringUnit} :
      c ≠ '"' → c ≠ '\\' → 0x20 ≤ c.toNat → UnitsOf written units →
        UnitsOf (c :: written) (.char c :: units)
  | escape {e c : Char} {written : List Char} {units : List StringUnit} :
      EscapeOf e c → UnitsOf written units → UnitsOf ('\\' :: e :: written) (.char c :: units)
  | code {a b c d : Char} {i j k l : Nat} {written : List Char} {units : List StringUnit} :
      HexDigitOf a i → HexDigitOf b j → HexDigitOf c k → HexDigitOf d l → UnitsOf written units →
      UnitsOf ('\\' :: 'u' :: a :: b :: c :: d :: written)
      (.code (0x1000 * i + 0x100 * j + 0x10 * k + l) :: units)

/-- The UTF-16 code units of a character: one, or a surrogate pair. -/
def codeUnits (c : Char) : List Nat :=
  if c.toNat < 0x10000 then [c.toNat]
  else [0xd800 + (c.toNat - 0x10000) / 0x400, 0xdc00 + (c.toNat - 0x10000) % 0x400]

/-- The units begin with a first half and a second half. -/
def BeginsWithPair (units : List StringUnit) : Prop :=
  ∃ high low rest, units = .code high :: .code low :: rest ∧ 0xd800 ≤ high ∧ high < 0xdc00 ∧
    0xdc00 ≤ low ∧ low < 0xe000

/-- **What characters the units of a literal stand for.**  Half a surrogate pair without the other
half stands for none. -/
inductive Joined : List StringUnit → List (Option Char) → Prop where
  | nil : Joined [] []
  | char {c : Char} {units : List StringUnit} {characters : List (Option Char)} :
      Joined units characters → Joined (.char c :: units) (some c :: characters)
  | codes {c : Char} {units : List StringUnit} {characters : List (Option Char)} :
      Joined units characters → Joined ((codeUnits c).map .code ++ units) (some c :: characters)
  | half {n : Nat} {units : List StringUnit} {characters : List (Option Char)} :
      0xd800 ≤ n → n < 0xe000 → ¬BeginsWithPair (.code n :: units) → Joined units characters →
      Joined (.code n :: units) (none :: characters)

/-- **How a string literal may be written.** -/
inductive LiteralOf (halves : Prop) : List Char → StringLiteral → Prop where
  | mk {written : List Char} {units : List StringUnit} {s : StringLiteral} : UnitsOf written units →
      Joined units s.characters → (none ∈ s.characters → halves) →
        LiteralOf halves ('"' :: (written ++ ['"'])) s

/-! ## Documents -/

/-- White space. -/
def Blank (text : List Char) : Prop := ∀ c ∈ text, c = ' ' ∨ c = '\t' ∨ c = '\n' ∨ c = '\r'

/-- **How a key may be written**, with white space around it. -/
inductive KeyOf (halves : Prop) : List Char → StringLiteral → Prop where
  | mk {front written back : List Char} {key : StringLiteral} :
      Blank front → LiteralOf halves written key → Blank back →
        KeyOf halves (front ++ (written ++ back)) key

mutual

/-- **How a value may be written.**  Where `halves` allows that a literal spells half a surrogate
pair, the half stands for the replacement character. -/
inductive ValueOf (halves : Prop) : List Char → Json → Prop where
  | null : ValueOf halves ['n', 'u', 'l', 'l'] .null
  | truth : ValueOf halves ['t', 'r', 'u', 'e'] (.bool true)
  | falsity : ValueOf halves ['f', 'a', 'l', 's', 'e'] (.bool false)
  | number {written : List Char} {x : Json} : NumberOf written x → ValueOf halves written x
  | string {written : List Char} {s : StringLiteral} :
      LiteralOf halves written s → ValueOf halves written (.string s.text)
  | array {written : List Char} {elements : List Json} :
      ElementsOf halves written elements →
        ValueOf halves ('[' :: (written ++ [']'])) (.array elements)
  | object {written : List Char} {members : List (StringLiteral × Json)} :
      MembersOf halves written members →
      ValueOf halves ('{' :: (written ++ ['}'])) (.object (members.map fun m => (m.1.text, m.2)))

/-- **How a document may be written**: as a value with white space around it. -/
inductive TextOf (halves : Prop) : List Char → Json → Prop where
  | mk {front written back : List Char} {x : Json} :
      Blank front → ValueOf halves written x → Blank back →
        TextOf halves (front ++ (written ++ back)) x

/-- **What may stand between the brackets of an array.** -/
inductive ElementsOf (halves : Prop) : List Char → List Json → Prop where
  | none {blank : List Char} : Blank blank → ElementsOf halves blank []
  | last {written : List Char} {x : Json} : TextOf halves written x → ElementsOf halves written [x]
  | more {written rest : List Char} {x y : Json} {others : List Json} : TextOf halves written x →
      ElementsOf halves rest (y :: others) →
        ElementsOf halves (written ++ ',' :: rest) (x :: y :: others)

/-- **What may stand between the braces of an object.** -/
inductive MembersOf (halves : Prop) : List Char → List (StringLiteral × Json) → Prop where
  | none {blank : List Char} : Blank blank → MembersOf halves blank []
  | last {name written : List Char} {key : StringLiteral} {x : Json} :
      KeyOf halves name key → TextOf halves written x →
        MembersOf halves (name ++ ':' :: written) [(key, x)]
  | more {name written rest : List Char} {key : StringLiteral} {x : Json} {m : StringLiteral × Json}
      {others : List (StringLiteral × Json)} : KeyOf halves name key → TextOf halves written x →
      MembersOf halves rest (m :: others) →
      MembersOf halves (name ++ ':' :: (written ++ ',' :: rest)) ((key, x) :: m :: others)

end

/-! ## Writing numbers -/

lemma integral_toDigits (n : Nat) : Integral (Nat.toDigits 10 n) := by
  refine ⟨⟨Nat.toDigits_ne_nil, fun c hc => Nat.isDigit_of_mem_toDigits (by decide) (by decide) hc⟩,
    ?_⟩
  induction n using Nat.strongRecOn with
  | ind n ih =>
    intro hzero
    rcases Nat.lt_or_ge n 10 with hlt | hge
    · rw [Nat.toDigits_of_lt_base hlt] at hzero ⊢
      simpa using hzero
    · -- The first digit is that of a tenth of the number, which is not zero.
      rw [Nat.toDigits_of_base_le (by decide) hge, List.head?_append,
        List.head?_eq_some_head Nat.toDigits_ne_nil, Option.some_or,
        ← List.head?_eq_some_head] at hzero
      have hvalue := Nat.ofDigitChars_toDigits (b := 10) (n := n / 10) (by decide) (by decide)
      rw [ih (n / 10) (by omega) hzero] at hvalue
      have htenth : n / 10 = 0 := hvalue.symm
      omega

lemma numberOf_toString (n : Int) : NumberOf (toString n).toList (.int n) := by
  have hvalue (m : Nat) : Nat.ofDigitChars 10 (Nat.toDigits 10 m) 0 = m :=
    Nat.ofDigitChars_toDigits (by decide) (by decide)
  cases n with
  | ofNat m =>
    have htext : (toString (Int.ofNat m)).toList = Nat.toDigits 10 m := by
      simp [toString, Int.repr, Nat.repr]
    rw [htext]
    simpa [hvalue] using NumberOf.positive (integral_toDigits m)
  | negSucc m =>
    have htext : (toString (Int.negSucc m)).toList = '-' :: Nat.toDigits 10 (m + 1) := by
      simp [toString, Int.repr, Nat.repr]
    rw [htext]
    simpa [hvalue, Int.negSucc_eq] using NumberOf.negative (integral_toDigits (m + 1))
      (by simp [hvalue])

/-! ## Writing strings -/

/-- The literal that spells a text. -/
def StringLiteral.ofText (s : String) : StringLiteral := ⟨s.toList.map some⟩

@[simp] lemma StringLiteral.text_ofText (s : String) : (StringLiteral.ofText s).text = s := by
  simp [StringLiteral.ofText, StringLiteral.text, Function.comp_def]

@[simp] lemma StringLiteral.text?_ofText (s : String) :
    (StringLiteral.ofText s).text? = some s := by
  have hall : s.toList.mapM some = some s.toList := by
    simpa using List.mapM_pure (m := Option) (l := s.toList) (f := id)
  simp [StringLiteral.ofText, StringLiteral.text?, List.mapM_map, hall]

lemma hexDigitOf_digit {n : Nat} (h : n < 16) : HexDigitOf (Hex.digit n) n := by
  refine ⟨h, .inl ?_⟩
  revert n
  decide

lemma digits_four {n : Nat} (h : n < 0x10000) : Hex.digits 4 n [] =
    [Hex.digit (n / 16 / 16 / 16), Hex.digit (n / 16 / 16 % 16), Hex.digit (n / 16 % 16),
      Hex.digit (n % 16)] := by
  have hnone : n / 16 / 16 / 16 / 16 = 0 := by omega
  have hfirst : n / 16 / 16 / 16 % 16 = n / 16 / 16 / 16 := by omega
  simp only [Hex.digits, hnone, if_true, hfirst]

lemma unitsOf_code {n : Nat} (h : n < 0x10000) {written : List Char} {units : List StringUnit}
    (hrest : UnitsOf written units) :
    UnitsOf ('\\' :: 'u' :: (Hex.digits 4 n [] ++ written)) (.code n :: units) := by
  have hfirst : HexDigitOf (Hex.digit (n / 16 / 16 / 16)) (n / 16 / 16 / 16) :=
    hexDigitOf_digit (by omega)
  have hother (m : Nat) : HexDigitOf (Hex.digit (m % 16)) (m % 16) := hexDigitOf_digit (by omega)
  have hvalue : 0x1000 * (n / 16 / 16 / 16) + 0x100 * (n / 16 / 16 % 16) + 0x10 * (n / 16 % 16) +
    n % 16 = n := by omega
  have hcode := UnitsOf.code hfirst (hother (n / 16 / 16)) (hother (n / 16)) (hother n) hrest
  rw [hvalue] at hcode
  rw [digits_four h]
  exact hcode

/-- A character as it is written stands for itself. -/
lemma exists_units_escapeChar (c : Char) {written : List Char} {units : List StringUnit}
    {characters : List (Option Char)} (hunits : UnitsOf written units)
    (hjoined : Joined units characters) :
    ∃ more, UnitsOf (escapeChar c ++ written) more ∧ Joined more (some c :: characters) := by
  have hshort (e : Char) (h : EscapeOf e c) :
      ∃ more, UnitsOf (['\\', e] ++ written) more ∧ Joined more (some c :: characters) :=
    ⟨_, .escape h hunits, .char hjoined⟩
  rw [escapeChar]
  split_ifs with hquote hbackslash hbackspace htab hlf hff hcr hcontrol
  · exact hshort _ (hquote ▸ .quote)
  · exact hshort _ (hbackslash ▸ .backslash)
  · exact hshort _ (hbackspace ▸ .backspace)
  · exact hshort _ (htab ▸ .tab)
  · exact hshort _ (hlf ▸ .lineFeed)
  · exact hshort _ (hff ▸ .formFeed)
  · exact hshort _ (hcr ▸ .carriageReturn)
  · have hsmall : c.toNat < 0x10000 := by omega
    have hcodes := Joined.codes (c := c) hjoined
    rw [codeUnits, if_pos hsmall] at hcodes
    exact ⟨_, unitsOf_code hsmall hunits, hcodes⟩
  · exact ⟨_, .plain hquote hbackslash (by omega) hunits, .char hjoined⟩

lemma exists_units_flatMap (text : List Char) :
    ∃ units, UnitsOf (text.flatMap escapeChar) units ∧ Joined units (text.map some) := by
  induction text with
  | nil => exact ⟨[], .nil, .nil⟩
  | cons c rest ih =>
    obtain ⟨units, hunits, hjoined⟩ := ih
    simpa using exists_units_escapeChar c hunits hjoined

variable {halves : Prop}

/-- **A text between quotes is a literal that spells it.** -/
lemma literalOf_quote (s : String) : LiteralOf halves (quote s) (.ofText s) := by
  obtain ⟨units, hunits, hjoined⟩ := exists_units_flatMap s.toList
  exact .mk hunits hjoined (by simp [StringLiteral.ofText])

/-! ## Writing documents -/

/-- **The document can be written**: its numbers with a fraction or an exponent are written as such
numbers are. -/
inductive Proper : Json → Prop where
  | null : Proper .null
  | bool (b : Bool) : Proper (.bool b)
  | int (n : Int) : Proper (.int n)
  | real {literal : String} : NumberOf literal.toList (.real literal) → Proper (.real literal)
  | string (s : String) : Proper (.string s)
  | array {elements : List Json} : (∀ x ∈ elements, Proper x) → Proper (.array elements)
  | object {members : List (String × Json)} : (∀ m ∈ members, Proper m.2) → Proper (.object members)

attribute [simp] Proper.bool Proper.int Proper.string

@[simp] lemma proper_nat (n : Nat) : Proper (.nat n) := .int n

@[simp] lemma proper_array_iff {elements : List Json} :
    Proper (.array elements) ↔ ∀ x ∈ elements, Proper x :=
  ⟨fun h => by cases h; assumption, .array⟩

@[simp] lemma proper_object_iff {members : List (String × Json)} :
    Proper (.object members) ↔ ∀ m ∈ members, Proper m.2 :=
  ⟨fun h => by cases h; assumption, .object⟩

lemma blank_nil : Blank [] := by simp [Blank]

lemma blank_newline (level : Nat) : Blank (newline level) := by
  intro c hc
  rcases List.mem_cons.mp hc with rfl | hspace
  · simp
  · simp [List.eq_of_mem_replicate hspace]

-- The induction is on the elements behind the first; the white space in front of it and behind the
-- last is kept open.
lemma elementsOf_lines {level : Nat} {x : Json} {rest : List Json} {front back : List Char}
    (hwritten : ∀ y ∈ x :: rest, ValueOf halves (lines level y) y) (hfront : Blank front)
    (hback : Blank back) :
    ElementsOf halves (front ++ (lines level x ++ (moreElements level rest ++ back)))
      (x :: rest) := by
  induction rest generalizing x front with
  | nil => exact .last (.mk hfront (hwritten x List.mem_cons_self) hback)
  | cons y others ih =>
    have hfirst : TextOf halves (front ++ (lines level x ++ [])) x :=
      .mk hfront (hwritten x List.mem_cons_self) blank_nil
    have hrest := ih (fun z hz => hwritten z (List.mem_cons_of_mem x hz)) (blank_newline level)
    simpa [moreElements] using ElementsOf.more hfirst hrest

lemma membersOf_lines {level : Nat} {m : String × Json} {rest : List (String × Json)}
    {front back : List Char} (hwritten : ∀ n ∈ m :: rest, ValueOf halves (lines level n.2) n.2)
    (hfront : Blank front) (hback : Blank back) :
    MembersOf halves
      (front ++ (quote m.1 ++ ':' :: ' ' :: (lines level m.2 ++ (moreMembers level rest ++ back))))
      ((m :: rest).map fun n => (.ofText n.1, n.2)) := by
  have hspace : Blank [' '] := by simp [Blank]
  induction rest generalizing m front with
  | nil =>
    have hkey : KeyOf halves (front ++ (quote m.1 ++ [])) (.ofText m.1) :=
      .mk hfront (literalOf_quote m.1) blank_nil
    have htext : TextOf halves ([' '] ++ (lines level m.2 ++ back)) m.2 :=
      .mk hspace (hwritten m List.mem_cons_self) hback
    simpa [moreMembers] using MembersOf.last hkey htext
  | cons n others ih =>
    have hkey : KeyOf halves (front ++ (quote m.1 ++ [])) (.ofText m.1) :=
      .mk hfront (literalOf_quote m.1) blank_nil
    have htext : TextOf halves ([' '] ++ (lines level m.2 ++ [])) m.2 :=
      .mk hspace (hwritten m List.mem_cons_self) blank_nil
    have hrest := ih (fun z hz => hwritten z (List.mem_cons_of_mem m hz)) (blank_newline level)
    obtain ⟨key, y⟩ := n
    simpa [moreMembers] using MembersOf.more hkey htext hrest

/-- What stands between the braces of an object that is written. -/
def innerLines (level : Nat) : List (String × Json) → List Char
  | [] => []
  | (key, x) :: rest => newline (level + 1) ++ (quote key ++ ':' :: ' ' ::
      (lines (level + 1) x ++ (moreMembers (level + 1) rest ++ newline level)))

lemma lines_object (level : Nat) (members : List (String × Json)) :
    lines level (.object members) = '{' :: (innerLines level members ++ ['}']) := by
  cases members <;> simp [lines, innerLines]

lemma membersOf_innerLines {level : Nat} {members : List (String × Json)}
    (hwritten : ∀ m ∈ members, ValueOf halves (lines (level + 1) m.2) m.2) :
    MembersOf halves (innerLines level members) (members.map fun m => (.ofText m.1, m.2)) := by
  cases members with
  | nil => exact .none blank_nil
  | cons m rest => exact membersOf_lines hwritten (blank_newline _) (blank_newline _)

/-- **What is written is a value of the grammar**, and so of the strict one. -/
lemma valueOf_lines {x : Json} (h : Proper x) (level : Nat) : ValueOf halves (lines level x) x := by
  induction h generalizing level with
  | null => exact .null
  | bool b => cases b with
    | false => exact .falsity
    | true => exact .truth
  | int n => exact .number (numberOf_toString n)
  | real hnumber => exact .number hnumber
  | string s => simpa [lines] using ValueOf.string (literalOf_quote s)
  | @array elements _ ih =>
    cases elements with
    | nil => exact .array (.none blank_nil)
    | cons x rest =>
      have helements := fun y hy => ih y hy (level + 1)
      have hinner := elementsOf_lines helements (blank_newline (level + 1)) (blank_newline level)
      simpa [lines] using ValueOf.array hinner
  | @object members _ ih =>
    rw [lines_object]
    simpa [Function.comp_def] using
      ValueOf.object (membersOf_innerLines fun m hm => ih m hm (level + 1))

/-- **What is written is a text of the grammar**, and so of the strict one. -/
lemma textOf_pretty {x : Json} (h : Proper x) : TextOf halves x.pretty.toList x := by
  simpa [pretty] using TextOf.mk blank_nil (valueOf_lines h 0) blank_nil

end CodeSift.Json
