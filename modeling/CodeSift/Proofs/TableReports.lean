import CodeSift.Report
import Mathlib.Tactic.Lemma

/-!
# Table reports can be read back

The grammar of comma-separated values is given by relations between a text and what it stands for:
`FieldOf`, `RowOf` and `TableOf`.  A field stands as it is or between quotes, with its own quotes
doubled; fields are separated by commas; a line ends in a line feed, with or without a carriage
return in front of it, and the last line may go without.

`Csv.decode` reads exactly the texts of this grammar (`conforms_decode`).  A text stands for one
table only, so every reader that follows the grammar agrees with it.  What is written is a text of
the grammar, whatever characters the fields hold (`tableOf_encode`); so a report of an analysis
reads back as its heading and its rows (`table_report_reads_back`).
-/

namespace CodeSift

namespace Csv

/-! ## The grammar -/

/-- The character may stand outside quotes. -/
def isPlain (c : Char) : Bool := !(c == ',' || c == '"' || c == '\r' || c == '\n')

/-- **What stands between quotes.**  A quote is doubled, and any other character stands for
itself. -/
inductive InQuotes : List Char → List Char → Prop where
  | nil : InQuotes [] []
  | quote {written field : List Char} : InQuotes written field →
      InQuotes ('"' :: '"' :: written) ('"' :: field)
  | other {c : Char} {written field : List Char} :
      c ≠ '"' → InQuotes written field → InQuotes (c :: written) (c :: field)

/-- **How a field may be written.** -/
inductive FieldOf : List Char → List Char → Prop where
  | bare {field : List Char} : (∀ c ∈ field, isPlain c = true) → FieldOf field field
  | quoted {written field : List Char} : InQuotes written field →
      FieldOf ('"' :: (written ++ ['"'])) field

/-- **How a row may be written**, without its line end. -/
inductive RowOf : List Char → List (List Char) → Prop where
  | last {written field : List Char} : FieldOf written field → RowOf written [field]
  | comma {written field rest : List Char} {fields : List (List Char)} :
      FieldOf written field → RowOf rest fields → RowOf (written ++ ',' :: rest) (field :: fields)

/-- **How a line may end.** -/
inductive LineEnd : List Char → Prop where
  | lf : LineEnd ['\n']
  | crlf : LineEnd ['\r', '\n']

/-- **How a table may be written.**  The last line need not end, unless nothing stands on it. -/
inductive TableOf : List Char → List (List (List Char)) → Prop where
  | empty : TableOf [] []
  | unended {written : List Char} {row : List (List Char)} :
      RowOf written row → written ≠ [] → TableOf written [row]
  | line {written ending rest : List Char} {row : List (List Char)}
      {rows : List (List (List Char))} :
      RowOf written row → LineEnd ending → TableOf rest rows →
        TableOf (written ++ (ending ++ rest)) (row :: rows)

/-- **The reader follows the grammar.**  It reads the texts of tables, as those tables, and no
others. -/
def Conforms (read : List Char → Option (List (List (List Char)))) : Prop :=
  ∀ text rows, read text = some rows ↔ TableOf text rows

/-! ## Writing -/

lemma inQuotes_doubleQuotes (field : List Char) : InQuotes (doubleQuotes field) field := by
  induction field with
  | nil => exact .nil
  | cons c rest ih =>
    by_cases hquote : c = '"'
    · subst hquote
      exact .quote ih
    · simpa [doubleQuotes, hquote] using InQuotes.other hquote ih

lemma fieldOf_encodeField (field : List Char) : FieldOf (encodeField field) field := by
  rw [encodeField]
  split
  · exact .quoted (inQuotes_doubleQuotes field)
  · next hplain =>
    apply FieldOf.bare
    simpa [needsQuotes, isPlain] using hplain

lemma exists_rowOf_encodeRow {row : List (List Char)} (h : row ≠ []) :
    ∃ written, encodeRow row = written ++ ['\n'] ∧ RowOf written row := by
  induction row with
  | nil => exact absurd rfl h
  | cons field rest ih =>
    cases rest with
    | nil => exact ⟨_, rfl, .last (fieldOf_encodeField field)⟩
    | cons second others =>
      obtain ⟨written, hwritten, hrow⟩ := ih (by simp)
      refine ⟨encodeField field ++ ',' :: written, ?_, .comma (fieldOf_encodeField field) hrow⟩
      simp [encodeRow, hwritten]

/-- **What is written is a text of the table.** -/
lemma tableOf_encode {rows : List (List (List Char))} (h : ∀ row ∈ rows, row ≠ []) :
    TableOf (encode rows) rows := by
  induction rows with
  | nil => exact .empty
  | cons row rest ih =>
    obtain ⟨written, hwritten, hrow⟩ := exists_rowOf_encodeRow (h row List.mem_cons_self)
    rw [encode, List.flatMap_cons, hwritten, List.append_assoc]
    exact .line hrow .lf (ih fun r hr => h r (List.mem_cons_of_mem _ hr))

/-! ## Every text of the grammar is read -/

/-- The field is over: the text ends, or a comma or a line end comes. -/
inductive Closes : List Char → Prop where
  | ended : Closes []
  | comma (rest : List Char) : Closes (',' :: rest)
  | line {ending : List Char} (h : LineEnd ending) (rest : List Char) : Closes (ending ++ rest)

attribute [local simp] decodeFrom

/-- Where a field is over, it does not matter how it was written. -/
lemma decodeFrom_of_closes {text : List Char} (h : Closes text) {p : Place} (hp : p ≠ .quoted) :
    decodeFrom p text = decodeFrom .closed text := by
  cases h with
  | ended => cases p <;> simp_all
  | comma rest => cases p <;> simp_all
  | line hending rest => cases hending <;> cases rest <;> cases p <;> simp_all

lemma decodeFrom_plain {c : Char} (hc : isPlain c = true) {p : Place} (hp : p = .start ∨ p = .bare)
    (text : List Char) :
    decodeFrom p (c :: text) = (decodeFrom .bare text).map (extendField c) := by
  simp only [isPlain, Bool.not_eq_true', Bool.or_eq_false_iff, beq_eq_false_iff_ne] at hc
  obtain ⟨⟨⟨hcomma, hquote⟩, hcr⟩, hlf⟩ := hc
  rcases hp with rfl | rfl <;> simp [hquote, hcr, hlf]

lemma decodeFrom_bare {field : List Char} (h : ∀ c ∈ field, isPlain c = true) {text : List Char}
    (hclose : Closes text) {p : Place} (hp : p = .start ∨ p = .bare) :
    decodeFrom p (field ++ text) = (decodeFrom .closed text).map fun rows =>
      field.foldr extendField rows := by
  induction field generalizing p with
  | nil =>
    have hopen : p ≠ .quoted := by rcases hp with rfl | rfl <;> simp
    simp [decodeFrom_of_closes hclose hopen]
  | cons c rest ih =>
    obtain ⟨hc, hrest⟩ := List.forall_mem_cons.mp h
    rw [List.cons_append, decodeFrom_plain hc hp, ih hrest (.inr rfl)]
    simp [Function.comp_def]

lemma decodeFrom_inQuotes {written field : List Char} (h : InQuotes written field)
    (text : List Char) :
    decodeFrom .quoted (written ++ '"' :: text)
      = (decodeFrom .closed text).map fun rows => field.foldr extendField rows := by
  induction h with
  | nil => simp
  | quote _ ih => simp [ih, Function.comp_def]
  | other hc _ ih => simp [ih, Function.comp_def]

/-- A field is read as what it stands for. -/
lemma decodeFrom_field {written field text : List Char} (h : FieldOf written field)
    (hclose : Closes text) :
    decodeFrom .start (written ++ text)
      = (decodeFrom .closed text).map fun rows => field.foldr extendField rows := by
  cases h with
  | bare hplain => exact decodeFrom_bare hplain hclose (.inl rfl)
  | quoted hbody => simpa using decodeFrom_inQuotes hbody text

lemma foldr_extendField (field front : List Char) (fields : List (List Char))
    (rows : List (List (List Char))) :
    field.foldr extendField ((front :: fields) :: rows) = ((field ++ front) :: fields) :: rows := by
  induction field with
  | nil => rfl
  | cons c rest ih => rw [List.foldr_cons, ih]; rfl

/-- A row is read up to where its line ends. -/
lemma decodeFrom_row {written text : List Char} {row : List (List Char)}
    {rows : List (List (List Char))} (h : RowOf written row) (hclose : Closes text)
    (htext : decodeFrom .closed text = some ([[]] :: rows)) :
    decodeFrom .start (written ++ text) = some (row :: rows) := by
  induction h with
  | last hfield => simp [decodeFrom_field hfield hclose, htext, foldr_extendField]
  | comma hfield _ ih =>
    rw [List.append_assoc, List.cons_append, decodeFrom_field hfield (.comma _)]
    simp [ih, startField, foldr_extendField]

lemma decodeFrom_lineEnd {ending : List Char} (h : LineEnd ending) (text : List Char) :
    decodeFrom .closed (ending ++ text) = (decode text).map ([[]] :: ·) := by
  cases h <;> cases text <;> simp [decode]

lemma decode_of_tableOf {text : List Char} {rows : List (List (List Char))}
    (h : TableOf text rows) : decode text = some rows := by
  induction h with
  | empty => rfl
  | @unended written row hrow hsome =>
    have hread : decodeFrom .start (written ++ []) = some [row] :=
      decodeFrom_row hrow .ended (by simp)
    simpa [decode, hsome] using hread
  | @line written ending rest row rows hrow hending _ ih =>
    have hsome : written ++ (ending ++ rest) ≠ [] := by cases hending <;> simp
    rw [decode, if_neg hsome]
    exact decodeFrom_row hrow (.line hending rest) (by rw [decodeFrom_lineEnd hending, ih]; rfl)

/-! ## Nothing else is read -/

/-- How the rest of a field may be written, from a place in it on.  Behind a quote that may be the
closing one, the field is over or goes on with that quote. -/
def Continues : Place → List Char → List Char → Prop
  | .start, written, field => FieldOf written field
  | .bare, written, field => written = field ∧ ∀ c ∈ field, isPlain c = true
  | .quoted, written, field => ∃ body, InQuotes body field ∧ written = body ++ ['"']
  | .closed, written, field => (written = [] ∧ field = []) ∨
      ∃ body rest, InQuotes body rest ∧ written = '"' :: (body ++ ['"']) ∧ field = '"' :: rest

/-- What may stand behind a field: the other fields of its row, the line end, and the other rows. -/
inductive Behind : List Char → List (List Char) → List (List (List Char)) → Prop where
  | ended : Behind [] [] []
  | line {ending rest : List Char} {rows : List (List (List Char))} :
      LineEnd ending → TableOf rest rows → Behind (ending ++ rest) [] rows
  | comma {written field text : List Char} {fields : List (List Char)}
      {rows : List (List (List Char))} :
      FieldOf written field → Behind text fields rows →
        Behind (',' :: (written ++ text)) (field :: fields) rows

/-- The text stands for the rows, from a place in the first field of the first row on. -/
def Spells (p : Place) (text : List Char) (rows : List (List (List Char))) : Prop :=
  ∃ written field rest fields others, Continues p written field ∧ Behind rest fields others ∧
    text = written ++ rest ∧ rows = (field :: fields) :: others

/-- A field and what stands behind it are a row and what stands behind that. -/
lemma Behind.exists_rowOf {text : List Char} {fields : List (List Char)}
    {rows : List (List (List Char))} (h : Behind text fields rows) {written field : List Char}
    (hfield : FieldOf written field) :
    ∃ line rest, written ++ text = line ++ rest ∧ RowOf line (field :: fields) ∧
      Behind rest [] rows := by
  induction h generalizing written field with
  | ended => exact ⟨written, [], rfl, .last hfield, .ended⟩
  | line hending htable => exact ⟨written, _, rfl, .last hfield, .line hending htable⟩
  | comma hnext _ ih =>
    obtain ⟨line, rest, heq, hrow, hbehind⟩ := ih hnext
    exact ⟨written ++ ',' :: line, rest, by simp [heq], .comma hfield hrow, hbehind⟩

lemma Spells.tableOf {text : List Char} {rows : List (List (List Char))}
    (h : Spells .start text rows) (hsome : text ≠ []) : TableOf text rows := by
  obtain ⟨written, field, rest, fields, others, hfield, hbehind, rfl, rfl⟩ := h
  obtain ⟨line, after, heq, hrow, hafter⟩ := hbehind.exists_rowOf hfield
  rw [heq] at hsome ⊢
  cases hafter with
  | ended =>
    rw [List.append_nil] at hsome ⊢
    exact .unended hrow hsome
  | line hending htable => exact .line hrow hending htable

/-- A character that is not part of what the field stands for. -/
lemma Spells.skip {p q : Place} {c : Char} {text : List Char} {rows : List (List (List Char))}
    (hstep : ∀ written field, Continues p written field → Continues q (c :: written) field)
    (h : Spells p text rows) :
    Spells q (c :: text) rows := by
  obtain ⟨written, field, rest, fields, others, hfield, hbehind, rfl, rfl⟩ := h
  exact ⟨c :: written, field, rest, fields, others, hstep _ _ hfield, hbehind, rfl, rfl⟩

/-- A character of the field. -/
lemma Spells.extend {p q : Place} {c : Char} {text : List Char} {rows : List (List (List Char))}
    (hstep : ∀ written field, Continues p written field → Continues q (c :: written) (c :: field))
    (h : Spells p text rows) : Spells q (c :: text) (extendField c rows) := by
  obtain ⟨written, field, rest, fields, others, hfield, hbehind, rfl, rfl⟩ := h
  exact ⟨c :: written, c :: field, rest, fields, others, hstep _ _ hfield, hbehind, rfl, rfl⟩

lemma continues_nil {p : Place} (hp : p ≠ .quoted) : Continues p [] [] := by
  cases p with
  | start => exact .bare (by simp)
  | bare => exact ⟨rfl, by simp⟩
  | quoted => exact absurd rfl hp
  | closed => exact .inl ⟨rfl, rfl⟩

lemma spells_of_behind {p : Place} (hp : p ≠ .quoted) {text : List Char} {fields : List (List Char)}
    {rows : List (List (List Char))} (h : Behind text fields rows) :
    Spells p text (([] :: fields) :: rows) :=
  ⟨[], [], text, fields, rows, continues_nil hp, h, rfl, rfl⟩

lemma continues_quoted_of_closed (written field : List Char) (h : Continues .closed written field) :
    Continues .quoted ('"' :: written) field := by
  obtain ⟨rfl, rfl⟩ | ⟨body, rest, hbody, rfl, rfl⟩ := h
  · exact ⟨[], .nil, rfl⟩
  · exact ⟨'"' :: '"' :: body, .quote hbody, rfl⟩

lemma continues_plain {c : Char} (hc : isPlain c = true) {p : Place} (hp : p = .start ∨ p = .bare)
    (written field : List Char) (h : Continues .bare written field) :
    Continues p (c :: written) (c :: field) := by
  obtain ⟨rfl, hplain⟩ := h
  have hall : ∀ d ∈ c :: written, isPlain d = true := List.forall_mem_cons.mpr ⟨hc, hplain⟩
  rcases hp with rfl | rfl
  · exact .bare hall
  · exact ⟨rfl, hall⟩

-- The induction is on the reader's own recursion; each case puts one character in front of what the
-- rest spells.
lemma spells_of_decodeFrom {p : Place} {text : List Char} {rows : List (List (List Char))}
    (h : decodeFrom p text = some rows) : Spells p text rows := by
  fun_induction decodeFrom p text generalizing rows with
  | case1 => cases h
  | case2 rest ih => exact (ih h).skip continues_quoted_of_closed
  | case3 c rest hc ih =>
    obtain ⟨read, hread, rfl⟩ := Option.map_eq_some_iff.mp h
    apply (ih hread).extend
    rintro _ field ⟨body, hbody, rfl⟩
    exact ⟨c :: body, .other hc hbody, rfl⟩
  | case4 rest ih =>
    apply (ih h).skip
    rintro _ field ⟨body, hbody, rfl⟩
    exact .quoted hbody
  | case5 rest ih =>
    obtain ⟨read, hread, rfl⟩ := Option.map_eq_some_iff.mp h
    apply (ih hread).extend
    rintro _ field ⟨body, hbody, rfl⟩
    exact .inr ⟨body, field, hbody, rfl, rfl⟩
  | case6 => cases h
  | case7 p hp =>
    cases h
    exact spells_of_behind hp .ended
  | case8 p hp =>
    cases h
    exact spells_of_behind hp (.line .lf .empty)
  | case9 p hp =>
    cases h
    exact spells_of_behind hp (.line .crlf .empty)
  | case10 p rest hp hsome ih =>
    obtain ⟨read, hread, rfl⟩ := Option.map_eq_some_iff.mp h
    exact spells_of_behind hp (.line .lf ((ih hread).tableOf hsome))
  | case11 p rest hp hsome ih =>
    obtain ⟨read, hread, rfl⟩ := Option.map_eq_some_iff.mp h
    exact spells_of_behind hp (.line .crlf ((ih hread).tableOf hsome))
  | case12 => cases h
  | case13 p rest hp ih =>
    obtain ⟨read, hread, rfl⟩ := Option.map_eq_some_iff.mp h
    obtain ⟨written, field, after, fields, others, hfield, hbehind, rfl, rfl⟩ := ih hread
    exact spells_of_behind hp (.comma hfield hbehind)
  | case14 => cases h
  | case15 p c rest _ hquoted hstart _ hbare _ _ hlf _ hcr hcomma hclosed ih =>
    obtain ⟨read, hread, rfl⟩ := Option.map_eq_some_iff.mp h
    have hp : p = .start ∨ p = .bare := by cases p <;> simp_all
    have hc : isPlain c = true := by
      have hquote : c ≠ '"' := hp.elim hstart hbare
      simp [isPlain, hquote, Ne.intro hlf, Ne.intro hcr, Ne.intro hcomma]
    exact (ih hread).extend (continues_plain hc hp)

/-- **`decode` follows the grammar.** -/
lemma conforms_decode : Conforms decode := by
  intro text rows
  refine ⟨fun h => ?_, decode_of_tableOf⟩
  by_cases hsome : text = []
  · subst hsome
    cases h
    exact .empty
  · rw [decode, if_neg hsome] at h
    exact (spells_of_decodeFrom h).tableOf hsome

-- The quotes are not needed around the first field, are around the second, and the last line does
-- not end.
example : decode "\"a\",\"b\"\"\r\n\"\r\nc".toList
    = some [["a".toList, "b\"\r\n".toList], ["c".toList]] := by decide +kernel

end Csv

/-! ## Numerals -/

namespace Hex

/-- `n` in hexadecimal, with zeros in front up to the width. -/
def padded (width n : Nat) : String := String.ofList ((Nat.toDigits 16 n).leftpad width '0')

lemma digit_eq_digitChar {n : Nat} (h : n < 16) : digit n = n.digitChar := by
  revert n
  decide

/-- The digits of a number, none for zero. -/
def significant (n : Nat) : List Char := if n = 0 then [] else Nat.toDigits 16 n

lemma significant_of_pos {n : Nat} (h : n ≠ 0) :
    significant n = significant (n / 16) ++ [digit (n % 16)] := by
  rw [digit_eq_digitChar (Nat.mod_lt n (by decide))]
  by_cases hlt : n < 16
  · have hzero : n / 16 = 0 := by omega
    simp [significant, h, hzero, Nat.toDigits_of_lt_base hlt, Nat.mod_eq_of_lt hlt]
  · have hpos : n / 16 ≠ 0 := by omega
    simp [significant, h, hpos,
      Nat.toDigits_of_base_le (b := 16) (by decide) (Nat.le_of_not_lt hlt)]

lemma digits_eq_leftpad (width n : Nat) (tail : List Char) :
    digits width n tail = (significant n).leftpad width '0' ++ tail := by
  induction width generalizing n tail with
  | zero => by_cases h : n = 0 <;> simp [digits, significant, List.leftpad, h]
  | succ width ih =>
    rw [digits, ih]
    by_cases h : n = 0
    · subst h
      simp [significant, List.leftpad, List.replicate_succ', digit]
    · rw [significant_of_pos h]
      simp [List.leftpad]

/-- **Numerals are padded to their width.** -/
lemma lower_eq_padded {width : Nat} (hwidth : 0 < width) (n : Nat) :
    lower width n = padded width n := by
  rw [lower, padded, digits_eq_leftpad, List.append_nil]
  by_cases h : n = 0
  · obtain ⟨w, rfl⟩ : ∃ w, width = w + 1 := ⟨width - 1, by omega⟩
    subst h
    simp [significant, List.leftpad, List.replicate_succ']
  · rw [significant, if_neg h]

end Hex

/-! ## The report of an analysis -/

namespace Report

lemma row_eq (names : NameTable) (a : Address) (i : Instruction) : row names (a, i) =
    ["0x" ++ Hex.padded 8 a.toNat,
      (names.nameOf? a).getD "",
      toString i.length,
      " ".intercalate ((i.map.escape ++ [i.opcode]).map fun b => Hex.padded 2 b.toNat),
      i.flow.label,
      (i.reference.map fun r => "0x" ++ Hex.padded 8 r.toNat).getD "",
      (i.reference.bind names.nameOf?).getD ""] := by
  have haddress : addressText = fun a => "0x" ++ Hex.padded 8 a.toNat := by
    funext a
    rw [addressText, Hex.marked, Hex.lower_eq_padded (by decide)]
  have hbyte : (fun b : UInt8 => Hex.lower 2 b.toNat) = fun b => Hex.padded 2 b.toNat := by
    funext b
    exact Hex.lower_eq_padded (by decide) _
  rw [row, haddress, Instruction.opcodeText, hbyte]

lemma ne_nil_of_mem_table {x : Analysis} {fields : List String} (h : fields ∈ table x) :
    fields ≠ [] := by
  rw [table] at h
  split at h
  · simp at h
  · rcases List.mem_cons.mp h with rfl | hrow
    · simp [heading]
    · obtain ⟨entry, _, rfl⟩ := List.mem_map.mp hrow
      simp [row]

/-- The text of a report is a text of its table. -/
lemma tableOf_render (x : Analysis) :
    Csv.TableOf (render .csv x).toList ((table x).map fun fields => fields.map String.toList) := by
  rw [render, Csv.render, String.toList_ofList]
  apply Csv.tableOf_encode
  intro fields hfields
  obtain ⟨texts, htexts, rfl⟩ := List.mem_map.mp hfields
  simpa using ne_nil_of_mem_table htexts

/-- **A table report reads back**, by every reader that follows the grammar, as `decode` does: as
nothing if there is no instruction, and else as the heading and one row of seven fields for each
instruction, in order. -/
theorem table_report_reads_back (x : Analysis) : Csv.Conforms Csv.decode ∧
    ∀ read, Csv.Conforms read → read (render .csv x).toList = some (
      (if x.instructions = [] then [] else
        ["address", "name", "length", "opcode", "flow", "reference", "reference_name"] ::
        x.instructions.map fun entry =>
          ["0x" ++ Hex.padded 8 entry.1.toNat,
            (x.names.nameOf? entry.1).getD "",
            toString entry.2.length,
            " ".intercalate ((entry.2.map.escape ++ [entry.2.opcode]).map
              fun b => Hex.padded 2 b.toNat),
            entry.2.flow.label,
            (entry.2.reference.map fun r => "0x" ++ Hex.padded 8 r.toNat).getD "",
            (entry.2.reference.bind x.names.nameOf?).getD ""]).map
        fun fields => fields.map String.toList) := by
  refine ⟨Csv.conforms_decode, fun read hread => ?_⟩
  rw [(hread _ _).mpr (tableOf_render x), table]
  simp only [List.isEmpty_iff, ← row_eq]
  rfl

/-- A far conditional jump to itself, at an address whose name holds all the characters that need
quotes. -/
theorem table_report_reads_back_quoted :
    let x : Analysis :=
      { map := ByteMap.ofSpans []
        index := ReferenceIndex.empty
        names := ⟨(∅ : Std.TreeMap Address Name).insert 0x401000 ⟨"\",\r\n", .exported⟩⟩
        instructions := [(0x401000, { (default : Instruction) with
          map := .secondary, opcode := 0x84, length := 6, reference := some 0x401000 })]
        stats := {}
        history := [] }
    Csv.Conforms Csv.decode ∧ Csv.decode (render .csv x).toList = some
      ([["address", "name", "length", "opcode", "flow", "reference", "reference_name"],
        ["0x00401000", "\",\r\n", "6", "0f 84", "conditional_jump", "0x00401000", "\",\r\n"]].map
        fun fields => fields.map String.toList) := by
  intro x
  refine ⟨Csv.conforms_decode, ?_⟩
  rw [(table_report_reads_back x).2 _ Csv.conforms_decode]
  decide +kernel

end Report

end CodeSift
