import CodeSift.Proofs.JsonReading
import CodeSift.Report

/-!
# Document reports can be read back

A report in JSON is read back in two steps.  A strict reader makes a document of its text; since the
text is one of the strict grammar, whatever characters the names hold, every strict reader makes the
same document of it (`Json.textOf_pretty`).  Then the document is read as what it tells about an
analysis (`Contents.ofJson?`): objects by their keys, enumerations by their names, addresses as
numbers or in hexadecimal.  The second step is defined here, without the functions that write.

`document_report_reads_back` puts the two together: what is read back are the values of the
analysis.
-/

namespace CodeSift.Report

/-! ## The contents of a report -/

/-- What a report tells about an instruction. -/
structure Line where
  address : Address
  length : Nat
  /-- The opcode with the bytes that select its map. -/
  opcode : List UInt8
  flow : Flow
  reference : Option Address
  /-- The name of the address that is referred to. -/
  name : Option String
deriving DecidableEq

/-- What a report tells about an analysis. -/
structure Contents where
  stats : Stats
  runs : List (Run RunClass)
  names : List (Address × Name)
  relations : List CrossReference
  instructions : List Line
  history : List ErasedSpan
deriving DecidableEq

/-- What a report is to tell about an instruction. -/
def Line.ofInstruction (names : NameTable) (entry : Address × Instruction) : Line where
  address := entry.1
  length := entry.2.length
  opcode := entry.2.map.escape ++ [entry.2.opcode]
  flow := entry.2.flow
  reference := entry.2.reference
  name := entry.2.reference.bind names.nameOf?

/-- What a report is to tell about an analysis.  Of the cross-references, these are the halves seen
from the end that refers, in the order of the index. -/
def Contents.ofAnalysis (x : Analysis) : Contents where
  stats := x.stats
  runs := x.map.runs
  names := x.names.toList
  relations := x.index.toList.filter fun r => !r.cls.isReverse
  instructions := x.instructions.map (.ofInstruction x.names)
  history := x.history

/-! ## Reading values -/

/-- The members of an object in which no key is repeated. -/
def members? : Json → Option (List (String × Json))
  | .object members => if (members.map Prod.fst).Nodup then some members else none
  | _ => none

/-- The elements of an array, each of them read. -/
def elements? {α : Type} (read? : Json → Option α) : Json → Option (List α)
  | .array elements => elements.mapM read?
  | _ => none

/-- A text. -/
def text? : Json → Option String
  | .string s => some s
  | _ => none

/-- A truth value. -/
def flag? : Json → Option Bool
  | .bool b => some b
  | _ => none

/-- A natural number. -/
def number? : Json → Option Nat
  | .int (.ofNat n) => some n
  | _ => none

/-- A byte. -/
def byte? (x : Json) : Option UInt8 := do
  let n ← number? x
  if n < UInt8.size then some (UInt8.ofNat n) else none

/-- An address as a number. -/
def address? (x : Json) : Option Address := do
  let n ← number? x
  if n < UInt32.size then some (UInt32.ofNat n) else none

/-- A tag of a cross-reference. -/
def tag? : Json → Option Int8
  | .int n => if -128 ≤ n ∧ n < 128 then some (Int8.ofInt n) else none
  | _ => none

/-- The number with one more hexadecimal digit behind it. -/
def appendDigit? (n : Nat) (c : Char) : Option Nat := (Json.hexValue? c).map fun d => 16 * n + d

/-- The number that hexadecimal digits spell. -/
def hexNumber? (digits : List Char) : Option Nat := digits.foldlM appendDigit? 0

/-- An address in eight hexadecimal digits behind `0x`. -/
def addressText? : Json → Option Address
  | .string s =>
    match s.toList with
    | '0' :: 'x' :: digits =>
      if digits.length = 8 then (hexNumber? digits).map UInt32.ofNat else none
    | _ => none
  | _ => none

/-- Bytes in two hexadecimal digits each, with blanks between them. -/
def hexBytes? : List Char → Option (List UInt8)
  | [a, b] => (hexNumber? [a, b]).map fun n => [UInt8.ofNat n]
  | a :: b :: ' ' :: rest => do return UInt8.ofNat (← hexNumber? [a, b]) :: (← hexBytes? rest)
  | _ => none

/-- What is read from a member that need not be there. -/
def optional? {α : Type} (read? : Json → Option α) : Option Json → Option (Option α)
  | none => some none
  | some x => (read? x).map some

/-! ## Reading names of enumerations -/

def byteKind? : String → Option ByteKind
  | "unprocessed" => some .unprocessed
  | "instruction_start" => some .instructionStart
  | "instruction_body" => some .instructionBody
  | "data_byte" => some .data
  | _ => none

def dataClass? : String → Option DataClass
  | "none" => some .none
  | "pointer_table" => some .pointerTable
  | "ascii_string" => some .asciiString
  | "pascal_string" => some .pascalString
  | "wide_string" => some .wideString
  | "raw" => some .raw
  | _ => none

def nameKind? : String → Option NameKind
  | "entry" => some .entry
  | "export" => some .exported
  | "import" => some .imported
  | "function" => some .function
  | "label" => some .label
  | "table" => some .table
  | "data" => some .data
  | _ => none

def flow? : String → Option Flow
  | "sequential" => some .sequential
  | "call" => some .call
  | "call_indirect" => some .callIndirect
  | "jump" => some .jump
  | "jump_indirect" => some .jumpIndirect
  | "conditional_jump" => some .conditionalJump
  | "return" => some .return
  | _ => none

def opcodeMap? : String → Option OpcodeMap
  | "one_byte" => some .primary
  | "two_byte" => some .secondary
  | "three_byte38" => some .map38
  | "three_byte3_a" => some .map3A
  | _ => none

/-! ## Reading the parts of a report -/

/-- The counts. -/
def stats? (x : Json) : Option Stats := do
  let members ← members? x
  let count (key : String) : Option Nat := members.lookup key >>= number?
  return {
    attempts := ← count "attempts"
    instructionsDecoded := ← count "instructions_decoded"
    recoveries := ← count "recoveries"
    bytesErased := ← count "bytes_erased"
    relationsErased := ← count "relations_erased"
    anchorConflicts := ← count "anchor_conflicts"
    rejectedSeeds := ← count "rejected_seeds"
    jumpTables := ← count "jump_tables"
    addressTables := ← count "address_tables"
    strings := ← count "strings"
    codeBlocksReclassified := ← count "code_blocks_reclassified"
    codeBytesReclassified := ← count "code_bytes_reclassified"
    bytesBackfilled := ← count "bytes_backfilled"
    cancelled := ← members.lookup "cancelled" >>= flag? }

/-- A span, by its two ends. -/
def span? (members : List (String × Json)) : Option Span := do
  return ⟨← members.lookup "start" >>= address?, ← members.lookup "end" >>= address?⟩

/-- A run of bytes. -/
def run? (x : Json) : Option (Run RunClass) := do
  let members ← members? x
  let kind ← members.lookup "kind" >>= text? >>= byteKind?
  let dataClass ← members.lookup "data_class" >>= text? >>= dataClass?
  return ⟨← span? members, ⟨kind, dataClass⟩⟩

/-- A named address. -/
def name? (x : Json) : Option (Address × Name) := do
  let members ← members? x
  let kind ← members.lookup "kind" >>= text? >>= nameKind?
  return (← members.lookup "address" >>= addressText?, ⟨← members.lookup "name" >>= text?, kind⟩)

/-- A cross-reference. -/
def relation? (x : Json) : Option CrossReference := do
  let members ← members? x
  let tag ← members.lookup "class" >>= tag?
  return ⟨⟨tag⟩, ← members.lookup "position" >>= address?,
    ← members.lookup "reference" >>= address?⟩

/-- An instruction. -/
def line? (x : Json) : Option Line := do
  let members ← members? x
  return {
    address := ← members.lookup "address" >>= addressText?
    length := ← members.lookup "length" >>= number?
    opcode := ← members.lookup "opcode" >>= text? >>= fun s => hexBytes? s.toList
    flow := ← members.lookup "flow" >>= text? >>= flow?
    reference := ← optional? addressText? (members.lookup "reference")
    name := ← optional? text? (members.lookup "name") }

/-- A decode failure: its name, or an object with the name as the only key and more about it behind
the key. -/
def decodeFailure? : Json → Option DecodeFailure
  | .string "end_of_region" => some .endOfRegion
  | .string "too_long" => some .tooLong
  | .object [("unassigned_opcode", x)] => do
    let members ← members? x
    return .unassigned (← members.lookup "map" >>= text? >>= opcodeMap?)
      (← members.lookup "opcode" >>= byte?)
  | .object [("undefined_group_member", x)] => do
    let members ← members? x
    return .undefinedMember (← members.lookup "opcode" >>= byte?) (← members.lookup "reg" >>= byte?)
  | .object [("register_form_not_allowed", x)] => do
    let members ← members? x
    return .memoryRequired (← members.lookup "opcode" >>= byte?)
  | _ => none

/-- A conflict. -/
def conflict? : Json → Option Conflict
  | .string "overlap" => some .overlap
  | .string "swallows_anchor" => some .swallowsAnchor
  | .string "start_inside_instruction" => some .insideInstruction
  | .object [("decode_failure", x)] => (decodeFailure? x).map .decodeFailure
  | _ => none

/-- A span that was given up. -/
def erasedSpan? (x : Json) : Option ErasedSpan := do
  let members ← members? x
  let seed ← members.lookup "seed" >>= address?
  let cursor ← members.lookup "cursor" >>= address?
  let kind ← members.lookup "kind" >>= conflict?
  return ⟨← span? members, ⟨seed, cursor, kind⟩, ← members.lookup "relations_removed" >>= number?⟩

/-- The contents of a report. -/
def Contents.ofJson? (x : Json) : Option Contents := do
  let members ← members? x
  return {
    stats := ← members.lookup "stats" >>= stats?
    runs := ← members.lookup "runs" >>= elements? run?
    names := ← members.lookup "names" >>= elements? name?
    relations := ← members.lookup "relations" >>= elements? relation?
    instructions := ← members.lookup "instructions" >>= elements? line?
    history := ← members.lookup "erase_history" >>= elements? erasedSpan? }

/-! ## Values read back -/

@[simp] lemma text?_string (s : String) : text? (.string s) = some s := rfl

@[simp] lemma flag?_bool (b : Bool) : flag? (.bool b) = some b := rfl

@[simp] lemma number?_nat (n : Nat) : number? (.nat n) = some n := rfl

@[simp] lemma byte?_nat (b : UInt8) : byte? (.nat b.toNat) = some b := by
  simp [byte?, b.toNat_lt]

@[simp] lemma address?_addressNumber (a : Address) : address? (addressNumber a) = some a := by
  simp [address?, addressNumber, a.toNat_lt]

@[simp] lemma tag?_toInt (tag : Int8) : tag? (.int tag.toInt) = some tag := by
  have hrange : -128 ≤ tag.toInt ∧ tag.toInt < 128 := ⟨tag.le_toInt, tag.toInt_lt⟩
  simp [tag?, hrange]

/-- A list is read back if each of its elements is. -/
lemma elements?_map {α β : Type} {read? : Json → Option β} {write : α → Json} {value : α → β}
    (h : ∀ x, read? (write x) = some (value x)) (xs : List α) :
    elements? read? (.array (xs.map write)) = some (xs.map value) := by
  have hread : read? ∘ write = fun x => pure (value x) := funext h
  rw [elements?, List.mapM_map, hread, List.mapM_pure]
  rfl

lemma appendDigit?_last (n : Nat) : appendDigit? (n / 16) (Hex.digit (n % 16)) = some n := by
  have hlast : Json.HexDigitOf (Hex.digit (n % 16)) (n % 16) :=
    Json.hexDigitOf_digit (Nat.mod_lt n (by decide))
  rw [appendDigit?, Json.hexValue?_of_hexDigitOf hlast, Option.map_some, Nat.div_add_mod]

-- The tail is kept general, since the last digit of the number is put in front of it before the
-- others are.
lemma foldlM_digits {width n : Nat} (h : n < 16 ^ width) (tail : List Char) :
    (Hex.digits width n tail).foldlM appendDigit? 0 = tail.foldlM appendDigit? n := by
  induction width generalizing n tail with
  | zero =>
    obtain rfl : n = 0 := by simpa using h
    rfl
  | succ width ih =>
    have hfront : n / 16 < 16 ^ width := Nat.div_lt_of_lt_mul (by rwa [Nat.pow_succ'] at h)
    simp [Hex.digits, ih hfront, appendDigit?_last]

lemma length_digits {width n : Nat} (h : n < 16 ^ width) (tail : List Char) :
    (Hex.digits width n tail).length = width + tail.length := by
  induction width generalizing n tail with
  | zero =>
    obtain rfl : n = 0 := by simpa using h
    simp [Hex.digits]
  | succ width ih =>
    have hfront : n / 16 < 16 ^ width := Nat.div_lt_of_lt_mul (by rwa [Nat.pow_succ'] at h)
    simp [Hex.digits, ih hfront]
    omega

lemma hexNumber?_digits {width n : Nat} (h : n < 16 ^ width) :
    hexNumber? (Hex.digits width n []) = some n :=
  foldlM_digits h []

@[simp] lemma addressText?_addressText (a : Address) :
    addressText? (.string (addressText a)) = some a := by
  have hlt : a.toNat < 16 ^ 8 := a.toNat_lt
  simp [addressText?, addressText, Hex.marked, Hex.lower, length_digits hlt, hexNumber?_digits hlt]

lemma exists_pair (b : UInt8) : ∃ high low, (Hex.lower 2 b.toNat).toList = [high, low] ∧
    hexNumber? [high, low] = some b.toNat := by
  have hlt : b.toNat < 16 ^ 2 := b.toNat_lt
  rw [Hex.lower, String.toList_ofList]
  match hdigits : Hex.digits 2 b.toNat [], length_digits hlt [] with
  | [high, low], _ => exact ⟨high, low, rfl, hdigits ▸ hexNumber?_digits hlt⟩

lemma hexBytes?_intercalate {bytes : List UInt8} (h : bytes ≠ []) :
    hexBytes? (" ".intercalate (bytes.map fun b => Hex.lower 2 b.toNat)).toList = some bytes := by
  induction bytes with
  | nil => exact absurd rfl h
  | cons b rest ih =>
    obtain ⟨high, low, hpair, hread⟩ := exists_pair b
    cases rest with
    | nil => simp [hpair, hexBytes?, hread]
    | cons second others =>
      have hrest := ih (List.cons_ne_nil second others)
      simp only [List.map_cons, String.intercalate_cons_cons, String.toList_append,
        hpair] at hrest ⊢
      simp [hexBytes?, hread, hrest, -String.toList_intercalate]

/-! ## Names of enumerations read back -/

@[simp] lemma byteKind?_label (k : ByteKind) : byteKind? k.label = some k := by cases k <;> rfl

@[simp] lemma dataClass?_label (c : DataClass) : dataClass? c.label = some c := by cases c <;> rfl

@[simp] lemma nameKind?_description (k : NameKind) : nameKind? k.description = some k := by
  cases k <;> rfl

@[simp] lemma flow?_label (f : Flow) : flow? f.label = some f := by cases f <;> rfl

@[simp] lemma opcodeMap?_label (m : OpcodeMap) : opcodeMap? m.label = some m := by cases m <;> rfl

/-! ## The parts of a report read back -/

lemma members?_object {members : List (String × Json)} (h : (members.map Prod.fst).Nodup) :
    members? (.object members) = some members := if_pos h

section Parts

lemma lookup_cons_of_ne {key other : String} (h : key ≠ other) (x : Json)
    (rest : List (String × Json)) : ((other, x) :: rest).lookup key = rest.lookup key := by
  rw [List.lookup_cons, beq_false_of_ne h]

attribute [local simp] lookup_cons_of_ne

lemma stats?_stats (s : Stats) : stats? (stats s) = some s := by
  rw [stats?, stats, members?_object (by simp)]
  -- The keys are fixed, so the lookups evaluate.
  rfl

lemma run?_run (r : Run RunClass) : run? (run r) = some r := by
  rw [run?, run, members?_object (by simp)]
  simp [span?]

lemma name?_name (named : Address × Name) : name? (name named) = some named := by
  rw [name?, name, members?_object (by simp)]
  simp

lemma relation?_relation (r : CrossReference) : relation? (relation r) = some r := by
  rw [relation?, relation, members?_object (by simp)]
  simp

lemma line?_instruction (names : NameTable) (entry : Address × Instruction) :
    line? (instruction names entry) = some (.ofInstruction names entry) := by
  obtain ⟨a, i⟩ := entry
  have hopcode : hexBytes? i.opcodeText.toList = some (i.map.escape ++ [i.opcode]) :=
    hexBytes?_intercalate (by simp)
  cases hreference : i.reference with
  | none =>
    rw [line?, instruction, members?_object (by simp [hreference, optional])]
    simp [Line.ofInstruction, hreference, optional, optional?, hopcode]
  | some r =>
    cases hname : names.nameOf? r with
    | none =>
      rw [line?, instruction, members?_object (by simp [hreference, hname, optional])]
      simp [Line.ofInstruction, hreference, hname, optional, optional?, hopcode]
    | some text =>
      rw [line?, instruction, members?_object (by simp [hreference, hname, optional])]
      simp [Line.ofInstruction, hreference, hname, optional, optional?, hopcode]

lemma decodeFailure?_decodeFailure (f : DecodeFailure) :
    decodeFailure? (decodeFailure f) = some f := by
  cases f with
  | endOfRegion => rfl
  | unassigned map opcode =>
    rw [decodeFailure, decodeFailure?, members?_object (by simp)]
    simp
  | undefinedMember opcode reg =>
    rw [decodeFailure, decodeFailure?, members?_object (by simp)]
    simp
  | memoryRequired opcode =>
    rw [decodeFailure, decodeFailure?, members?_object (by simp)]
    simp
  | tooLong => rfl

lemma conflict?_conflict (c : Conflict) : conflict? (conflict c) = some c := by
  cases c with
  | decodeFailure f => rw [conflict, conflict?, decodeFailure?_decodeFailure]; rfl
  | overlap => rfl
  | swallowsAnchor => rfl
  | insideInstruction => rfl

lemma erasedSpan?_erasedSpan (e : ErasedSpan) : erasedSpan? (erasedSpan e) = some e := by
  rw [erasedSpan?, erasedSpan, members?_object (by simp)]
  simp [span?, conflict?_conflict]

/-- **The document tells everything about the analysis.** -/
lemma ofJson?_document (x : Analysis) : Contents.ofJson? (document x) = some (.ofAnalysis x) := by
  rw [Contents.ofJson?, document, members?_object (by simp)]
  simp [stats?_stats, elements?_map run?_run, elements?_map name?_name,
    elements?_map relation?_relation, elements?_map (line?_instruction x.names),
    elements?_map erasedSpan?_erasedSpan]
  rfl

end Parts

/-! ## The document can be written -/

lemma proper_conflict (c : Conflict) : (conflict c).Proper := by
  cases c with
  | decodeFailure f => cases f <;> simp [conflict, decodeFailure]
  | overlap | swallowsAnchor | insideInstruction => simp [conflict]

lemma proper_instruction (names : NameTable) (entry : Address × Instruction) :
    (instruction names entry).Proper := by
  have hoptional (key : String) (t : Option String) : ∀ m ∈ optional key t, m.2.Proper := by
    cases t <;> simp [optional]
  simp only [instruction, Json.proper_object_iff, List.forall_mem_append]
  exact ⟨⟨by simp, hoptional _ _⟩, hoptional _ _⟩

lemma proper_array_map {α : Type} {write : α → Json} (h : ∀ x, (write x).Proper) (xs : List α) :
    (Json.array (xs.map write)).Proper :=
  .array (List.forall_mem_map.mpr fun x _ => h x)

lemma proper_document (x : Analysis) : (document x).Proper := by
  have hstats : (stats x.stats).Proper := by simp [stats]
  have hrun (r : Run RunClass) : (run r).Proper := by simp [run, addressNumber]
  have hname (named : Address × Name) : (name named).Proper := by simp [name]
  have hrelation (r : CrossReference) : (relation r).Proper := by simp [relation, addressNumber]
  have herased (e : ErasedSpan) : (erasedSpan e).Proper := by
    simp [erasedSpan, addressNumber, proper_conflict]
  rw [document, Json.proper_object_iff]
  simp only [List.forall_mem_cons, List.not_mem_nil, false_implies, implies_true, and_true]
  exact ⟨hstats, proper_array_map hrun _, proper_array_map hname _, proper_array_map hrelation _,
    proper_array_map (proper_instruction x.names) _, proper_array_map herased _⟩

/-! ## The report of an analysis -/

/-- **A document report reads back.**  Whatever characters its names hold, every strict reader makes
a document of it, as `Json.parse?` does, and what the document tells are the values of the
analysis. -/
theorem document_report_reads_back (x : Analysis) : Json.Strict Json.parse? ∧
    ∀ read, Json.Strict read → (read (render .json x)).bind Contents.ofJson? =
      some (.ofAnalysis x) := by
  refine ⟨Json.strict_parse?, fun read hread => ?_⟩
  rw [render, hread.reads (Json.textOf_pretty (proper_document x)), Option.bind_some,
    ofJson?_document]

/-- A far conditional jump to an address whose name holds a quote, a backslash, control characters
and a character beyond the basic plane; and a span given up for an opcode that is not assigned. -/
theorem document_report_reads_back_escaped :
    let history : List ErasedSpan :=
      [⟨⟨0x401000, 0x401006⟩, ⟨0x401000, 0x401003, .decodeFailure (.unassigned .map38 0xff)⟩, 2⟩]
    let x : Analysis :=
      { map := ByteMap.ofSpans [⟨0x401000, 0x401008⟩]
        index := ReferenceIndex.empty.insert ⟨.branch, 0x401000, 0x401006⟩
        names := ⟨(∅ : Std.TreeMap Address Name).insert 0x401006 ⟨"\"\\\n\x00\x7f😀", .exported⟩⟩
        instructions := [(0x401000, { (default : Instruction) with
          map := .secondary, opcode := 0x84, length := 6, reference := some 0x401006 })]
        stats := { attempts := 3, cancelled := true }
        history := history }
    Json.Strict Json.parse? ∧ (Json.parse? (render .json x)).bind Contents.ofJson? = some
      { stats := { attempts := 3, cancelled := true }
        runs := [⟨⟨0x401000, 0x401008⟩, ⟨.unprocessed, .none⟩⟩]
        names := [(0x401006, ⟨"\"\\\n\x00\x7f😀", .exported⟩)]
        relations := [⟨.branch, 0x401000, 0x401006⟩]
        instructions :=
          [⟨0x401000, 6, [0x0f, 0x84], .conditionalJump, some 0x401006, some "\"\\\n\x00\x7f😀"⟩]
        history := history } := by
  intro history x
  refine ⟨Json.strict_parse?, ?_⟩
  rw [(document_report_reads_back x).2 _ Json.strict_parse?]
  decide +kernel

end CodeSift.Report
