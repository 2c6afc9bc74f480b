import CodeSift.Analysis
import CodeSift.Csv
import CodeSift.Json.Printer

/-!
# Reports of an analysis

A finished analysis is reported as one JSON document with everything in it, or as a table of its
instructions.  Addresses in a report are hexadecimal where they are text and plain numbers where
they are data.

In the document, only one half of every cross-reference is given, the one seen from the end that
refers.  In the table, a heading comes first unless there is no instruction at all.
-/

namespace CodeSift

inductive ReportFormat where
  | json
  | csv
deriving DecidableEq, Repr, Inhabited

namespace ReportFormat

def name : ReportFormat → String
  | .json => "json"
  | .csv => "csv"

/-- The format with the given name, in upper or lower case; or else what is wrong with the name.
No character outside ASCII has a letter of these names as its lower case. -/
def ofName (s : String) : Except String ReportFormat :=
  match s.map Char.toLower with
  | "json" => .ok .json
  | "csv" => .ok .csv
  | _ => .error ("Unknown report format: " ++ s)

end ReportFormat

namespace Report

def addressText (a : Address) : String := Hex.marked 8 a.toNat

def addressNumber (a : Address) : Json := .nat a.toNat

/-! ## The parts of the document -/

def decodeFailure : DecodeFailure → Json
  | .endOfRegion => .string "end_of_region"
  | .unassigned map opcode => .object [("unassigned_opcode", .object
      [("map", .string map.label), ("opcode", .nat opcode.toNat)])]
  | .undefinedMember opcode reg => .object [("undefined_group_member", .object
      [("opcode", .nat opcode.toNat), ("reg", .nat reg.toNat)])]
  | .memoryRequired opcode => .object [("register_form_not_allowed", .object
      [("opcode", .nat opcode.toNat)])]
  | .tooLong => .string "too_long"

def conflict : Conflict → Json
  | .decodeFailure failure => .object [("decode_failure", decodeFailure failure)]
  | .overlap => .string "overlap"
  | .swallowsAnchor => .string "swallows_anchor"
  | .insideInstruction => .string "start_inside_instruction"

def stats (s : Stats) : Json := .object [
  ("attempts", .nat s.attempts),
  ("instructions_decoded", .nat s.instructionsDecoded),
  ("recoveries", .nat s.recoveries),
  ("bytes_erased", .nat s.bytesErased),
  ("relations_erased", .nat s.relationsErased),
  ("anchor_conflicts", .nat s.anchorConflicts),
  ("rejected_seeds", .nat s.rejectedSeeds),
  ("jump_tables", .nat s.jumpTables),
  ("address_tables", .nat s.addressTables),
  ("strings", .nat s.strings),
  ("code_blocks_reclassified", .nat s.codeBlocksReclassified),
  ("code_bytes_reclassified", .nat s.codeBytesReclassified),
  ("bytes_backfilled", .nat s.bytesBackfilled),
  ("cancelled", .bool s.cancelled)]

def run (r : Run RunClass) : Json := .object [
  ("start", addressNumber r.span.start),
  ("end", addressNumber r.span.stop),
  ("kind", .string r.value.kind.label),
  ("data_class", .string r.value.dataClass.label)]

def name (entry : Address × Name) : Json := .object [
  ("address", .string (addressText entry.1)),
  ("name", .string entry.2.text),
  ("kind", .string entry.2.kind.description)]

def relation (r : CrossReference) : Json := .object [
  ("class", .int r.cls.tag.toInt),
  ("position", addressNumber r.site),
  ("reference", addressNumber r.target)]

/-- A member that is there only if its value is. -/
def optional (key : String) : Option String → List (String × Json)
  | none => []
  | some text => [(key, .string text)]

/-- An instruction, with the address it refers to and the name of that address if there are any. -/
def instruction (names : NameTable) (entry : Address × Instruction) : Json :=
  let i := entry.2
  .object (
    [("address", .string (addressText entry.1)),
      ("length", .nat i.length),
      ("opcode", .string i.opcodeText),
      ("flow", .string i.flow.label)]
    ++ optional "reference" (i.reference.map addressText)
    ++ optional "name" (i.reference.bind names.nameOf?))

def erasedSpan (e : ErasedSpan) : Json := .object [
  ("start", addressNumber e.span.start),
  ("end", addressNumber e.span.stop),
  ("cursor", addressNumber e.failure.cursor),
  ("seed", addressNumber e.failure.seed),
  ("kind", conflict e.failure.kind),
  ("relations_removed", .nat e.relationsRemoved)]

/-! ## Whole reports -/

/-- An analysis as a document. -/
def document (x : Analysis) : Json := .object [
  ("stats", stats x.stats),
  ("runs", .array (x.map.runs.map run)),
  ("names", .array (x.names.toList.map name)),
  ("relations", .array (x.index.forward.map relation)),
  ("instructions", .array (x.instructions.map (instruction x.names))),
  ("erase_history", .array (x.history.map erasedSpan))]

def heading : List String :=
  ["address", "name", "length", "opcode", "flow", "reference", "reference_name"]

def row (names : NameTable) (entry : Address × Instruction) : List String :=
  let (a, i) := entry
  [addressText a, (names.nameOf? a).getD "", toString i.length, i.opcodeText, i.flow.label,
    (i.reference.map addressText).getD "", (i.reference.bind names.nameOf?).getD ""]

/-- An analysis as a table: the heading and one row for each instruction, or nothing. -/
def table (x : Analysis) : List (List String) :=
  if x.instructions.isEmpty then [] else heading :: x.instructions.map (row x.names)

def render (format : ReportFormat) (x : Analysis) : String :=
  match format with
  | .json => (document x).pretty
  | .csv => Csv.render (table x)

end Report

end CodeSift
