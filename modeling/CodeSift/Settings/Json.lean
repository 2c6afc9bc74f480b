import CodeSift.Json.Printer
import CodeSift.Json.Reader
import CodeSift.Settings.Basic

/-!
# Settings as JSON

Settings are written as an object with one member for each field.  They are read from an object
that gives any of the fields, the others keeping their defaults; members with other keys are
passed over, whatever they hold.  A field may not be given twice.  An array is read as the values
of the first fields in order.

The processor mode may also be given as an object whose only member has the mode for its key and
null for its value.
-/

namespace CodeSift.Settings

inductive Field where
  | cpuMode
  | followImmediatePointers
  | followJumpTables
  | maxRecoveries
  | eraseHistoryLimit
  | maxAttempts
  | detectStrings
  | detectAddressTables
  | validateCode
deriving DecidableEq, Repr, Inhabited

namespace Field

/-- All fields, in the order they are written. -/
def all : List Field := [.cpuMode, .followImmediatePointers, .followJumpTables, .maxRecoveries,
  .eraseHistoryLimit, .maxAttempts, .detectStrings, .detectAddressTables, .validateCode]

def key : Field → String
  | .cpuMode => "cpu_mode"
  | .followImmediatePointers => "follow_immediate_pointers"
  | .followJumpTables => "follow_jump_tables"
  | .maxRecoveries => "max_recoveries"
  | .eraseHistoryLimit => "erase_history_limit"
  | .maxAttempts => "max_attempts"
  | .detectStrings => "detect_strings"
  | .detectAddressTables => "detect_address_tables"
  | .validateCode => "validate_code"

def ofKey? (key : String) : Option Field := all.find? fun f => f.key == key

end Field

/-! ## Writing -/

def value (s : Settings) : Field → Json
  | .cpuMode => .string s.cpuMode.label
  | .followImmediatePointers => .bool s.followImmediatePointers
  | .followJumpTables => .bool s.followJumpTables
  | .maxRecoveries => .nat s.maxRecoveries.toNat
  | .eraseHistoryLimit => .nat s.eraseHistoryLimit.toNat
  | .maxAttempts => .nat s.maxAttempts.toNat
  | .detectStrings => .bool s.detectStrings
  | .detectAddressTables => .bool s.detectAddressTables
  | .validateCode => .bool s.validateCode

def toJson (s : Settings) : Json := .object (Field.all.map fun f => (f.key, s.value f))

def render (s : Settings) : String := s.toJson.pretty

/-! ## Reading -/

def bool? : Json → Option Bool
  | .bool b => some b
  | _ => none

/-- A limit: a natural number of 64 bits. -/
def limit? : Json → Option UInt64
  | .int n => if 0 ≤ n ∧ n.toNat < UInt64.size then some (UInt64.ofNat n.toNat) else none
  | _ => none

def cpuMode? : Json → Option CpuMode
  | .string label => CpuMode.ofLabel? label
  | .object [(label, .null)] => CpuMode.ofLabel? label
  | _ => none

def setField? (s : Settings) (f : Field) (x : Json) : Option Settings :=
  match f with
  | .cpuMode => (cpuMode? x).map fun v => { s with cpuMode := v }
  | .followImmediatePointers => (bool? x).map fun v => { s with followImmediatePointers := v }
  | .followJumpTables => (bool? x).map fun v => { s with followJumpTables := v }
  | .maxRecoveries => (limit? x).map fun v => { s with maxRecoveries := v }
  | .eraseHistoryLimit => (limit? x).map fun v => { s with eraseHistoryLimit := v }
  | .maxAttempts => (limit? x).map fun v => { s with maxAttempts := v }
  | .detectStrings => (bool? x).map fun v => { s with detectStrings := v }
  | .detectAddressTables => (bool? x).map fun v => { s with detectAddressTables := v }
  | .validateCode => (bool? x).map fun v => { s with validateCode := v }

/-- The settings changed by members, none of which gives a field in `seen`. -/
def setMembers? (s : Settings) (seen : List Field) : List (String × Json) → Option Settings
  | [] => some s
  | (key, x) :: rest =>
    match Field.ofKey? key with
    | none => setMembers? s seen rest
    | some f =>
      if f ∈ seen then none
      else match s.setField? f x with
        | none => none
        | some s => setMembers? s (f :: seen) rest

/-- The settings changed by the values of the given fields, in order. -/
def setElements? (s : Settings) : List Field → List Json → Option Settings
  | _, [] => some s
  | [], _ :: _ => none
  | f :: fields, x :: rest =>
    match s.setField? f x with
    | none => none
    | some s => setElements? s fields rest

def ofJson? : Json → Option Settings
  | .object members => setMembers? {} [] members
  | .array elements => setElements? {} Field.all elements
  | _ => none

def parse? (text : String) : Option Settings := do
  match ← Json.parseTopLevel? text with
  | .elements elements => setElements? {} Field.all elements
  | .members members =>
    let members ← members.mapM fun (key, x) => key.text?.map fun key => (key, x)
    setMembers? {} [] members

/-- Why settings cannot be had from a file. -/
inductive FileError where
  | unreadable
  | invalid
deriving DecidableEq, Repr, Inhabited

def FileError.message (path : String) : FileError → String
  | .unreadable => "Failed to read config " ++ path
  | .invalid => "Invalid config " ++ path

/-- The settings in a file with the given text, if it can be read. -/
def ofFile (contents : Option String) : Except FileError Settings :=
  match contents with
  | none => .error .unreadable
  | some text => match parse? text with
    | none => .error .invalid
    | some s => .ok s

end CodeSift.Settings
