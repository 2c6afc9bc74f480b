/-!
# Tables of comma-separated values

A row is written as its fields with commas between them and a line feed behind.  A field that
holds a comma, a quote or a line end is enclosed in quotes, and its quotes are doubled; any other
field is written as it is.

`decode` reads every table in this format, whether or not its quotes are needed.  Lines may also
end in a carriage return and a line feed, and the last line need not end at all.  A quote in a
field without quotes, text behind a closing quote, and a lone carriage return are refused.
-/

namespace CodeSift.Csv

/-! ## Writing -/

def needsQuotes (field : List Char) : Bool :=
  field.any fun c => c == ',' || c == '"' || c == '\r' || c == '\n'

/-- The field with its quotes doubled. -/
def doubleQuotes (field : List Char) : List Char :=
  field.flatMap fun c => if c = '"' then ['"', '"'] else [c]

def encodeField (field : List Char) : List Char :=
  if needsQuotes field then '"' :: (doubleQuotes field ++ ['"']) else field

def encodeRow : List (List Char) → List Char
  | [] => ['\n']
  | [field] => encodeField field ++ ['\n']
  | field :: rest => encodeField field ++ ',' :: encodeRow rest

def encode (rows : List (List (List Char))) : List Char := rows.flatMap encodeRow

def render (rows : List (List String)) : String :=
  String.ofList (encode (rows.map fun row => row.map String.toList))

/-! ## Reading -/

/-- Where a reader stands in a field. -/
inductive Place where
  | start
  | bare
  /-- Between the quotes of a field. -/
  | quoted
  /-- Behind a quote that may be the closing one. -/
  | closed
deriving DecidableEq, Repr, Inhabited

/-- Puts a character in front of the first field. -/
def extendField (c : Char) : List (List (List Char)) → List (List (List Char))
  | (field :: fields) :: rows => ((c :: field) :: fields) :: rows
  | rows => rows

/-- Puts an empty field in front of the first row. -/
def startField : List (List (List Char)) → List (List (List Char))
  | fields :: rows => ([] :: fields) :: rows
  | [] => [[[]]]

/-- The rows from a place in a field on; what remains of that field is the first one of them. -/
def decodeFrom : Place → List Char → Option (List (List (List Char)))
  | .quoted, [] => none
  | .quoted, '"' :: rest => decodeFrom .closed rest
  | .quoted, c :: rest => (decodeFrom .quoted rest).map (extendField c)
  | .start, '"' :: rest => decodeFrom .quoted rest
  | .closed, '"' :: rest => (decodeFrom .quoted rest).map (extendField '"')
  | .bare, '"' :: _ => none
  | _, [] | _, ['\n'] | _, ['\r', '\n'] => some [[[]]]
  | _, '\n' :: rest => (decodeFrom .start rest).map ([[]] :: ·)
  | _, '\r' :: '\n' :: rest => (decodeFrom .start rest).map ([[]] :: ·)
  | _, '\r' :: _ => none
  | _, ',' :: rest => (decodeFrom .start rest).map startField
  | .closed, _ :: _ => none
  | _, c :: rest => (decodeFrom .bare rest).map (extendField c)

def decode (text : List Char) : Option (List (List (List Char))) :=
  if text = [] then some [] else decodeFrom .start text

end CodeSift.Csv
