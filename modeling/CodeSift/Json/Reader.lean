import CodeSift.Json.Value

/-!
# Reading JSON documents

The reader takes a document from the front of a list of characters and hands back the rest.  It
follows the grammar strictly: blanks, tabs and line ends are the only white space, numbers have no
leading zeros, strings hold no bare control characters, and nothing may follow a document.

A string can spell one half of a surrogate pair, which is no character.  `StringLiteral` keeps
such a half apart; `text?` refuses a literal that has one, `text` replaces it.

Arrays and objects nest to any depth, so the functions that read them take a bound on the nesting
and on the number of elements; the length of the text is always enough.
-/

namespace CodeSift.Json

/-! ## White space and strings -/

def isBlank (c : Char) : Bool := c == ' ' || c == '\t' || c == '\n' || c == '\r'

def skipBlanks : List Char → List Char
  | [] => []
  | c :: rest => if isBlank c then skipBlanks rest else c :: rest

/-- A part of a string literal: a character, or an escape by number. -/
inductive StringUnit where
  | char (c : Char)
  | code (n : Nat)
deriving DecidableEq, Repr, Inhabited

def hexValue? (c : Char) : Option Nat :=
  if '0' ≤ c ∧ c ≤ '9' then some (c.toNat - '0'.toNat)
  else if 'a' ≤ c ∧ c ≤ 'f' then some (c.toNat - 'a'.toNat + 10)
  else if 'A' ≤ c ∧ c ≤ 'F' then some (c.toNat - 'A'.toNat + 10)
  else none

def hexValue4? (a b c d : Char) : Option Nat := do
  return (((← hexValue? a) * 16 + (← hexValue? b)) * 16 + (← hexValue? c)) * 16 + (← hexValue? d)

def escapedChar? (c : Char) : Option Char :=
  if c = '"' then some '"'
  else if c = '\\' then some '\\'
  else if c = '/' then some '/'
  else if c = 'b' then some '\x08'
  else if c = 'f' then some '\x0c'
  else if c = 'n' then some '\n'
  else if c = 'r' then some '\r'
  else if c = 't' then some '\t'
  else none

/-- The rest of a string literal up to its closing quote. -/
def readUnits? : List Char → Option (List StringUnit × List Char)
  | [] => none
  | '"' :: rest => some ([], rest)
  | '\\' :: 'u' :: a :: b :: c :: d :: rest =>
    match hexValue4? a b c d with
    | none => none
    | some n => (readUnits? rest).map fun (units, rest) => (.code n :: units, rest)
  | '\\' :: c :: rest =>
    match escapedChar? c with
    | none => none
    | some c => (readUnits? rest).map fun (units, rest) => (.char c :: units, rest)
  | '\\' :: [] => none
  | c :: rest =>
    if c.toNat < 0x20 then none
    else (readUnits? rest).map fun (units, rest) => (.char c :: units, rest)

def isHighSurrogate (n : Nat) : Bool := 0xd800 ≤ n && n < 0xdc00

def isLowSurrogate (n : Nat) : Bool := 0xdc00 ≤ n && n < 0xe000

/-- The characters of a string literal; none stands for half a pair without the other half. -/
def joinPairs : List StringUnit → List (Option Char)
  | [] => []
  | .char c :: rest => some c :: joinPairs rest
  | .code high :: .code low :: rest =>
    if isHighSurrogate high && isLowSurrogate low then
      some (Char.ofNat (0x10000 + (high - 0xd800) * 0x400 + (low - 0xdc00))) :: joinPairs rest
    else
      (if isHighSurrogate high || isLowSurrogate high then none else some (Char.ofNat high))
        :: joinPairs (.code low :: rest)
  | .code n :: rest =>
    (if isHighSurrogate n || isLowSurrogate n then none else some (Char.ofNat n)) :: joinPairs rest

/-- The characters of a string literal; none stands for half a surrogate pair. -/
structure StringLiteral where
  characters : List (Option Char)
deriving DecidableEq, Repr, Inhabited

namespace StringLiteral

/-- The text of a literal without halves of pairs. -/
def text? (s : StringLiteral) : Option String := (s.characters.mapM id).map String.ofList

/-- The text of a literal, with halves of pairs replaced. -/
def text (s : StringLiteral) : String := String.ofList (s.characters.map fun c => c.getD '�')

end StringLiteral

/-- A string literal, behind its opening quote. -/
def readString? (text : List Char) : Option (StringLiteral × List Char) :=
  (readUnits? text).map fun (units, rest) => (⟨joinPairs units⟩, rest)

/-! ## Numbers -/

def splitDigits (text : List Char) : List Char × List Char :=
  (text.takeWhile Char.isDigit, text.dropWhile Char.isDigit)

def natOfDigits (digits : List Char) : Nat :=
  digits.foldl (fun n c => 10 * n + (c.toNat - '0'.toNat)) 0

/-- The fraction at the front of a text, empty if there is none. -/
def readFraction? (text : List Char) : Option (List Char × List Char) :=
  match text with
  | '.' :: rest =>
    match splitDigits rest with
    | ([], _) => none
    | (digits, rest) => some ('.' :: digits, rest)
  | _ => some ([], text)

def readExponent? (text : List Char) : Option (List Char × List Char) :=
  match text with
  | e :: rest =>
    if e = 'e' ∨ e = 'E' then
      let (sign, rest) := match rest with
        | '+' :: more => (['+'], more)
        | '-' :: more => (['-'], more)
        | _ => ([], rest)
      match splitDigits rest with
      | ([], _) => none
      | (digits, rest) => some (e :: (sign ++ digits), rest)
    else some ([], text)
  | [] => some ([], text)

/-- The digits are a number without leading zeros. -/
def isInteger (digits : List Char) : Bool :=
  match digits with
  | [] => false
  | ['0'] => true
  | c :: _ => c != '0'

def readNumber? (text : List Char) : Option (Json × List Char) := do
  let (negative, rest) := match text with
    | '-' :: rest => (true, rest)
    | _ => (false, text)
  let (digits, rest) := splitDigits rest
  if isInteger digits then
    let (fraction, rest) ← readFraction? rest
    let (exponent, rest) ← readExponent? rest
    let n := natOfDigits digits
    if fraction.isEmpty && exponent.isEmpty && !(negative && n == 0) then
      return (.int (if negative then -n else n), rest)
    else
      let sign := if negative then ['-'] else []
      return (.real (String.ofList (sign ++ digits ++ fraction ++ exponent)), rest)
  else none

/-! ## Documents -/

/-- The text behind the given characters. -/
def expect? : List Char → List Char → Option (List Char)
  | [], text => some text
  | _ :: _, [] => none
  | c :: more, d :: text => if c = d then expect? more text else none

mutual

def readValue? : Nat → List Char → Option (Json × List Char)
  | 0, _ => none
  | fuel + 1, text =>
    match skipBlanks text with
    | [] => none
    | '[' :: rest =>
      match skipBlanks rest with
      | ']' :: rest => some (.array [], rest)
      | rest => (readElements? fuel rest).map fun (elements, rest) => (.array elements, rest)
    | '{' :: rest =>
      match skipBlanks rest with
      | '}' :: rest => some (.object [], rest)
      | rest => (readMembers? fuel rest).map fun (members, rest) =>
          (.object (members.map fun (key, x) => (key.text, x)), rest)
    | '"' :: rest => (readString? rest).map fun (s, rest) => (.string s.text, rest)
    | 'n' :: rest => (expect? ['u', 'l', 'l'] rest).map fun rest => (.null, rest)
    | 't' :: rest => (expect? ['r', 'u', 'e'] rest).map fun rest => (.bool true, rest)
    | 'f' :: rest => (expect? ['a', 'l', 's', 'e'] rest).map fun rest => (.bool false, rest)
    | text => readNumber? text

/-- One or more elements and the closing bracket. -/
def readElements? : Nat → List Char → Option (List Json × List Char)
  | 0, _ => none
  | fuel + 1, text =>
    match readValue? fuel text with
    | none => none
    | some (x, rest) =>
      match skipBlanks rest with
      | ',' :: rest => (readElements? fuel rest).map fun (more, rest) => (x :: more, rest)
      | ']' :: rest => some ([x], rest)
      | _ => none

/-- One or more members and the closing brace. -/
def readMembers? : Nat → List Char → Option (List (StringLiteral × Json) × List Char)
  | 0, _ => none
  | fuel + 1, text =>
    match skipBlanks text with
    | '"' :: rest =>
      match readString? rest with
      | none => none
      | some (key, rest) =>
        match skipBlanks rest with
        | ':' :: rest =>
          match readValue? fuel rest with
          | none => none
          | some (x, rest) =>
            match skipBlanks rest with
            | ',' :: rest =>
              (readMembers? fuel rest).map fun (more, rest) => ((key, x) :: more, rest)
            | '}' :: rest => some ([(key, x)], rest)
            | _ => none
        | _ => none
    | _ => none

end

/-- A bound on the nesting and on the number of elements of any document in a text. -/
def depthBound (text : List Char) : Nat := 2 * text.length + 2

def isAtEnd (text : List Char) : Bool := (skipBlanks text).isEmpty

def parse? (s : String) : Option Json :=
  let text := s.toList
  match readValue? (depthBound text) text with
  | some (x, rest) => if isAtEnd rest then some x else none
  | none => none

/-- A text as a sequence at its top: an object with its keys as written, or an array. -/
inductive TopLevel where
  | members (members : List (StringLiteral × Json))
  | elements (elements : List Json)
deriving Inhabited

def parseTopLevel? (s : String) : Option TopLevel :=
  let text := s.toList
  let fuel := depthBound text
  let finish {α : Type} (wrap : α → TopLevel) : Option (α × List Char) → Option TopLevel
    | some (x, rest) => if isAtEnd rest then some (wrap x) else none
    | none => none
  match skipBlanks text with
  | '[' :: rest =>
    match skipBlanks rest with
    | ']' :: rest => finish .elements (some ([], rest))
    | rest => finish .elements (readElements? fuel rest)
  | '{' :: rest =>
    match skipBlanks rest with
    | '}' :: rest => finish .members (some ([], rest))
    | rest => finish .members (readMembers? fuel rest)
  | _ => none

end CodeSift.Json
