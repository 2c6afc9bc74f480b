import CodeSift.Json.Value
import CodeSift.Text.Hex

/-!
# Printing JSON documents

Documents are printed over several lines: every element and every member on a line of its own,
indented by two blanks for each level, a blank behind the colon, and nothing between the brackets
of an empty array or object.  A string escapes the quote, the backslash and the control
characters, and nothing else.
-/

namespace CodeSift.Json

def escapeChar (c : Char) : List Char :=
  if c = '"' then ['\\', '"']
  else if c = '\\' then ['\\', '\\']
  else if c = '\x08' then ['\\', 'b']
  else if c = '\t' then ['\\', 't']
  else if c = '\n' then ['\\', 'n']
  else if c = '\x0c' then ['\\', 'f']
  else if c = '\r' then ['\\', 'r']
  else if c.toNat < 0x20 then '\\' :: 'u' :: Hex.digits 4 c.toNat []
  else [c]

def quote (s : String) : List Char := '"' :: (s.toList.flatMap escapeChar ++ ['"'])

/-- A line break and the indentation of a level. -/
def newline (level : Nat) : List Char := '\n' :: List.replicate (2 * level) ' '

mutual

/-- The text of a document whose first line is indented already, at a level. -/
def lines (level : Nat) : Json → List Char
  | .null => ['n', 'u', 'l', 'l']
  | .bool true => ['t', 'r', 'u', 'e']
  | .bool false => ['f', 'a', 'l', 's', 'e']
  | .int n => (toString n).toList
  | .real literal => literal.toList
  | .string s => quote s
  | .array [] => ['[', ']']
  | .array (x :: rest) =>
    '[' :: (newline (level + 1) ++ lines (level + 1) x ++ moreElements (level + 1) rest
      ++ newline level ++ [']'])
  | .object [] => ['{', '}']
  | .object ((key, x) :: rest) =>
    '{' :: (newline (level + 1) ++ quote key ++ [':', ' '] ++ lines (level + 1) x
      ++ moreMembers (level + 1) rest ++ newline level ++ ['}'])

/-- The elements behind the first one. -/
def moreElements (level : Nat) : List Json → List Char
  | [] => []
  | x :: rest => ',' :: (newline level ++ lines level x ++ moreElements level rest)

/-- The members behind the first one. -/
def moreMembers (level : Nat) : List (String × Json) → List Char
  | [] => []
  | (key, x) :: rest =>
    ',' :: (newline level ++ quote key ++ [':', ' '] ++ lines level x ++ moreMembers level rest)

end

def pretty (x : Json) : String := String.ofList (lines 0 x)

end CodeSift.Json
