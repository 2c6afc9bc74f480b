/-!
# JSON documents

A `Json` is a document as data.  An object is a list of members in the order they are written; a
key may occur more than once.  A number without fraction and exponent is an integer; any other is
kept as it is written.
-/

namespace CodeSift

inductive Json where
  | null
  | bool (value : Bool)
  | int (value : Int)
  /-- A number with a fraction or an exponent, or a negative zero, as written. -/
  | real (literal : String)
  | string (text : String)
  | array (elements : List Json)
  | object (members : List (String × Json))
deriving Repr, Inhabited

namespace Json

def nat (n : Nat) : Json := .int n

end Json

end CodeSift
