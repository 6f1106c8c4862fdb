/-
# `Microstack.Json` — JSON values

The values of the JSON data format.  Integers are exact; a number that is
written with a fraction or an exponent, or that is out of the range of exact
integers, is a double.  An object keeps its fields as they were written, also
those whose key comes again later: the last one of a key is the one that counts.
-/

namespace Microstack

inductive Json
  | null
  | bool (b : Bool)
  | int (n : Int)
  | float (x : Float)
  | string (s : String)
  | array (items : List Json)
  | object (fields : List (String × Json))

namespace Json

/-- The field of an object with a key: the last one, if there are several. -/
def field? (fields : List (String × Json)) (key : String) : Option Json :=
  fields.reverse.lookup key

/-- Why a text is not JSON. -/
inductive ReadError
  /-- The text stops too early; more text could make it JSON. -/
  | ended
  /-- No text that starts like this is JSON. -/
  | malformed
deriving DecidableEq

/-- White space between the parts of a JSON text. -/
def isSpace (c : Char) : Bool := c == ' ' || c == '\n' || c == '\t' || c == '\r'

/-- What follows any white space. -/
def skipSpace (cs : List Char) : List Char := cs.dropWhile isSpace

theorem skipSpace_length (cs : List Char) : (skipSpace cs).length ≤ cs.length :=
  (List.dropWhile_suffix isSpace).sublist.length_le

end Json

end Microstack
