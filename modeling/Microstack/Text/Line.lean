/-
# `Microstack.Text.Line` — lines and blanks

Texts are cut into lines at line feeds, and one carriage return just before a
line feed goes with it.  A text that does not end in a line feed has a last line
of its own, which keeps a carriage return; a text that does has none.

Trimming removes white space in the sense of Unicode's `White_Space`, of which
`whiteSpace` lists the 25 code points.
-/

namespace Microstack.Text

/-- The code points with the Unicode property `White_Space`. -/
def whiteSpace : List Nat :=
  [0x9, 0xA, 0xB, 0xC, 0xD, 0x20, 0x85, 0xA0, 0x1680,
    0x2000, 0x2001, 0x2002, 0x2003, 0x2004, 0x2005, 0x2006, 0x2007, 0x2008, 0x2009, 0x200A,
    0x2028, 0x2029, 0x202F, 0x205F, 0x3000]

def isWhiteSpace (c : Char) : Bool := whiteSpace.contains c.toNat

/-- The text without the white space at either end. -/
def trim (cs : List Char) : List Char :=
  ((cs.dropWhile isWhiteSpace).reverse.dropWhile isWhiteSpace).reverse

/-- A line read so far, backwards, once its line feed has come: a carriage return
at its end is dropped. -/
def endLine : List Char → List Char
  | '\r' :: seen => seen.reverse
  | seen => seen.reverse

/-- The lines of a text, given what has been read of the first one, backwards. -/
def linesFrom : List Char → List Char → List (List Char)
  | [], [] => []
  | seen, [] => [seen.reverse]
  | seen, c :: rest =>
    if c = '\n' then endLine seen :: linesFrom [] rest else linesFrom (c :: seen) rest

def lines (text : List Char) : List (List Char) := linesFrom [] text

/-- Cutting a text after a line feed cuts its list of lines. -/
theorem linesFrom_append (seen before after : List Char) :
    linesFrom seen (before ++ '\n' :: after) =
      linesFrom seen (before ++ ['\n']) ++ lines after := by
  induction before generalizing seen with
  | nil => simp [linesFrom, lines]
  | cons c rest ih =>
    simp only [List.cons_append, linesFrom]
    split
    · simp [ih]
    · exact ih _

end Microstack.Text
