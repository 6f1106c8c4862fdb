/-
# `Microstack.Text.Quoted` — a text quoted in a message

A text that is shown inside a message stands between double quotes.  Double
quotes and backslashes in it are escaped, tab, line feed, carriage return and
NUL have short escapes, and any other hidden character is shown by its code
point.
-/
import Microstack.Text.Hidden
import Microstack.Text.Numeral

namespace Microstack.Quoted

/-- The characters that show `c` in a quoted text. -/
def escaped (c : Char) : List Char :=
  if c = '"' then ['\\', '"']
  else if c = '\\' then ['\\', '\\']
  else if c = '\t' then ['\\', 't']
  else if c = '\n' then ['\\', 'n']
  else if c = '\r' then ['\\', 'r']
  else if c.toNat = 0 then ['\\', '0']
  else if Text.isHidden c then ['\\', 'u', '{'] ++ Numeral.hex c.toNat ++ ['}']
  else [c]

def text (s : String) : String := String.ofList ('"' :: (s.toList.flatMap escaped ++ ['"']))

end Microstack.Quoted
