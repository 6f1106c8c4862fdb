/-
# `Microstack.Text.Glyph` — how a character literal is written

A character literal stands between single quotes.  Printable ASCII stands for
itself, the quotes and the backslash are escaped, tab, line feed and carriage
return have letters, and every other character is written by its code point, so
that a literal is always plain ASCII on one line.
-/
import Microstack.Text.Numeral

namespace Microstack.Glyph

/-- The characters that stand for `c` inside a literal. -/
def escaped (c : Char) : List Char :=
  if c = '\t' then ['\\', 't']
  else if c = '\r' then ['\\', 'r']
  else if c = '\n' then ['\\', 'n']
  else if c = '\'' then ['\\', '\'']
  else if c = '"' then ['\\', '"']
  else if c = '\\' then ['\\', '\\']
  else if ' ' ≤ c ∧ c ≤ '~' then [c]
  else ['\\', 'u', '{'] ++ Numeral.hex c.toNat ++ ['}']

/-- The literal of a character, quotes included. -/
def literal (c : Char) : List Char := '\'' :: (escaped c ++ ['\''])

/-- The character with a code point, if there is one: surrogates have none. -/
def ofCode? (n : Nat) : Option Char :=
  if n < 0xD800 ∨ (0xDFFF < n ∧ n < 0x110000) then some (Char.ofNat n) else none

end Microstack.Glyph
