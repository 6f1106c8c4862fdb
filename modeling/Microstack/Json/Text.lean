/-
# `Microstack.Json.Text` — strings in JSON

A string stands between double quotes.  Control characters must be escaped, and
so must the double quote and the backslash; any other character may be, by its
UTF-16 units in hexadecimal.

Writing escapes only what must be escaped, with the short escapes where there are
some.
-/
import Microstack.Json
import Microstack.Text.Numeral

namespace Microstack.Json

/-! ## Reading -/

/-- Four hexadecimal digits.  A text with fewer than four bytes left has ended. -/
def hexUnit : List Char → Except ReadError (Nat × List Char)
  | a :: b :: c :: d :: rest =>
    if [a, b, c, d].all Numeral.isHexDigit then .ok (Numeral.hexValue [a, b, c, d], rest)
    else .error .malformed
  | cs => if (String.ofList cs).utf8ByteSize < 4 then .error .ended else .error .malformed

/-- The second half of a pair of surrogates, after the first one. -/
def lowSurrogate (high : Nat) : List Char → Except ReadError (Char × List Char)
  | [] | ['\\'] => .error .ended
  | '\\' :: 'u' :: rest =>
    match hexUnit rest with
    | .error e => .error e
    | .ok (low, rest) =>
      if 0xDC00 ≤ low ∧ low ≤ 0xDFFF then
        .ok (Char.ofNat (0x10000 + 1024 * (high - 0xD800) + (low - 0xDC00)), rest)
      else .error .malformed
  | _ => .error .malformed

/-- A character escaped by its UTF-16 units, after the `u`. -/
def unicodeEscape (cs : List Char) : Except ReadError (Char × List Char) :=
  match hexUnit cs with
  | .error e => .error e
  | .ok (n, rest) =>
    if 0xDC00 ≤ n ∧ n ≤ 0xDFFF then .error .malformed
    else if 0xD800 ≤ n ∧ n ≤ 0xDBFF then lowSurrogate n rest
    else .ok (Char.ofNat n, rest)

/-- An escape, after the backslash. -/
def escape : List Char → Except ReadError (Char × List Char)
  | [] => .error .ended
  | '"' :: rest => .ok ('"', rest)
  | '\\' :: rest => .ok ('\\', rest)
  | '/' :: rest => .ok ('/', rest)
  | 'b' :: rest => .ok (Char.ofNat 8, rest)
  | 'f' :: rest => .ok (Char.ofNat 12, rest)
  | 'n' :: rest => .ok ('\n', rest)
  | 'r' :: rest => .ok ('\r', rest)
  | 't' :: rest => .ok ('\t', rest)
  | 'u' :: rest => unicodeEscape rest
  | _ => .error .malformed

theorem hexUnit_length {cs rest : List Char} {n : Nat} (h : hexUnit cs = .ok (n, rest)) :
    rest.length < cs.length := by
  unfold hexUnit at h
  split at h
  · split at h
    · cases h
      simp only [List.length_cons]
      omega
    · cases h
  · split at h <;> cases h

theorem lowSurrogate_length {high : Nat} {cs rest : List Char} {c : Char}
    (h : lowSurrogate high cs = .ok (c, rest)) : rest.length < cs.length := by
  unfold lowSurrogate at h
  split at h
  · cases h
  · cases h
  · split at h
    · cases h
    · next hhex =>
      have hlen := hexUnit_length hhex
      split at h
      · obtain ⟨_, hrest⟩ := Prod.mk.inj (Except.ok.inj h)
        rw [← hrest]
        simp only [List.length_cons]
        omega
      · cases h
  · cases h

theorem unicodeEscape_length {cs rest : List Char} {c : Char}
    (h : unicodeEscape cs = .ok (c, rest)) : rest.length < cs.length := by
  unfold unicodeEscape at h
  split at h
  · cases h
  · next hhex =>
    have := hexUnit_length hhex
    split at h
    · cases h
    · split at h
      · have := lowSurrogate_length h
        omega
      · obtain ⟨_, hrest⟩ := Prod.mk.inj (Except.ok.inj h)
        rw [← hrest]
        assumption

theorem escape_length {cs rest : List Char} {c : Char} (h : escape cs = .ok (c, rest)) :
    rest.length < cs.length := by
  unfold escape at h
  split at h
  · cases h
  iterate 8
    · cases h
      simp
  · have := unicodeEscape_length h
    simp only [List.length_cons]
    omega
  · cases h

/-- The characters of a string up to its closing quote, and what follows that. -/
def stringBody (cs : List Char) : Except ReadError (List Char × List Char) :=
  match cs with
  | [] => .error .ended
  | c :: rest =>
    if c = '"' then .ok ([], rest)
    else if c = '\\' then
      match h : escape rest with
      | .error e => .error e
      | .ok (d, rest') =>
        have := escape_length h
        match stringBody rest' with
        | .error e => .error e
        | .ok (ds, after) => .ok (d :: ds, after)
    else if c.toNat < 0x20 then .error .malformed
    else
      match stringBody rest with
      | .error e => .error e
      | .ok (ds, after) => .ok (c :: ds, after)
termination_by cs.length

theorem stringBody_length {cs body rest : List Char} (h : stringBody cs = .ok (body, rest)) :
    rest.length < cs.length := by
  fun_induction stringBody cs generalizing body rest with
  | case1 => cases h
  | case2 => cases h; simp
  | case3 => cases h
  | case4 => cases h
  | case5 _ _ _ _ shorter _ _ heq _ ih =>
    cases h
    have := ih heq
    simp only [List.length_cons]
    omega
  | case6 => cases h
  | case7 => cases h
  | case8 _ _ _ _ _ _ _ heq ih =>
    cases h
    have := ih heq
    simp only [List.length_cons]
    omega

/-! ## Writing -/

/-- The four hexadecimal digits of a control character. -/
def controlDigits (n : Nat) : List Char := ['0', '0', (n / 16).digitChar, (n % 16).digitChar]

/-- The characters that stand for `c` inside a string. -/
def escaped (c : Char) : List Char :=
  if c = '"' then ['\\', '"']
  else if c = '\\' then ['\\', '\\']
  else if c = '\n' then ['\\', 'n']
  else if c = '\r' then ['\\', 'r']
  else if c = '\t' then ['\\', 't']
  else if c.toNat = 8 then ['\\', 'b']
  else if c.toNat = 12 then ['\\', 'f']
  else if c.toNat < 0x20 then ['\\', 'u'] ++ controlDigits c.toNat
  else [c]

def quoted (cs : List Char) : List Char := '"' :: (cs.flatMap escaped ++ ['"'])

end Microstack.Json
