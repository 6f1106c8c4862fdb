/-
# `Microstack.Text.Numeral` — numerals as text

Numbers are written in decimal without leading zeros, and code points in
lower-case hexadecimal.  Reading takes a run of digits and gives its value, so
leading zeros are allowed on the way in.  Writing and then reading gives the
number back (`value_decimal`, `hexValue_hex`).
-/

namespace Microstack.Numeral

/-! ## Decimal -/

/-- The decimal digits of a natural number. -/
def decimal (n : Nat) : List Char := Nat.toDigits 10 n

def value (digits : List Char) : Nat := Nat.ofDigitChars 10 digits 0

@[simp]
theorem value_decimal (n : Nat) : value (decimal n) = n :=
  Nat.ofDigitChars_toDigits (by decide) (by decide)

theorem isDigit_of_mem_decimal {n : Nat} {c : Char} (h : c ∈ decimal n) : c.isDigit = true :=
  Nat.isDigit_of_mem_toDigits (by decide) (by decide) h

/-- A natural number in decimal. -/
def ofNat (n : Nat) : String := String.ofList (decimal n)

/-- The characters of an integer: a minus sign if it is negative, and the digits. -/
def integer : Int → List Char
  | .ofNat n => decimal n
  | .negSucc n => '-' :: decimal (n + 1)

def ofInt (n : Int) : String := String.ofList (integer n)

/-- An integer in decimal, with a sign whatever it is. -/
def signed (n : Int) : String := if n < 0 then ofInt n else "+" ++ ofInt n

/-! ## Hexadecimal -/

/-- The lower-case hexadecimal digits of a natural number. -/
def hex (n : Nat) : List Char := Nat.toDigits 16 n

/-- The value of a hexadecimal digit, in either case. -/
def hexDigit? (c : Char) : Option Nat :=
  if '0' ≤ c ∧ c ≤ '9' then some (c.toNat - '0'.toNat)
  else if 'a' ≤ c ∧ c ≤ 'f' then some (c.toNat - 'a'.toNat + 10)
  else if 'A' ≤ c ∧ c ≤ 'F' then some (c.toNat - 'A'.toNat + 10)
  else none

def isHexDigit (c : Char) : Bool := (hexDigit? c).isSome

def hexValue (digits : List Char) : Nat :=
  digits.foldl (fun n c => 16 * n + (hexDigit? c).getD 0) 0

theorem hexDigit?_digitChar : ∀ n < 16, hexDigit? n.digitChar = some n := by decide

theorem hexValue_append_singleton (ds : List Char) (c : Char) :
    hexValue (ds ++ [c]) = 16 * hexValue ds + (hexDigit? c).getD 0 := by
  simp [hexValue]

@[simp]
theorem hexValue_hex (n : Nat) : hexValue (hex n) = n := by
  induction n using Nat.strongRecOn with
  | ind n ih =>
    rw [hex, Nat.toDigits_eq_if (by decide)]
    split
    · next h => simp [hexValue, hexDigit?_digitChar n h]
    · next h =>
      have hmod := hexDigit?_digitChar (n % 16) (Nat.mod_lt _ (by decide))
      rw [hexValue_append_singleton, hmod]
      have := ih (n / 16) (Nat.div_lt_self (by omega) (by decide))
      rw [hex] at this
      rw [this]
      show 16 * (n / 16) + n % 16 = n
      omega

end Microstack.Numeral
