/-
# `Microstack.Json.Number` — numbers in JSON

A number is first cut out of the text and then evaluated.  Integers from -2⁶³ to
2⁶⁴ - 1 are exact, zero with a minus sign apart.  Every other number is a
double, found as follows: digits are absorbed into a significand for as long as
it stays below 2⁶⁴, the digits of the whole part that are left count as factors
of ten, those of the fraction are dropped, and the significand is rounded and
then multiplied or divided by the power of ten that remains.
-/
import Microstack.Json
import Microstack.Text.Numeral

namespace Microstack.Json

/-! ## Cutting a number out of the text -/

/-- A number as it is written. -/
structure NumberText where
  negative : Bool
  whole : List Char
  /-- The digits after the point, empty if there is none. -/
  fraction : List Char
  /-- The exponent's sign and digits. -/
  exponent : Option (Bool × List Char)

/-- What is wrong where a digit was wanted. -/
def digitWanted : List Char → ReadError
  | [] => .ended
  | _ => .malformed

/-- One digit or more. -/
def digits (cs : List Char) : Except ReadError (List Char × List Char) :=
  match cs.takeWhile Char.isDigit with
  | [] => .error (digitWanted cs)
  | ds => .ok (ds, cs.dropWhile Char.isDigit)

/-- The whole part of a number, which has no leading zeros. -/
def wholePart : List Char → Except ReadError (List Char × List Char)
  | '0' :: c :: rest => if c.isDigit then .error .malformed else .ok (['0'], c :: rest)
  | cs => digits cs

def fractionPart : List Char → Except ReadError (List Char × List Char)
  | '.' :: rest => digits rest
  | cs => .ok ([], cs)

/-- The sign of an exponent, minus or not. -/
def exponentSign : List Char → Bool × List Char
  | '+' :: rest => (false, rest)
  | '-' :: rest => (true, rest)
  | cs => (false, cs)

def exponentPart : List Char → Except ReadError (Option (Bool × List Char) × List Char)
  | [] => .ok (none, [])
  | c :: rest =>
    if c = 'e' ∨ c = 'E' then
      let (negative, rest) := exponentSign rest
      match digits rest with
      | .error e => .error e
      | .ok (ds, rest) => .ok (some (negative, ds), rest)
    else .ok (none, c :: rest)

/-- The sign of a number, minus or not. -/
def numberSign : List Char → Bool × List Char
  | '-' :: rest => (true, rest)
  | cs => (false, cs)

/-- A number as it is written, and what follows it. -/
def numberText (cs : List Char) : Except ReadError (NumberText × List Char) :=
  let (negative, cs) := numberSign cs
  match wholePart cs with
  | .error e => .error e
  | .ok (whole, cs) =>
    match fractionPart cs with
    | .error e => .error e
    | .ok (fraction, cs) =>
      match exponentPart cs with
      | .error e => .error e
      | .ok (exponent, cs) => .ok ({ negative, whole, fraction, exponent }, cs)

/-! ## Evaluating it -/

def maxSignificand : Nat := 18446744073709551615

/-- Absorbs digits into a significand for as long as it fits, and gives the digits
that are left. -/
def absorb (significand : Nat) : List Char → Nat × List Char
  | [] => (significand, [])
  | c :: rest =>
    let next := 10 * significand + (c.toNat - '0'.toNat)
    if next ≤ maxSignificand then absorb next rest else (significand, c :: rest)

def powerOfTen (n : Nat) : Float := Float.ofScientific 1 false n

/-- The greatest power of ten that is a double. -/
def maxPower : Nat := 308

/-- Divides a double by a power of ten, in several steps if it is a great one. -/
def divideByPower (x : Float) (n : Nat) : Float :=
  if n ≤ maxPower then x / powerOfTen n
  else if x == 0 then x
  else divideByPower (x / powerOfTen maxPower) (n - maxPower)
termination_by n
decreasing_by
  have : maxPower = 308 := rfl
  omega

/-- Multiplies a double by a power of ten, unless the result is out of range. -/
def multiplyByPower (x : Float) (n : Nat) : Except ReadError Float :=
  if n ≤ maxPower then
    let y := x * powerOfTen n
    if y.isInf then .error .malformed else .ok y
  else if x == 0 then .ok x
  else .error .malformed

def scale (significand : Nat) : Int → Except ReadError Float
  | .ofNat n => multiplyByPower (UInt64.ofNat significand).toFloat n
  | .negSucc n => .ok (divideByPower (UInt64.ofNat significand).toFloat (n + 1))

/-- The greatest exponent that is looked at.  Beyond it, a number is zero or out of
range. -/
def maxExponent : Nat := 2147483647

/-- The magnitude of a number that is a double. -/
def magnitude (significand : Nat) (power : Int) : Option (Bool × List Char) →
    Except ReadError Float
  | none => scale significand power
  | some (negative, ds) =>
    let n := Numeral.value ds
    if maxExponent < n then
      if significand ≠ 0 ∧ !negative then .error .malformed else .ok 0
    else scale significand (if negative then power - n else power + n)

/-- The number with its sign, as a double. -/
def signedFloat (negative : Bool) (x : Float) : Json := .float (if negative then -x else x)

/-- The value of an integer whose magnitude fits a significand. -/
def exactInteger (negative : Bool) (n : Nat) : Json :=
  if !negative then .int n
  else if 0 < n ∧ n ≤ 9223372036854775808 then .int (-n)
  else signedFloat true (UInt64.ofNat n).toFloat

def NumberText.value (t : NumberText) : Except ReadError Json :=
  let (significand, left) := absorb 0 t.whole
  if left.isEmpty ∧ t.fraction.isEmpty ∧ t.exponent.isNone then
    .ok (exactInteger t.negative significand)
  else
    let (significand, dropped) := absorb significand t.fraction
    let power : Int := left.length - (t.fraction.length - dropped.length : Nat)
    match magnitude significand power t.exponent with
    | .ok x => .ok (signedFloat t.negative x)
    | .error e => .error e

def number (cs : List Char) : Except ReadError (Json × List Char) :=
  match numberText cs with
  | .error e => .error e
  | .ok (t, rest) =>
    match t.value with
    | .error e => .error e
    | .ok v => .ok (v, rest)

/-! ## A number takes at least one character -/

theorem digits_length {cs ds rest : List Char} (h : digits cs = .ok (ds, rest)) :
    rest.length < cs.length := by
  unfold digits at h
  split at h
  · cases h
  · next hne =>
    cases h
    have hsplit := congrArg List.length (List.takeWhile_append_dropWhile (p := Char.isDigit) (l := cs))
    have hpos : 0 < (cs.takeWhile Char.isDigit).length := by
      cases hd : cs.takeWhile Char.isDigit with
      | nil => exact absurd hd hne
      | cons _ _ => simp
    simp only [List.length_append] at hsplit
    omega

theorem wholePart_length {cs ds rest : List Char} (h : wholePart cs = .ok (ds, rest)) :
    rest.length < cs.length := by
  unfold wholePart at h
  split at h
  · split at h
    · cases h
    · cases h
      simp
  · exact digits_length h

theorem fractionPart_length {cs ds rest : List Char} (h : fractionPart cs = .ok (ds, rest)) :
    rest.length ≤ cs.length := by
  unfold fractionPart at h
  split at h
  · have := digits_length h
    simp only [List.length_cons]
    omega
  · cases h
    exact Nat.le_refl _

theorem exponentSign_length (cs : List Char) : (exponentSign cs).2.length ≤ cs.length := by
  unfold exponentSign
  split <;> simp

theorem exponentPart_length {cs rest : List Char} {e : Option (Bool × List Char)}
    (h : exponentPart cs = .ok (e, rest)) : rest.length ≤ cs.length := by
  unfold exponentPart at h
  split at h
  · cases h
    exact Nat.le_refl _
  · next c tail =>
    split at h
    · simp only at h
      split at h
      · cases h
      · next hds =>
        cases h
        have := digits_length hds
        have := exponentSign_length tail
        simp only [List.length_cons]
        omega
    · cases h
      exact Nat.le_refl _

theorem numberSign_length (cs : List Char) : (numberSign cs).2.length ≤ cs.length := by
  unfold numberSign
  split <;> simp

theorem number_length {cs rest : List Char} {v : Json} (h : number cs = .ok (v, rest)) :
    rest.length < cs.length := by
  unfold number at h
  split at h
  · cases h
  · next t tail htext =>
    split at h
    · cases h
    · cases h
      unfold numberText at htext
      simp only at htext
      have hsign := numberSign_length cs
      split at htext
      · cases htext
      · next hwhole =>
        have := wholePart_length hwhole
        split at htext
        · cases htext
        · next hfraction =>
          have := fractionPart_length hfraction
          split at htext
          · cases htext
          · next hexponent =>
            have := exponentPart_length hexponent
            cases htext
            omega

end Microstack.Json
