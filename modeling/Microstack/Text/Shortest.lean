/-
# `Microstack.Text.Shortest` — the shortest decimal of a double

A double stands for every real number that is nearer to it than to any other
double; ends of that interval count if the significand is even.  `digits` finds
the decimal with the fewest digits in the interval, and of two with as few the
one nearer to the double: for each number of digits it looks at the two
neighbours of the value among the decimals with that many.  All of it is exact
arithmetic on natural numbers.

`text` writes these digits, positionally if the leading digit stands for
10⁻⁵ to 10¹⁵, and with an exponent otherwise.
-/
import Microstack.Text.Numeral

namespace Microstack.Shortest

def twoTo (n : Nat) : Nat := Nat.pow 2 n

def tenTo (n : Nat) : Nat := Nat.pow 10 n

/-! ## The value and its interval -/

/-- A positive double as `significand · 2^exponent`. -/
structure Binary where
  significand : Nat
  exponent : Int
  /-- Whether the next smaller double is only half as far away as the next greater. -/
  atPowerOfTwo : Bool

/-- The parts of a positive finite double, given by its bits. -/
def Binary.ofBits (bits : Nat) : Binary :=
  let stored : Nat := bits % twoTo 52
  let biased : Nat := bits / twoTo 52 % 2048
  if biased = 0 then { significand := stored, exponent := -1074, atPowerOfTwo := false }
  else {
    significand := twoTo 52 + stored
    exponent := (biased : Int) - 1075
    atPowerOfTwo := stored = 0 ∧ 1 < biased }

/-- A value and the ends of its interval, as fractions of one denominator. -/
structure Interval where
  low : Nat
  value : Nat
  high : Nat
  denominator : Nat
  /-- Whether the ends belong to the interval. -/
  closed : Bool

/-- The interval of a double.  Everything is counted in quarters of the last place. -/
def Binary.interval (b : Binary) : Interval :=
  let quarters : Int := b.exponent - 2
  let factor := twoTo quarters.toNat
  { low := (4 * b.significand - if b.atPowerOfTwo then 1 else 2) * factor
    value := 4 * b.significand * factor
    high := (4 * b.significand + 2) * factor
    denominator := twoTo (-quarters).toNat
    closed := b.significand % 2 = 0 }

namespace Interval

/-- The power of ten that the leading digit of the value stands for. -/
def magnitude (v : Interval) : Int :=
  if v.denominator ≤ v.value then
    ((Numeral.decimal (v.value / v.denominator)).length - 1 : Nat)
  else
    let places := (Numeral.decimal (v.denominator / v.value)).length
    if v.denominator ≤ v.value * tenTo (places - 1) then -(places - 1 : Nat) else -places

/-- Whether `n · 10^power` lies in the interval. -/
def contains (v : Interval) (n : Nat) (power : Int) : Bool :=
  let scaled := n * tenTo power.toNat * v.denominator
  let unit := tenTo (-power).toNat
  if v.closed then v.low * unit ≤ scaled ∧ scaled ≤ v.high * unit
  else v.low * unit < scaled ∧ scaled < v.high * unit

/-- The multiple of `10^power` in the interval that is nearest to the value, if one
of its two neighbours lies there.  A tie goes to the even one. -/
def nearest? (v : Interval) (power : Int) : Option Nat :=
  let unit := tenTo (-power).toNat
  let step := tenTo power.toNat * v.denominator
  let below := v.value * unit / step
  let left := v.value * unit - below * step
  let above := below + 1
  let preferAbove := step < 2 * left ∨ (step = 2 * left ∧ below % 2 = 1)
  if v.contains below power ∧ v.contains above power then
    some (if preferAbove then above else below)
  else if v.contains below power then some below
  else if v.contains above power then some above
  else none

/-- The shortest decimal in the interval: an integer and a power of ten. -/
def shortest (v : Interval) : Nat × Int :=
  let top := v.magnitude
  ((List.range 17).findSome? fun (places : Nat) =>
    (v.nearest? (top - places)).map fun n => (n, top - (places : Int))).getD (0, 0)

end Interval

/-! ## Text -/

def stripZeros (digits : List Char) : List Char :=
  (digits.reverse.dropWhile (· = '0')).reverse

/-- The digits of a decimal whose leading one stands for ones or more. -/
def wholeForm (digits : List Char) (lead : Nat) : List Char :=
  if digits.length ≤ lead + 1 then
    digits ++ List.replicate (lead + 1 - digits.length) '0' ++ ['.', '0']
  else digits.take (lead + 1) ++ '.' :: digits.drop (lead + 1)

/-- The digits of a decimal whose leading one stands for less than one. -/
def fractionForm (digits : List Char) (zeros : Nat) : List Char :=
  '0' :: '.' :: (List.replicate zeros '0' ++ digits)

/-- An exponent: its sign, whatever that is, and its digits. -/
def exponentForm (lead : Int) : List Char :=
  let sign := if lead < 0 then '-' else '+'
  'e' :: sign :: Numeral.decimal lead.natAbs

/-- A decimal, given its digits and the power of ten of the leading one. -/
def decimalForm (digits : List Char) (lead : Int) : List Char :=
  if 0 ≤ lead ∧ lead ≤ 15 then wholeForm digits lead.toNat
  else if -5 ≤ lead ∧ lead < 0 then fractionForm digits (-lead - 1).toNat
  else
    match digits with
    | [] => exponentForm lead
    | [d] => d :: exponentForm lead
    | d :: rest => d :: '.' :: (rest ++ exponentForm lead)

def positiveText (bits : Nat) : List Char :=
  let (n, power) := (Binary.ofBits bits).interval.shortest
  let all := Numeral.decimal n
  decimalForm (stripZeros all) (power + (all.length - 1 : Nat))

def text (x : Float) : String :=
  let bits := x.toBits.toNat
  let magnitude := bits % twoTo 63
  let sign := if twoTo 63 ≤ bits then "-" else ""
  if x.isNaN then "NaN"
  else if x.isInf then sign ++ "inf"
  else if magnitude = 0 then sign ++ "0.0"
  else sign ++ String.ofList (positiveText magnitude)

end Microstack.Shortest
