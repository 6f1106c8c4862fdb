/-
# `Microstack.Word` — machine words

A word is an integer that fits in 32 signed bits.  Arithmetic is done on the
integers themselves and then brought back with `Word.ofInt?`, which says `none`
exactly when the result leaves the range.  Nothing wraps silently: the only
reduction modulo 2³² is `Word.wrap`, which is named for it.

Powers get a definition of their own.  An exponent may be as large as a word,
and no integer with two thousand million binary digits should ever be built to
find out that it does not fit: the power is put together by repeated squaring,
and given up as soon as a product on the way leaves the range.
-/
import Microstack.Text.Numeral

namespace Microstack

/-- A machine word: an integer that fits in 32 signed bits. -/
structure Word where
  toInt : Int
  min_le : -2147483648 ≤ toInt
  le_max : toInt ≤ 2147483647
deriving DecidableEq

namespace Word

@[ext]
theorem ext {a b : Word} (h : a.toInt = b.toInt) : a = b := by
  cases a; cases b; cases h; rfl

/-- The word of an integer, if the integer is in range. -/
def ofInt? (n : Int) : Option Word :=
  if h : -2147483648 ≤ n ∧ n ≤ 2147483647 then some ⟨n, h.1, h.2⟩ else none

theorem ofInt?_eq_some_iff {n : Int} {w : Word} : ofInt? n = some w ↔ w.toInt = n := by
  unfold ofInt?
  constructor
  · intro h
    split at h
    · cases h; rfl
    · cases h
  · intro h
    subst h
    simp [w.min_le, w.le_max]

theorem ofInt?_eq_none_iff {n : Int} :
    ofInt? n = none ↔ n < -2147483648 ∨ 2147483647 < n := by
  unfold ofInt?
  split <;> simp <;> omega

@[simp]
theorem ofInt?_toInt (w : Word) : ofInt? w.toInt = some w := ofInt?_eq_some_iff.2 rfl

/-- The word with the same low 32 bits as the integer. -/
def wrap (n : Int) : Word where
  toInt := Int.bmod n 4294967296
  min_le := Int.le_bmod (by decide)
  le_max := by
    have : Int.bmod n 4294967296 < (4294967296 + 1) / 2 := Int.bmod_lt (by decide)
    omega

theorem toInt_wrap {n : Int} (lo : -2147483648 ≤ n) (hi : n ≤ 2147483647) :
    (wrap n).toInt = n := by
  show Int.bmod n 4294967296 = n
  exact Int.bmod_eq_of_le (by omega) (by omega)

instance : OfNat Word 0 := ⟨⟨0, by decide, by decide⟩⟩

instance : Inhabited Word := ⟨0⟩

/-- The word that stands for truth on the stack, minus one. -/
def yes : Word := ⟨-1, by decide, by decide⟩

/-- The word that stands for falsehood on the stack, zero. -/
def no : Word := 0

/-- The stack form of a truth value. -/
def ofBool (b : Bool) : Word := if b then yes else no

theorem toInt_ofBool (b : Bool) : (ofBool b).toInt = if b then -1 else 0 := by
  cases b <;> rfl

/-- The code of a character.  Every code point is in range. -/
def ofChar (c : Char) : Word where
  toInt := c.toNat
  min_le := by omega
  le_max := by
    have h : c.toNat < 1114112 := by
      have := c.valid
      simp only [UInt32.isValidChar, Nat.isValidChar] at this
      show c.val.toNat < 1114112
      omega
    omega

@[simp]
theorem toInt_ofChar (c : Char) : (ofChar c).toInt = c.toNat := rfl

/-- The word in decimal, with a minus sign in front of a negative one. -/
def text (w : Word) : String := Numeral.ofInt w.toInt

/-! ## Products, remainders and powers -/

def one : Word := wrap 1

@[simp]
theorem toInt_one : one.toInt = 1 := rfl

/-- The product, if it is in range. -/
def mul? (a b : Word) : Option Word := ofInt? (a.toInt * b.toInt)

/-- The remainder of `a` by `b`, rounded toward zero.  There is none by zero, and none
of the least word by minus one, whose quotient is out of range. -/
def remainder? (a b : Word) : Option Word :=
  if b.toInt = 0 ∨ (a.toInt = -2147483648 ∧ b.toInt = -1) then none
  else ofInt? (a.toInt.tmod b.toInt)

/-- What has been multiplied so far, with one more factor if the exponent is odd. -/
def takeFactor (sofar base : Word) (exponent : Nat) : Option Word :=
  if exponent % 2 = 1 then sofar.mul? base else some sofar

/-- What has been multiplied so far, times a power of at least one factor.  The base is
squared where the exponent is halved. -/
def powFrom (sofar base : Word) (exponent : Nat) : Option Word :=
  if 1 < exponent then do
    let sofar ← sofar.takeFactor base exponent
    let base ← base.mul? base
    powFrom sofar base (exponent / 2)
  else sofar.mul? base
termination_by exponent

def pow? (base : Word) (exponent : Nat) : Option Word :=
  if exponent = 0 then some one else powFrom one base exponent

end Word

end Microstack
