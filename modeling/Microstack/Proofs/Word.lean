/-
# `Microstack.Proofs.Word` — what is computed step by step is exact

Two operations of the arithmetic unit take several steps to their result, and each step
could go wrong where the result would not:

    power        sofar · baseⁿ     the products and the squares on the way
    remainder    r, then r + b     the sum that moves the remainder to the sign of `b`

Neither does.  A product on the way that leaves the range is a factor of the power, and what
is left to multiply cannot bring it back (`powFrom_eq`); the sum is made of words of opposite
signs (`remainder_eq`).
-/
import Mathlib.Tactic.Linarith
import Mathlib.Tactic.Ring
import Microstack.Datapath

namespace Microstack

namespace Word

/-! ## Out of range -/

theorem ofInt?_mul_eq_none {x y : Int} (hx : ofInt? x = none) (hy : 1 ≤ y) :
    ofInt? (x * y) = none := by
  rw [ofInt?_eq_none_iff] at hx ⊢
  rcases hx with hlow | hhigh
  · exact .inl (by nlinarith)
  · exact .inr (by nlinarith)

/-- No word squares to 2³¹, so a square that is out of range is so with either sign. -/
theorem lt_square {b : Int} (h : 2147483647 < b * b) : 2147483648 < b * b := by
  by_contra hle
  have habs : b.natAbs * b.natAbs = 2147483648 := by
    have hcast := Int.natAbs_mul_self (a := b)
    omega
  have hlow : b.natAbs < 46341 := by
    by_contra hge
    have := Nat.mul_le_mul (Nat.not_lt.1 hge) (Nat.not_lt.1 hge)
    omega
  have := Nat.mul_le_mul (Nat.le_of_lt_succ hlow) (Nat.le_of_lt_succ hlow)
  omega

theorem ofInt?_mul_square_eq_none {s b : Int} (hb : ofInt? (b * b) = none) (hs : s ≠ 0)
    {k : Nat} (hk : 1 ≤ k) : ofInt? (s * (b * b) ^ k) = none := by
  have hlarge : 2147483648 < b * b := by
    refine lt_square ?_
    rcases ofInt?_eq_none_iff.1 hb with hlow | hhigh
    · have := mul_self_nonneg b
      omega
    · exact hhigh
  have hpower : b * b ≤ (b * b) ^ k := le_self_pow₀ (by omega) (by omega)
  rw [ofInt?_eq_none_iff]
  rcases Int.lt_or_gt_of_ne hs with hneg | hpos
  · exact .inl (by nlinarith)
  · exact .inr (by nlinarith)

/-! ## Powers -/

/-- The integer that `takeFactor` computes. -/
def factorTaken (sofar base : Int) (exponent : Nat) : Int :=
  if exponent % 2 = 1 then sofar * base else sofar

theorem takeFactor_eq (sofar base : Word) (n : Nat) :
    sofar.takeFactor base n = ofInt? (factorTaken sofar.toInt base.toInt n) := by
  unfold takeFactor factorTaken
  split
  · rfl
  · rw [ofInt?_toInt]

theorem mul_pow_eq_factorTaken (s b : Int) (n : Nat) :
    s * b ^ n = factorTaken s b n * (b * b) ^ (n / 2) := by
  have hpower : (b * b) ^ (n / 2) = b ^ (2 * (n / 2)) := by rw [pow_mul, sq]
  rw [hpower, factorTaken]
  split
  · next hodd =>
    conv_lhs => rw [show n = 2 * (n / 2) + 1 by omega]
    ring
  · next heven =>
    conv_lhs => rw [show n = 2 * (n / 2) by omega]

theorem base_ne_zero_of_factorTaken {sofar : Word} {b : Int} {n : Nat}
    (h : ofInt? (factorTaken sofar.toInt b n) = none) : b ≠ 0 := by
  rintro rfl
  unfold factorTaken at h
  split at h
  · rw [mul_zero] at h
    cases h
  · rw [ofInt?_toInt] at h
    cases h

/-- The power is exact, or out of range: no product on the way is out of range otherwise. -/
theorem powFrom_eq {sofar base : Word} (h : sofar.toInt = 0 → base.toInt = 0) {n : Nat}
    (hn : 1 ≤ n) : powFrom sofar base n = ofInt? (sofar.toInt * base.toInt ^ n) := by
  induction n using Nat.strongRecOn generalizing sofar base with
  | ind n ih =>
    rw [powFrom]
    split
    · next hlarge =>
      rw [takeFactor_eq, mul?, mul_pow_eq_factorTaken]
      cases htake : ofInt? (factorTaken sofar.toInt base.toInt n) with
      | none =>
        have hbase := base_ne_zero_of_factorTaken htake
        have hleft : 1 ≤ (base.toInt * base.toInt) ^ (n / 2) := by
          refine one_le_pow₀ ?_
          have := mul_self_pos.2 hbase
          omega
        exact (ofInt?_mul_eq_none htake hleft).symm
      | some taken =>
        have htaken := ofInt?_eq_some_iff.1 htake
        have hzero : taken.toInt = 0 → base.toInt = 0 := by
          rw [htaken, factorTaken]
          split
          · intro hproduct
            rcases mul_eq_zero.1 hproduct with hs | hb
            · exact h hs
            · exact hb
          · exact h
        rw [← htaken]
        cases hsquare : ofInt? (base.toInt * base.toInt) with
        | none =>
          have hs : taken.toInt ≠ 0 := by
            intro hs
            rw [hzero hs] at hsquare
            cases hsquare
          exact (ofInt?_mul_square_eq_none hsquare hs (by omega)).symm
        | some square =>
          have hvalue := ofInt?_eq_some_iff.1 hsquare
          rw [← hvalue]
          refine ih (n / 2) (by omega) (fun hs => ?_) (by omega)
          rw [hvalue, hzero hs, mul_zero]
    · next hsmall =>
      obtain rfl : n = 1 := by omega
      rw [pow_one, mul?]

theorem pow?_eq (base : Word) (exponent : Nat) :
    pow? base exponent = ofInt? (Int.pow base.toInt exponent) := by
  show _ = ofInt? (base.toInt ^ exponent)
  unfold pow?
  split
  · next hzero =>
    rw [hzero, pow_zero, ← toInt_one, ofInt?_toInt]
  · next hpos =>
    rw [powFrom_eq (by simp) (by omega), toInt_one, one_mul]

/-! ## Remainders -/

theorem natAbs_tmod_lt (a : Int) {b : Int} (hb : b ≠ 0) : (a.tmod b).natAbs < b.natAbs := by
  rw [Int.natAbs_tmod]
  exact Nat.mod_lt _ (Int.natAbs_pos.2 hb)

theorem fmod_eq_tmod_corrected (a b : Int) :
    a.fmod b =
      if a.tmod b ≠ 0 ∧ ¬ (a.tmod b < 0 ↔ b < 0) then a.tmod b + b else a.tmod b := by
  have hdvd : b ∣ a ↔ a.tmod b = 0 := Int.dvd_iff_tmod_eq_zero
  have hsign : a.tmod b ≠ 0 → (a.tmod b < 0 ↔ a < 0) := by
    intro hne
    rcases Int.le_total 0 a with ha | ha
    · have := Int.tmod_nonneg b ha
      omega
    · have := Int.tmod_nonneg b (Int.neg_nonneg_of_nonpos ha)
      rw [Int.neg_tmod] at this
      have hzero : a ≠ 0 := by
        rintro rfl
        exact hne (Int.zero_tmod b)
      omega
  rw [Int.fmod_eq_tmod]
  by_cases hzero : a.tmod b = 0
  · rw [if_pos (hdvd.2 hzero), if_neg (fun h => h.1 hzero), Int.add_zero]
  · have hsign := hsign hzero
    rw [if_neg (fun h => hzero (hdvd.1 h))]
    by_cases ha : 0 ≤ a
    · rw [if_pos ha]
      split <;> split <;> omega
    · rw [if_neg ha]
      split <;> split <;> omega

theorem exists_remainder? {a b : Word} (hb : b.toInt ≠ 0)
    (h : ¬ (a.toInt = -2147483648 ∧ b.toInt = -1)) :
    ∃ r, a.remainder? b = some r ∧ r.toInt = a.toInt.tmod b.toInt := by
  have hlt := natAbs_tmod_lt a.toInt hb
  have hmin := b.min_le
  have hmax := b.le_max
  refine ⟨⟨a.toInt.tmod b.toInt, by omega, by omega⟩, ?_, rfl⟩
  rw [remainder?, if_neg (not_or.2 ⟨hb, h⟩)]
  exact ofInt?_eq_some_iff.2 rfl

end Word

namespace AluOp

/-- The remainder is exact: the sum that corrects it never wraps. -/
theorem remainder_eq (a b : Word) :
    remainder a b =
      if b = 0 then .error (.divisionByZero mod)
      else if a.toInt = -2147483648 ∧ b.toInt = -1 then .error (.overflow mod)
      else checked mod (Word.ofInt? (a.toInt.fmod b.toInt)) := by
  unfold remainder
  split
  · rfl
  · next hb =>
    have hne : b.toInt ≠ 0 := fun h => hb (Word.ext h)
    by_cases hleast : a.toInt = -2147483648 ∧ b.toInt = -1
    · rw [if_pos hleast, Word.remainder?, if_pos (.inr hleast)]
    · obtain ⟨r, hr, hvalue⟩ := Word.exists_remainder? hne hleast
      rw [if_neg hleast, hr]
      simp only
      rw [Word.fmod_eq_tmod_corrected, ← hvalue]
      split
      · next hcorrect =>
        have := r.min_le
        have := r.le_max
        have := b.min_le
        have := b.le_max
        have hsum : (Word.wrap (r.toInt + b.toInt)).toInt = r.toInt + b.toInt :=
          Word.toInt_wrap (by omega) (by omega)
        rw [Word.ofInt?_eq_some_iff.2 hsum]
        rfl
      · rw [Word.ofInt?_toInt]
        rfl

end AluOp

end Microstack
