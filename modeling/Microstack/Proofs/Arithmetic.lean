/-
# `Microstack.Proofs.Arithmetic` — the arithmetic unit against the integers

With `b` on top of the stack and `a` below it, the unit is to leave in the accumulator

    mod   a - b·⌊a / b⌋     plus   a + b          mult      a · b
    pow   bᵃ                lt     -1 or 0        neg       -b
    invert  -(b + 1)        increment  a + 1      notTrue   0 or -1

as an integer, and to fault where there is no such integer or where it is no word
(`AluOp.ideal`).  Two results that would be words are refused all the same: the remainder of
the least word by minus one, and the complement of the greatest word, which goes through its
successor.

What can become of two operands is said once, as `AluOp.Computes`: one constructor for each
fault, and one for the value.  The ideal value is that of `AluOp.value?` too, wherever there is
one (`AluOp.value?_eq_some_iff`).
-/
import Microstack.Proofs.Datapath

namespace Microstack

/-! ## The integers that are meant -/

/-- The remainder of `a` by `b` that has the sign of `b`. -/
structure FlooredRemainder (a b r : Int) : Prop where
  sign : r = 0 ∨ (r < 0 ↔ b < 0)
  lt : r.natAbs < b.natAbs
  dvd : b ∣ a - r

theorem flooredRemainder_fmod {a b : Int} (hb : b ≠ 0) : FlooredRemainder a b (a.fmod b) where
  sign := by
    rw [Word.fmod_eq_tmod_corrected]
    have hlt := Word.natAbs_tmod_lt a hb
    split <;> omega
  lt := by
    rw [Word.fmod_eq_tmod_corrected]
    have hlt := Word.natAbs_tmod_lt a hb
    split <;> omega
  dvd := ⟨a.fdiv b, by rw [Int.fmod_def]; omega⟩

namespace AluOp

/-- The result of an operation on integers, `b` being on top of the stack and `a` below it.
It says nothing for a division by zero or a negative exponent. -/
def ideal (op : AluOp) (a b : Int) : Int :=
  match op with
  | mod => a.fmod b
  | plus => a + b
  | mult => a * b
  | pow => b ^ a.toNat
  | lt => if a < b then -1 else 0
  | neg => -b
  | invert => -(b + 1)
  | increment => a + 1
  | notTrue => if b = -1 then 0 else -1

/-- The two results that are refused though they would be words. -/
def Refused (op : AluOp) (a b : Word) : Prop :=
  (op = mod ∧ a.toInt = -2147483648 ∧ b.toInt = -1) ∨ (op = invert ∧ b.toInt = 2147483647)

/-- The result is no word, or is refused. -/
def Overflows (op : AluOp) (a b : Word) : Prop :=
  (op.ideal a.toInt b.toInt < -2147483648 ∨ 2147483647 < op.ideal a.toInt b.toInt) ∨
    op.Refused a b

/-- What becomes of an operation on its operands. -/
inductive Computes (op : AluOp) (a b : Word) : Except Fault Word → Prop
  | divisionByZero : op = mod → b.toInt = 0 → Computes op a b (.error (.divisionByZero op))
  | negativeExponent : op = pow → a.toInt < 0 → Computes op a b (.error (.negativeExponent a))
  | overflow : op.Overflows a b → Computes op a b (.error (.overflow op))
  | value {r : Word} : ¬ (op = mod ∧ b.toInt = 0) → ¬ (op = pow ∧ a.toInt < 0) →
      ¬ op.Overflows a b → r.toInt = op.ideal a.toInt b.toInt → Computes op a b (.ok r)

/-! ## What the unit does with its operands -/

variable {op : AluOp} {a b : Word}

theorem computes_checked (op : AluOp) (hzero : ¬ (op = mod ∧ b.toInt = 0))
    (hneg : ¬ (op = pow ∧ a.toInt < 0)) (hrefused : ¬ op.Refused a b) :
    op.Computes a b (op.checked (Word.ofInt? (op.ideal a.toInt b.toInt))) := by
  cases hvalue : Word.ofInt? (op.ideal a.toInt b.toInt) with
  | none => exact .overflow (.inl (Word.ofInt?_eq_none_iff.1 hvalue))
  | some r =>
    have hr := Word.ofInt?_eq_some_iff.1 hvalue
    refine .value hzero hneg ?_ hr
    rintro (hrange | hoverflow)
    · rw [← hr] at hrange
      have := r.min_le
      have := r.le_max
      omega
    · exact hrefused hoverflow

theorem computes_ok (hzero : ¬ (op = mod ∧ b.toInt = 0)) (hneg : ¬ (op = pow ∧ a.toInt < 0))
    (hrefused : ¬ op.Refused a b) {r : Word} (hr : r.toInt = op.ideal a.toInt b.toInt) :
    op.Computes a b (.ok r) := by
  have hcomputes := op.computes_checked hzero hneg hrefused
  rwa [Word.ofInt?_eq_some_iff.2 hr] at hcomputes

theorem computes_remainder (a b : Word) : mod.Computes a b (remainder a b) := by
  rw [remainder_eq]
  split
  · next hb => exact .divisionByZero rfl (congrArg Word.toInt hb)
  · next hb =>
    split
    · next hleast => exact .overflow (.inr (.inl ⟨rfl, hleast⟩))
    · next hleast =>
      refine mod.computes_checked (fun h => hb (Word.ext h.2)) (by simp) ?_
      rintro (⟨-, hrefused⟩ | ⟨hop, -⟩)
      · exact hleast hrefused
      · cases hop

theorem computes_power (a b : Word) : pow.Computes a b (power b a) := by
  unfold power
  split
  · next hneg => exact .negativeExponent rfl hneg
  · next hneg =>
    rw [Word.pow?_eq]
    exact pow.computes_checked (by simp) (fun h => hneg h.2) (by simp [Refused])

theorem computes_complement (a b : Word) : invert.Computes a b (complement b) := by
  have hmin := b.min_le
  unfold complement
  cases hsucc : Word.ofInt? (b.toInt + 1) with
  | none =>
    refine .overflow (.inr (.inr ⟨rfl, ?_⟩))
    have := Word.ofInt?_eq_none_iff.1 hsucc
    have := b.le_max
    omega
  | some successor =>
    have hvalue := Word.ofInt?_eq_some_iff.1 hsucc
    have hmax := successor.le_max
    simp only [hvalue]
    refine invert.computes_checked (by simp) (by simp) ?_
    rintro (⟨hop, -⟩ | ⟨-, hgreatest⟩)
    · cases hop
    · omega

/-- Every operation has its ideal value, or the fault that says why not. -/
theorem computes_apply (op : AluOp) (a b : Word) : op.Computes a b (op.apply a b) := by
  cases op with
  | mod => exact computes_remainder a b
  | plus => exact plus.computes_checked (by simp) (by simp) (by simp [Refused])
  | mult => exact mult.computes_checked (by simp) (by simp) (by simp [Refused])
  | pow => exact computes_power a b
  | lt =>
    refine computes_ok (by simp) (by simp) (by simp [Refused]) ?_
    rw [Word.toInt_ofBool]
    simp [ideal]
  | neg => exact neg.computes_checked (by simp) (by simp) (by simp [Refused])
  | invert => exact computes_complement a b
  | increment => exact increment.computes_checked (by simp) (by simp) (by simp [Refused])
  | notTrue =>
    have hyes : b = Word.yes ↔ b.toInt = -1 := Word.ext_iff
    refine computes_ok (by simp) (by simp) (by simp [Refused]) ?_
    rw [Word.toInt_ofBool]
    simp [ideal, hyes]

/-! Each fault has one cause. -/

theorem not_overflows_of_zero (hb : b.toInt = 0) : ¬ mod.Overflows a b := by
  have hmin := a.min_le
  have hmax := a.le_max
  rintro (hrange | hrefused)
  · change a.toInt.fmod b.toInt < _ ∨ _ < a.toInt.fmod b.toInt at hrange
    rw [hb, Int.fmod_zero] at hrange
    omega
  · rcases hrefused with ⟨-, -, hone⟩ | ⟨hop, -⟩
    · omega
    · cases hop

theorem not_overflows_of_neg (ha : a.toInt < 0) : ¬ pow.Overflows a b := by
  have hexponent : a.toInt.toNat = 0 := by omega
  rintro (hrange | hrefused)
  · change b.toInt ^ a.toInt.toNat < _ ∨ _ < b.toInt ^ a.toInt.toNat at hrange
    rw [hexponent, pow_zero] at hrange
    omega
  · rcases hrefused with ⟨hop, -⟩ | ⟨hop, -⟩
    · cases hop
    · cases hop

theorem Computes.divisionByZero_iff {x : Except Fault Word} (h : op.Computes a b x) :
    x = .error (.divisionByZero mod) ↔ op = mod ∧ b.toInt = 0 := by
  cases h with
  | divisionByZero hop hb => simp [hop, hb]
  | negativeExponent hop _ => simp [hop]
  | overflow hover =>
    refine ⟨nofun, ?_⟩
    rintro ⟨rfl, hb⟩
    exact absurd hover (not_overflows_of_zero hb)
  | value hzero _ _ _ => exact ⟨nofun, fun hcause => absurd hcause hzero⟩

theorem Computes.negativeExponent_iff {x : Except Fault Word} (h : op.Computes a b x) :
    x = .error (.negativeExponent a) ↔ op = pow ∧ a.toInt < 0 := by
  cases h with
  | divisionByZero hop _ => simp [hop]
  | negativeExponent hop ha => simp [hop, ha]
  | overflow hover =>
    refine ⟨nofun, ?_⟩
    rintro ⟨rfl, ha⟩
    exact absurd hover (not_overflows_of_neg ha)
  | value _ hneg _ _ => exact ⟨nofun, fun hcause => absurd hcause hneg⟩

theorem Computes.overflow_iff {x : Except Fault Word} (h : op.Computes a b x) :
    x = .error (.overflow op) ↔ op.Overflows a b := by
  cases h with
  | divisionByZero hop hb =>
    subst hop
    exact ⟨nofun, fun hover => absurd hover (not_overflows_of_zero hb)⟩
  | negativeExponent hop ha =>
    subst hop
    exact ⟨nofun, fun hover => absurd hover (not_overflows_of_neg ha)⟩
  | overflow hover => exact ⟨fun _ => hover, fun _ => rfl⟩
  | value _ _ hover _ => exact ⟨nofun, fun hcause => absurd hcause hover⟩

theorem Computes.ok_iff {x : Except Fault Word} (h : op.Computes a b x) {r : Word} :
    x = .ok r ↔ r.toInt = op.ideal a.toInt b.toInt ∧ ¬ (op = mod ∧ b.toInt = 0) ∧
      ¬ (op = pow ∧ a.toInt < 0) ∧ ¬ op.Overflows a b := by
  cases h with
  | divisionByZero hop hb => exact ⟨nofun, fun hvalue => absurd ⟨hop, hb⟩ hvalue.2.1⟩
  | negativeExponent hop ha => exact ⟨nofun, fun hvalue => absurd ⟨hop, ha⟩ hvalue.2.2.1⟩
  | overflow hover => exact ⟨nofun, fun hvalue => absurd hover hvalue.2.2.2⟩
  | @value s hzero hneg hover hs =>
    constructor
    · intro heq
      cases heq
      exact ⟨hs, hzero, hneg, hover⟩
    · intro hvalue
      rw [Word.ext (hs.trans hvalue.1.symm)]

/-- The value of an operation is its ideal value, where nothing stands against it. -/
theorem value?_eq_some_iff {r : Word} :
    op.value? (op.operands a b) = some r ↔
      r.toInt = op.ideal a.toInt b.toInt ∧ ¬ (op = mod ∧ b.toInt = 0) ∧
        ¬ (op = pow ∧ a.toInt < 0) ∧ ¬ op.Overflows a b :=
  apply_eq_ok_iff.symm.trans (op.computes_apply a b).ok_iff

theorem Computes.fault_cases {f : Fault} (h : op.Computes a b (.error f)) :
    f = .divisionByZero mod ∨ f = .negativeExponent a ∨ f = .overflow op := by
  cases h with
  | divisionByZero hop _ => exact .inl (by rw [hop])
  | negativeExponent _ _ => exact .inr (.inl rfl)
  | overflow _ => exact .inr (.inr rfl)

end AluOp

/-! ## The unit as a whole -/

open Datapath in
/-- Every operation of the arithmetic unit leaves the exact result in the accumulator, or
leaves everything as it was and faults: on too few operands, on a division by zero, on a
negative exponent, or on a result that is no word.  Two results that would be words are
refused. -/
theorem latch_ideal_or_fault (d : Datapath) (op : AluOp) :
    (d.head < op.arity ↔ ∃ offset, latch op d = .error (.stackUnderflow offset d.head) d) ∧
    (op.arity ≤ d.head ↔ ∃ a b, d.Operands op a b) ∧
    (∀ a b, d.Operands op a b →
      (latch op d = .error (.divisionByZero .mod) d ↔ op = .mod ∧ b.toInt = 0) ∧
      (latch op d = .error (.negativeExponent a) d ↔ op = .pow ∧ a.toInt < 0) ∧
      (latch op d = .error (.overflow op) d ↔ op.Overflows a b) ∧
      (∀ d', latch op d = .ok () d' ↔ ∃ r : Word, d' = { d with accumulator := r } ∧
        r.toInt = op.ideal a.toInt b.toInt ∧ ¬ (op = .mod ∧ b.toInt = 0) ∧
        ¬ (op = .pow ∧ a.toInt < 0) ∧ ¬ op.Overflows a b) ∧
      ∀ f d', latch op d = .error f d' → d' = d ∧
        (f = .divisionByZero .mod ∨ f = .negativeExponent a ∨ f = .overflow op)) ∧
    ∀ a b, b ≠ 0 → FlooredRemainder a b (AluOp.mod.ideal a b) := by
  refine ⟨⟨?_, ?_⟩, ⟨exists_operands, fun ⟨_, _, h⟩ => h.arity_le⟩, ?_,
    fun a b => flooredRemainder_fmod⟩
  · intro hshort
    obtain ⟨offset, -, hresult⟩ := result_of_short hshort
    exact ⟨offset, latch_eq_error_iff.2 ⟨hresult, rfl⟩⟩
  · rintro ⟨offset, hlatch⟩
    refine Nat.lt_of_not_le fun henough => ?_
    obtain ⟨a, b, h⟩ := exists_operands henough
    obtain ⟨hresult, -⟩ := latch_eq_error_iff.1 hlatch
    have hcomputes := op.computes_apply a b
    rw [← result_eq_apply h, hresult] at hcomputes
    rcases hcomputes.fault_cases with hf | hf | hf
    all_goals cases hf
  · intro a b h
    have hcomputes := op.computes_apply a b
    rw [← result_eq_apply h] at hcomputes
    simp only [latch_eq_error_iff, latch_eq_ok_iff, and_true]
    refine ⟨hcomputes.divisionByZero_iff, hcomputes.negativeExponent_iff,
      hcomputes.overflow_iff, ?_, ?_⟩
    · intro d'
      simp only [hcomputes.ok_iff]
      exact exists_congr fun r => And.comm
    · rintro f d' ⟨hf, rfl⟩
      rw [hf] at hcomputes
      exact ⟨rfl, hcomputes.fault_cases⟩

/-- The least word is a power: minus two to the thirty-first, although its magnitude is not
a word. -/
theorem latch_ideal_or_fault_least :
    Datapath.latch .pow ⟨#[.wrap 31, .wrap (-2), 0], 2, 0⟩ =
      .ok () ⟨#[.wrap 31, .wrap (-2), 0], 2, .wrap (-2147483648)⟩ := by
  obtain ⟨-, -, hexact, -⟩ :=
    latch_ideal_or_fault ⟨#[.wrap 31, .wrap (-2), 0], 2, 0⟩ .pow
  obtain ⟨-, -, -, hvalue, -⟩ := hexact (.wrap 31) (.wrap (-2)) ⟨by decide, by decide⟩
  refine (hvalue _).2 ⟨.wrap (-2147483648), rfl, by decide, by decide, by decide, ?_⟩
  rintro (hrange | ⟨hop, -⟩ | ⟨hop, -⟩)
  · exact absurd hrange (by decide)
  · cases hop
  · cases hop

end Microstack
