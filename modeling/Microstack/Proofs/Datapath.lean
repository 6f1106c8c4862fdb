/-
# `Microstack.Proofs.Datapath` — the datapath as a list of words

The slots are an array with a head.  What a program can tell apart is the list
of the words below the head, bottom first:

    transfer            completes when               words after it
    top k               k ≤ 3, more than k words     as they were
    push w              one more word fits           words ++ [w]
    head down by k      k words or more              words without the last k

All of it rests on `Fits`: the head is below the capacity.  Each transfer has one
lemma `..._eq_ok_iff` that says when it completes and in which state, and no later
proof opens a transfer again.

The arithmetic unit is said in integers.  `AluOp.value?` takes the operands in
the order in which they were pushed and has a value exactly where the unit has: a result is
a function of its operands alone (`AluOp.apply`), and that has the values of `value?`
(`AluOp.apply_eq_ok_iff`).
-/
import Mathlib.Data.List.Basic
import Microstack.Proofs.Action
import Microstack.Proofs.Word

namespace Microstack

/-! ## The words of a datapath -/

namespace Datapath

variable {d d' : Datapath} {w : Word}

/-- The head is below the capacity. -/
def Fits (d : Datapath) : Prop := d.head < d.capacity

def pushed (d : Datapath) (w : Word) : Datapath :=
  { d with slots := d.slots.setIfInBounds d.head w, head := d.head + 1 }

def popped (d : Datapath) (k : Nat) : Datapath := { d with head := d.head - k }

def accumulated (d : Datapath) (r : Word) : Datapath := { d with accumulator := r }

@[simp]
theorem capacity_pushed (d : Datapath) (w : Word) : (d.pushed w).capacity = d.capacity := by
  simp [pushed, capacity]

@[simp]
theorem head_pushed (d : Datapath) (w : Word) : (d.pushed w).head = d.head + 1 := rfl

@[simp]
theorem capacity_popped (d : Datapath) (k : Nat) : (d.popped k).capacity = d.capacity := rfl

theorem Fits.popped (h : d.Fits) (k : Nat) : (d.popped k).Fits :=
  Nat.lt_of_le_of_lt (Nat.sub_le _ _) h

theorem Fits.accumulated (h : d.Fits) (r : Word) : (d.accumulated r).Fits := h

theorem Fits.length_words (h : d.Fits) : d.words.length = d.head := by
  have hle : d.head ≤ d.slots.size := Nat.le_of_lt h
  simp [words, hle]

theorem Fits.length_lt (h : d.Fits) {ws : List Word} (hw : d.words = ws) :
    ws.length < d.capacity := by
  rw [← hw, h.length_words]
  exact h

theorem Fits.pushed (h : d.Fits) (w : Word) (hroom : d.words.length + 1 < d.capacity) :
    (d.pushed w).Fits := by
  rw [h.length_words] at hroom
  exact Nat.lt_of_lt_of_eq hroom (capacity_pushed d w).symm

theorem Fits.words_pushed (h : d.Fits) (w : Word) : (d.pushed w).words = d.words ++ [w] := by
  have hlt : d.head < d.slots.toList.length := h
  simp only [words, Datapath.pushed, Array.toList_setIfInBounds]
  rw [List.take_add_one, List.take_set_of_le (Nat.le_refl _), List.getElem?_set_self hlt]
  rfl

theorem words_popped (d : Datapath) (k : Nat) :
    (d.popped k).words = d.words.take (d.head - k) := by
  rw [words, words, List.take_take, Nat.min_eq_left (Nat.sub_le _ _)]
  rfl

theorem Fits.words_popped (h : d.Fits) {ws xs : List Word} (hw : d.words = ws ++ xs) :
    (d.popped xs.length).words = ws := by
  have hhead : d.head = ws.length + xs.length := by
    rw [← h.length_words, hw, List.length_append]
  rw [Datapath.words_popped, hw, hhead]
  simp

theorem Fits.exists_words (h : d.Fits) {k : Nat} (hk : k ≤ d.head) :
    ∃ ws xs, d.words = ws ++ xs ∧ xs.length = k := by
  refine ⟨d.words.take (d.head - k), d.words.drop (d.head - k), ?_, ?_⟩
  · rw [List.take_append_drop]
  · rw [List.length_drop, h.length_words]
    omega

/-! ## Transfers of the datapath -/

/-- A word that lies under `xs` is at the offset that `xs` has words. -/
theorem Fits.top_of_words (h : d.Fits) (xs : List Word) {ws : List Word} {a : Word}
    (hw : d.words = ws ++ a :: xs) (hdeep : xs.length ≤ deepest) :
    d.top xs.length = .ok a := by
  have hhead : d.head = ws.length + (xs.length + 1) := by
    rw [← h.length_words, hw, List.length_append, List.length_cons]
  have hslot : d.slots.getD (d.head - xs.length - 1) 0 = a := by
    have hget : d.words[ws.length]? = some a := by
      rw [hw]
      simp
    rw [words, List.getElem?_take_of_lt (by omega), Array.getElem?_toList] at hget
    rw [show d.head - xs.length - 1 = ws.length by omega, Array.getD_eq_getD_getElem?, hget]
    rfl
  rw [top, if_neg (by omega), if_neg (by omega), hslot]

theorem Fits.words_of_top (h : d.Fits) {k : Nat} {a : Word} (ha : d.top k = .ok a) :
    ∃ ws xs, d.words = ws ++ a :: xs ∧ xs.length = k := by
  simp only [top] at ha
  split at ha
  · cases ha
  · split at ha
    · cases ha
    · next hdeep hhead =>
      have hlt : d.head - k - 1 < d.words.length := by
        rw [h.length_words]
        omega
      -- The word that is read is the one that stands there in the list.
      have hget : d.words[d.head - k - 1] = a := by
        have hslot : d.head - k - 1 < d.slots.size := by
          have : d.head < d.slots.size := h
          omega
        cases ha
        simp [words, hslot]
      refine ⟨d.words.take (d.head - k - 1), d.words.drop (d.head - k - 1 + 1), ?_, ?_⟩
      · rw [← hget, List.getElem_cons_drop, List.take_append_drop]
      · rw [List.length_drop, h.length_words]
        omega

theorem Fits.top_zero_eq_ok_iff (h : d.Fits) {b : Word} :
    d.top 0 = .ok b ↔ ∃ ws, d.words = ws ++ [b] := by
  constructor
  · intro hb
    obtain ⟨ws, xs, hw, hl⟩ := h.words_of_top hb
    obtain rfl := List.length_eq_zero_iff.1 hl
    exact ⟨ws, hw⟩
  · rintro ⟨ws, hw⟩
    exact h.top_of_words [] hw (by decide)

theorem Fits.top_one_eq_ok_iff (h : d.Fits) {a : Word} :
    d.top 1 = .ok a ↔ ∃ ws b, d.words = ws ++ [a, b] := by
  constructor
  · intro ha
    obtain ⟨ws, xs, hw, hl⟩ := h.words_of_top ha
    obtain ⟨b, rfl⟩ := List.length_eq_one_iff.1 hl
    exact ⟨ws, b, hw⟩
  · rintro ⟨ws, b, hw⟩
    exact h.top_of_words [b] hw (by simp [deepest])

theorem Fits.top_zero_of_two (h : d.Fits) {ws : List Word} {a b : Word}
    (hw : d.words = ws ++ [a, b]) : d.top 0 = .ok b :=
  h.top_zero_eq_ok_iff.2 ⟨ws ++ [a], by simpa using hw⟩

theorem Fits.top_two_eq_ok_iff (h : d.Fits) {a : Word} :
    d.top 2 = .ok a ↔ ∃ ws b c, d.words = ws ++ [a, b, c] := by
  constructor
  · intro ha
    obtain ⟨ws, xs, hw, hl⟩ := h.words_of_top ha
    obtain ⟨b, c, rfl⟩ := List.length_eq_two.1 hl
    exact ⟨ws, b, c, hw⟩
  · rintro ⟨ws, b, c, hw⟩
    exact h.top_of_words [b, c] hw (by simp [deepest])

theorem neg_mem_headSteps {k : Nat} (hk : 1 ≤ k ∧ k ≤ 3) : -(k : Int) ∈ headSteps := by
  obtain rfl | rfl | rfl : k = 1 ∨ k = 2 ∨ k = 3 := by omega
  all_goals decide

theorem adjustHead_neg_eq_ok_iff {k : Nat} (hk : 1 ≤ k ∧ k ≤ 3) {u : Unit} :
    adjustHead (-k) d = .ok u d' ↔
      k ≤ d.head ∧ d.head - k < d.capacity ∧ d' = d.popped k := by
  simp only [adjustHead]
  rw [if_neg (not_not_intro (neg_mem_headSteps hk))]
  split
  · next hin =>
    have hhead : ((d.head : Int) + -(k : Int)).toNat = d.head - k := by omega
    simp only [EStateM.Result.ok.injEq, true_and, hhead]
    constructor
    · rintro rfl
      exact ⟨by omega, by omega, rfl⟩
    · rintro ⟨-, -, rfl⟩
      rfl
  · next hout =>
    constructor
    · intro hk
      cases hk
    · rintro ⟨hle, hlt, -⟩
      omega

theorem push_eq_ok_iff {u : Unit} :
    push w d = .ok u d' ↔ d.head + 1 < d.capacity ∧ d' = d.pushed w := by
  have hcap := capacity_pushed d w
  show adjustHead 1 { d with slots := d.slots.setIfInBounds d.head w } = _ ↔ _
  rw [adjustHead, if_neg (by decide)]
  split
  · next hin =>
    change _ ∧ (d.head : Int) + 1 < (d.pushed w).capacity at hin
    simp only [EStateM.Result.ok.injEq, true_and]
    constructor
    · rintro rfl
      exact ⟨by omega, rfl⟩
    · rintro ⟨-, rfl⟩
      rfl
  · next hout =>
    change ¬ (_ ∧ (d.head : Int) + 1 < (d.pushed w).capacity) at hout
    constructor
    · intro hk
      cases hk
    · rintro ⟨hlt, -⟩
      omega

/-! How moving the head fails. -/

theorem adjustHead_neg_of_lt {k : Nat} (hk : 1 ≤ k ∧ k ≤ 3) (h : d.head < k) :
    adjustHead (-k) d = .error (.stackBounds d.head (-k) d.capacity) d := by
  unfold adjustHead
  rw [if_neg (not_not_intro (neg_mem_headSteps hk)), if_neg (by omega)]

/-- The datapath with a word in the first slot that is hidden. -/
def spilled (d : Datapath) (w : Word) : Datapath :=
  { d with slots := d.slots.setIfInBounds d.head w }

theorem capacity_spilled (d : Datapath) (w : Word) : (d.spilled w).capacity = d.capacity :=
  capacity_pushed d w

theorem words_spilled (d : Datapath) (w : Word) : (d.spilled w).words = d.words := by
  simp only [words, spilled, Array.toList_setIfInBounds]
  rw [List.take_set_of_le (Nat.le_refl _)]

/-- A push that does not fit has stored its word out of sight. -/
theorem push_of_full (w : Word) (h : d.capacity ≤ d.head + 1) :
    push w d = .error (.stackBounds d.head 1 d.capacity) (d.spilled w) := by
  have hcap := capacity_spilled d w
  have hhead : (d.spilled w).head = d.head := rfl
  show adjustHead 1 (d.spilled w) = _
  rw [adjustHead, if_neg (by decide), if_neg (by omega), hcap, hhead]

end Datapath

/-! ## Arithmetic -/

/-- The value of an operation on its operands, in the order in which they were
pushed. -/
def AluOp.value? : AluOp → List Word → Option Word
  | .mod, [a, b] =>
    if b.toInt = 0 ∨ (a.toInt = -2147483648 ∧ b.toInt = -1) then none
    else Word.ofInt? (a.toInt.fmod b.toInt)
  | .plus, [a, b] => Word.ofInt? (a.toInt + b.toInt)
  | .mult, [a, b] => Word.ofInt? (a.toInt * b.toInt)
  | .pow, [a, b] => if a.toInt < 0 then none else Word.ofInt? (Int.pow b.toInt a.toInt.toNat)
  | .lt, [a, b] => some (if a.toInt < b.toInt then Word.yes else Word.no)
  | .neg, [b] => Word.ofInt? (-b.toInt)
  | .invert, [b] => if b.toInt = 2147483647 then none else Word.ofInt? (-(b.toInt + 1))
  | .increment, [a, _] => Word.ofInt? (a.toInt + 1)
  | .notTrue, [b] => some (if b = Word.yes then Word.no else Word.yes)
  | _, _ => none

namespace AluOp

theorem checked_eq_ok_iff {op : AluOp} {v : Option Word} {r : Word} :
    op.checked v = .ok r ↔ v = some r := by
  cases v with
  | none => simp [checked]
  | some w => simp [checked]

theorem remainder_eq_ok_iff {a b r : Word} :
    remainder a b = .ok r ↔ value? .mod [a, b] = some r := by
  have hzero : b = 0 ↔ b.toInt = 0 := by
    rw [Word.ext_iff]
    rfl
  rw [remainder_eq]
  unfold value?
  by_cases h0 : b.toInt = 0
  · simp [hzero, h0]
  · by_cases h1 : a.toInt = -2147483648 ∧ b.toInt = -1
    · simp [hzero, h1]
    · simp [hzero, h0, h1, checked_eq_ok_iff]

theorem power_eq_ok_iff {a b r : Word} :
    power b a = .ok r ↔ value? .pow [a, b] = some r := by
  unfold power value?
  by_cases h : a.toInt < 0
  · simp [h]
  · simp only [if_neg h, checked_eq_ok_iff, Word.pow?_eq]

theorem complement_eq_ok_iff {b r : Word} :
    complement b = .ok r ↔ value? .invert [b] = some r := by
  have hmin := b.min_le
  have hmax := b.le_max
  unfold complement value?
  by_cases h : b.toInt = 2147483647
  · have hnone : Word.ofInt? (b.toInt + 1) = none := Word.ofInt?_eq_none_iff.2 (by omega)
    simp only [hnone, if_pos h]
    simp
  · have hsome : Word.ofInt? (b.toInt + 1) = some ⟨b.toInt + 1, by omega, by omega⟩ :=
      Word.ofInt?_eq_some_iff.2 rfl
    simp only [hsome, if_neg h]
    exact checked_eq_ok_iff

theorem length_of_value? {op : AluOp} {operands : List Word} {r : Word}
    (h : op.value? operands = some r) : operands.length = op.arity := by
  unfold value? at h
  split at h
  all_goals first | rfl | cases h

theorem arity_le_two (op : AluOp) : op.arity ≤ 2 := by
  cases op <;> decide

theorem arity_bounds (op : AluOp) : 1 ≤ op.arity ∧ op.arity ≤ 3 := by
  cases op <;> decide

/-- The result of an operation, with `b` on top of the stack and `a` below it. -/
def apply (op : AluOp) (a b : Word) : Except Fault Word :=
  match op with
  | mod => remainder a b
  | plus => checked plus (Word.ofInt? (a.toInt + b.toInt))
  | mult => checked mult (Word.ofInt? (a.toInt * b.toInt))
  | pow => power b a
  | lt => .ok (Word.ofBool (a.toInt < b.toInt))
  | neg => checked neg (Word.ofInt? (-b.toInt))
  | invert => complement b
  | increment => checked increment (Word.ofInt? (a.toInt + 1))
  | notTrue => .ok (Word.ofBool (b ≠ Word.yes))

/-- Of these two words, those that the operation takes. -/
def operands (op : AluOp) (a b : Word) : List Word :=
  if op.arity = 2 then [a, b] else [b]

/-- The unit has a result where its operands have a value, and the same one. -/
theorem apply_eq_ok_iff {op : AluOp} {a b r : Word} :
    op.apply a b = .ok r ↔ op.value? (op.operands a b) = some r := by
  cases op with
  | mod => exact remainder_eq_ok_iff
  | plus => exact checked_eq_ok_iff
  | mult => exact checked_eq_ok_iff
  | pow => exact power_eq_ok_iff
  | lt => simp [apply, operands, arity, value?, Word.ofBool]
  | neg => exact checked_eq_ok_iff
  | invert => exact complement_eq_ok_iff
  | increment => exact checked_eq_ok_iff
  | notTrue => simp [apply, operands, arity, value?, Word.ofBool]

end AluOp

/-! ## The unit reads its operands off the stack -/

namespace Datapath

variable {d d' : Datapath} {op : AluOp} {a b r : Word}

/-- The words that an operation reads: the top of the stack, and the word below it if the
operation is one on two words. -/
def Operands (d : Datapath) (op : AluOp) (a b : Word) : Prop :=
  d.top 0 = .ok b ∧ (op.arity = 2 → d.top 1 = .ok a)

theorem result_eq_apply (h : d.Operands op a b) : d.result op = op.apply a b := by
  obtain ⟨hb, ha⟩ := h
  cases op with
  | neg => rw [result, hb]; rfl
  | invert => rw [result, hb]; rfl
  | notTrue => rw [result, hb]; rfl
  | increment => rw [result, ha rfl]; rfl
  | mod => rw [result, ha rfl, hb]; rfl
  | plus => rw [result, ha rfl, hb]; rfl
  | mult => rw [result, ha rfl, hb]; rfl
  | pow => rw [result, hb, ha rfl]; rfl
  | lt => rw [result, ha rfl, hb]; rfl

theorem top_of_lt {offset : Nat} (hdeep : offset ≤ deepest) (h : offset < d.head) :
    ∃ w, d.top offset = .ok w := by
  rw [top, if_neg (by omega), if_neg (by omega)]
  exact ⟨_, rfl⟩

theorem top_of_le {offset : Nat} (hdeep : offset ≤ deepest) (h : d.head ≤ offset) :
    d.top offset = .error (.stackUnderflow offset d.head) := by
  rw [top, if_neg (by omega), if_pos h]

theorem lt_of_top {offset : Nat} {w : Word} (h : d.top offset = .ok w) : offset < d.head := by
  unfold top at h
  split at h
  · cases h
  · split at h
    · cases h
    · omega

theorem Operands.arity_le (h : d.Operands op a b) : op.arity ≤ d.head := by
  have harity := op.arity_le_two
  have hone := lt_of_top h.1
  by_cases htwo : op.arity = 2
  · have := lt_of_top (h.2 htwo)
    omega
  · omega

theorem exists_operands (h : op.arity ≤ d.head) : ∃ a b, d.Operands op a b := by
  have harity := op.arity_bounds
  have htop : ∃ b, d.top 0 = .ok b := top_of_lt (by decide) (by omega)
  obtain ⟨b, hb⟩ := htop
  by_cases htwo : op.arity = 2
  · have hbelow : ∃ a, d.top 1 = .ok a := top_of_lt (by decide) (by omega)
    obtain ⟨a, ha⟩ := hbelow
    exact ⟨a, b, hb, fun _ => ha⟩
  · exact ⟨0, b, hb, fun h => absurd h htwo⟩

/-- A stack that is too short is found out before anything is computed. -/
theorem result_of_short (h : d.head < op.arity) :
    ∃ offset, d.head ≤ offset ∧ d.result op = .error (.stackUnderflow offset d.head) := by
  have hone (hop : op.arity = 1) : d.top 0 = .error (.stackUnderflow 0 d.head) :=
    top_of_le (by decide) (by omega)
  have htwo (hop : op.arity = 2) : d.top 1 = .error (.stackUnderflow 1 d.head) :=
    top_of_le (by decide) (by omega)
  cases op with
  | neg => exact ⟨0, Nat.le_of_lt_succ h, by rw [result, hone rfl]; rfl⟩
  | invert => exact ⟨0, Nat.le_of_lt_succ h, by rw [result, hone rfl]; rfl⟩
  | notTrue => exact ⟨0, Nat.le_of_lt_succ h, by rw [result, hone rfl]; rfl⟩
  | increment => exact ⟨1, Nat.le_of_lt_succ h, by rw [result, htwo rfl]; rfl⟩
  | mod => exact ⟨1, Nat.le_of_lt_succ h, by rw [result, htwo rfl]; rfl⟩
  | plus => exact ⟨1, Nat.le_of_lt_succ h, by rw [result, htwo rfl]; rfl⟩
  | mult => exact ⟨1, Nat.le_of_lt_succ h, by rw [result, htwo rfl]; rfl⟩
  | lt => exact ⟨1, Nat.le_of_lt_succ h, by rw [result, htwo rfl]; rfl⟩
  | pow =>
    -- The base on top is read first.
    by_cases hempty : d.head = 0
    · have htop : d.top 0 = .error (.stackUnderflow 0 d.head) :=
        top_of_le (by decide) (by omega)
      refine ⟨0, by omega, ?_⟩
      rw [result, htop]
      rfl
    · have htop : ∃ b, d.top 0 = .ok b := top_of_lt (by decide) (by omega)
      obtain ⟨b, hb⟩ := htop
      refine ⟨1, Nat.le_of_lt_succ h, ?_⟩
      rw [result, hb]
      show (d.top 1 >>= _) = _
      rw [htwo rfl]
      rfl

theorem Fits.words_of_operands (h : d.Fits) (hab : d.Operands op a b) :
    ∃ ws, d.words = ws ++ op.operands a b := by
  obtain ⟨hb, ha⟩ := hab
  unfold AluOp.operands
  split
  · next htwo =>
    obtain ⟨ws, b', hw⟩ := h.top_one_eq_ok_iff.1 (ha htwo)
    obtain rfl := Except.ok.inj ((h.top_zero_of_two hw).symm.trans hb)
    exact ⟨ws, hw⟩
  · exact h.top_zero_eq_ok_iff.1 hb

theorem Fits.operands_of_words (h : d.Fits) {ws operands : List Word}
    (hw : d.words = ws ++ operands) (hlen : operands.length = op.arity) :
    ∃ a b, operands = op.operands a b ∧ d.Operands op a b := by
  have hlow := op.arity_bounds
  have hhigh := op.arity_le_two
  by_cases htwo : op.arity = 2
  · obtain ⟨a, b, rfl⟩ := List.length_eq_two.1 (hlen.trans htwo)
    exact ⟨a, b, (if_pos htwo).symm, h.top_zero_of_two hw,
      fun _ => h.top_one_eq_ok_iff.2 ⟨ws, b, hw⟩⟩
  · obtain ⟨b, rfl⟩ := List.length_eq_one_iff.1 (by omega : operands.length = 1)
    exact ⟨b, b, (if_neg htwo).symm, h.top_zero_eq_ok_iff.2 ⟨ws, hw⟩, fun h => absurd h htwo⟩

/-- The unit has a result exactly when its operands are on top of the stack and
have a value. -/
theorem Fits.result_eq_ok_iff (h : d.Fits) :
    d.result op = .ok r ↔
      ∃ ws operands, d.words = ws ++ operands ∧ op.value? operands = some r := by
  constructor
  · intro hresult
    have henough : op.arity ≤ d.head := by
      refine Nat.le_of_not_lt fun hshort => ?_
      obtain ⟨_, -, hfail⟩ := result_of_short hshort
      cases hresult.symm.trans hfail
    obtain ⟨a, b, hab⟩ := exists_operands henough
    obtain ⟨ws, hw⟩ := h.words_of_operands hab
    rw [result_eq_apply hab, AluOp.apply_eq_ok_iff] at hresult
    exact ⟨ws, _, hw, hresult⟩
  · rintro ⟨ws, operands, hw, hvalue⟩
    obtain ⟨a, b, rfl, hab⟩ := h.operands_of_words hw (AluOp.length_of_value? hvalue)
    rw [result_eq_apply hab, AluOp.apply_eq_ok_iff]
    exact hvalue

theorem latch_eq_ok_iff {u : Unit} :
    latch op d = .ok u d' ↔ ∃ r, d.result op = .ok r ∧ d' = d.accumulated r := by
  simp only [latch]
  cases d.result op with
  | ok r =>
    constructor
    · intro heq
      cases heq
      exact ⟨r, rfl, rfl⟩
    · rintro ⟨_, heq, rfl⟩
      cases heq
      rfl
  | error f =>
    constructor
    · intro heq
      cases heq
    · rintro ⟨_, heq, _⟩
      cases heq

theorem latch_eq_error_iff {f : Fault} :
    latch op d = .error f d' ↔ d.result op = .error f ∧ d' = d := by
  simp only [latch]
  cases d.result op with
  | ok r => simp
  | error g => simp [eq_comm]

/-- A branch condition is there exactly when a word is, and it holds when that
word is the one that stands for truth. -/
theorem Fits.popTruth_eq_ok_iff (h : d.Fits) {t : Bool} :
    popTruth d = .ok t d' ↔
      ∃ ws b, d.words = ws ++ [b] ∧ t = decide (b = Word.yes) ∧
        d' = (d.accumulated (if b = Word.yes then Word.no else Word.yes)).popped 1 := by
  have hflip (b : Word) :
      decide ((if b = Word.yes then Word.no else Word.yes) ≠ Word.yes) = decide (b = Word.yes) := by
    by_cases hb : b = Word.yes
    · simp only [hb, if_true]
      decide
    · simp [hb]
  simp only [popTruth, bind_eq_ok_iff, get_eq_ok_iff, pure_eq_ok_iff, latch_eq_ok_iff,
    h.result_eq_ok_iff]
  constructor
  · rintro ⟨_, _, ⟨r, ⟨ws, operands, hw, hv⟩, rfl⟩, _, _, hhead, _, _, ⟨rfl, rfl⟩, rfl, rfl⟩
    obtain ⟨b, rfl⟩ := List.length_eq_one_iff.1 (AluOp.length_of_value? hv)
    obtain rfl := Option.some.inj hv
    obtain ⟨-, -, rfl⟩ := (adjustHead_neg_eq_ok_iff (k := 1) (by decide)).1 hhead
    exact ⟨ws, b, hw, hflip b, rfl⟩
  · rintro ⟨ws, b, hw, rfl, rfl⟩
    have hpos : 1 ≤ d.head := by
      rw [← h.length_words, hw]
      simp
    refine ⟨(), _, ⟨_, ⟨ws, [b], hw, rfl⟩, rfl⟩, (), _, ?_, _, _, ⟨rfl, rfl⟩, hflip b, rfl⟩
    exact (adjustHead_neg_eq_ok_iff (k := 1) (by decide)).2
      ⟨hpos, (h.accumulated _).popped 1, rfl⟩

/-! ## No transfer breaks the bound on the head -/

def Sized (capacity : Nat) (d : Datapath) : Prop := d.capacity = capacity ∧ d.Fits

theorem sized_of_create {c : Nat} (h : create c = .ok d) : d.Sized c := by
  simp only [create] at h
  split at h
  · cases h
  · next hpos =>
    cases h
    refine ⟨by simp [capacity], ?_⟩
    show 0 < (Array.replicate c (0 : Word)).size
    simp only [Array.size_replicate]
    omega

theorem words_of_create {c : Nat} (h : create c = .ok d) : d.words = [] := by
  simp only [create] at h
  split at h
  · cases h
  · cases h
    rfl

theorem leads_adjustHead (c : Nat) (delta : Int) :
    Leads (Sized c) (adjustHead delta) (Sized c) := by
  intro d h
  by_cases hstep : delta ∈ headSteps
  · by_cases hin : 0 ≤ d.head + delta ∧ d.head + delta < d.capacity
    · simp only [adjustHead, hstep, hin, not_true, if_false, if_true, and_self]
      refine ⟨h.1, ?_⟩
      show (d.head + delta).toNat < d.capacity
      omega
    · simp only [adjustHead, hstep, hin, not_true, if_false]
      exact h
  · simp only [adjustHead, hstep, not_false_eq_true, if_true]
    exact h

theorem leads_push (c : Nat) (w : Word) : Leads (Sized c) (push w) (Sized c) := by
  -- The word is stored whether or not the head can move.
  refine Leads.bind ?_ fun _ => leads_adjustHead c 1
  intro d h
  exact ⟨(capacity_pushed d w).trans h.1, Nat.lt_of_lt_of_eq h.2 (capacity_pushed d w).symm⟩

theorem leads_latch (c : Nat) (op : AluOp) : Leads (Sized c) (latch op) (Sized c) := by
  intro d h
  cases hr : d.result op with
  | ok r =>
    simp only [latch, hr]
    exact h
  | error f =>
    simp only [latch, hr]
    exact h

theorem leads_popTruth (c : Nat) : Leads (Sized c) popTruth (Sized c) := by
  refine (leads_latch c _).bind fun _ => (leads_adjustHead c _).bind fun _ => ?_
  exact Leads.get.bind fun _ => Leads.pure _

end Datapath

end Microstack
