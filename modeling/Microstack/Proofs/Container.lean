/-
# `Microstack.Proofs.Container` — what a container gives back

A container does not tell a digit that is a character from a number of one digit:
both are written with one digit, the character in quotes, and a quoted numeral is
read as a number.  `normalised` says what becomes of a program, argument by
argument, and `decode_encode` that nothing else is lost.

A program that came out of a container has no such argument left, so it survives
any number of further trips.
-/
import Microstack.Container
import Microstack.Proofs.Action
import Microstack.Proofs.Json

namespace Microstack

/-! ## What becomes of a program -/

/-- The number that a digit stands for. -/
def Word.ofDigit (c : Char) : Word where
  toInt := (c.toNat - '0'.toNat : Nat)
  min_le := by omega
  le_max := by
    have := (Word.ofChar c).le_max
    rw [Word.toInt_ofChar] at this
    omega

/-- The argument as a container gives it back. -/
def Argument.normalised : Argument → Argument
  | .number n => .number n
  | .char c => if c.isDigit then .number (Word.ofDigit c) else .char c

def Instruction.normalised (i : Instruction) : Instruction :=
  { i with argument := i.argument.map Argument.normalised }

def Program.normalised (p : Program) : Program :=
  { p with instructions := p.instructions.map Instruction.normalised }

/-- The argument is not a digit. -/
def Instruction.HasNoDigit (i : Instruction) : Prop :=
  ∀ c, i.argument = some (.char c) → c.isDigit = false

theorem Instruction.normalised_eq_self_iff (i : Instruction) :
    i.normalised = i ↔ i.HasNoDigit := by
  obtain ⟨opcode, argument, term⟩ := i
  simp only [normalised, HasNoDigit, mk.injEq, true_and, and_true]
  cases argument with
  | none => simp
  | some arg =>
    cases arg with
    | number n => simp [Argument.normalised]
    | char c =>
      by_cases hc : c.isDigit = true
      · simp [Argument.normalised, hc]
      · simp [Argument.normalised, hc]

theorem Program.normalised_eq_self_iff (p : Program) :
    p.normalised = p ↔ ∀ i ∈ p.instructions, i.HasNoDigit := by
  obtain ⟨data, instructions⟩ := p
  simp only [normalised, mk.injEq, true_and, ← Instruction.normalised_eq_self_iff]
  have hmap := List.map_inj_left (l := instructions) (f := Instruction.normalised) (g := id)
  rw [List.map_id] at hmap
  exact hmap

namespace Container

/-! ## Writing -/

open Json

theorem plain_ofTerm (n : Nat) (t : Term) : Plain (n + 1) (ofTerm t) := by
  have hline := t.line.toNat_lt
  refine .array fun v hv => ?_
  simp only [List.mem_cons, List.not_mem_nil, or_false] at hv
  rcases hv with rfl | rfl | rfl
  · exact .int (by omega) (by omega)
  · exact .string
  · exact .string

theorem plain_of_mem_ofOptional {α : Type} {n : Nat} {name : String} {write : α → Json}
    (h : ∀ a, Plain n (write a)) {o : Option α} {f : String × Json}
    (hf : f ∈ ofOptional name write o) : Plain n f.2 := by
  cases o with
  | none => cases hf
  | some a =>
    obtain rfl := List.mem_singleton.1 hf
    exact h a

theorem plain_ofArgument (n : Nat) (a : Argument) : Plain n (ofArgument a) := by
  cases a with
  | number w =>
    have hlow := w.min_le
    have hhigh := w.le_max
    exact .int (by omega) (by omega)
  | char c => exact .string

theorem plain_ofInstruction (n : Nat) (i : Instruction) : Plain (n + 2) (ofInstruction i) := by
  refine .object fun f hf => ?_
  rw [List.mem_cons, List.mem_append] at hf
  rcases hf with rfl | hf | hf
  · exact .string
  · exact plain_of_mem_ofOptional (plain_ofArgument _) hf
  · exact plain_of_mem_ofOptional (plain_ofTerm n) hf

theorem plain_ofProgram (n : Nat) (p : Program) : Plain (n + 4) (ofProgram p) := by
  refine .object fun f hf => ?_
  rw [List.mem_append, List.mem_singleton] at hf
  rcases hf with hf | rfl
  · refine plain_of_mem_ofOptional (fun words => ?_) hf
    refine .array fun v hv => ?_
    obtain ⟨w, -, rfl⟩ := List.mem_map.1 hv
    exact plain_ofArgument _ (.number w)
  · refine .array fun v hv => ?_
    obtain ⟨i, -, rfl⟩ := List.mem_map.1 hv
    exact plain_ofInstruction n i

/-! ## Reading -/

theorem eq_of_isDigit {c : Char} (hc : c.isDigit = true) :
    c = '0' ∨ c = '1' ∨ c = '2' ∨ c = '3' ∨ c = '4' ∨
      c = '5' ∨ c = '6' ∨ c = '7' ∨ c = '8' ∨ c = '9' := by
  have hcodes : ∀ n < 58, 48 ≤ n →
      Char.ofNat n ∈ ['0', '1', '2', '3', '4', '5', '6', '7', '8', '9'] := by decide
  simp only [Char.isDigit, Bool.and_eq_true, decide_eq_true_eq] at hc
  have hmem := hcodes c.toNat (Nat.lt_succ_of_le hc.2) hc.1
  rw [Char.ofNat_toNat] at hmem
  simpa only [List.mem_cons, List.not_mem_nil, or_false] using hmem

theorem isWhiteSpace_of_isDigit {c : Char} (hc : c.isDigit = true) :
    Text.isWhiteSpace c = false := by
  rcases eq_of_isDigit hc with rfl | rfl | rfl | rfl | rfl | rfl | rfl | rfl | rfl | rfl
  all_goals decide

theorem numeral?_singleton (c : Char) :
    numeral? [c] = if c.isDigit then some (Word.ofDigit c) else none := by
  by_cases hc : c.isDigit = true
  · have htrim : Text.trim [c] = [c] := by simp [Text.trim, isWhiteSpace_of_isDigit hc]
    have hsign : numeralSign [c] = (false, [c]) := by
      unfold numeralSign
      split
      · next heq =>
        cases heq
        exact absurd hc (by decide)
      · next heq =>
        cases heq
        exact absurd hc (by decide)
      · rfl
    have hvalue : Numeral.value [c] = c.toNat - '0'.toNat := by
      rw [Numeral.value, Nat.ofDigitChars_cons, Nat.ofDigitChars_nil, Nat.mul_zero, Nat.zero_add]
    simp only [numeral?, htrim, hsign, hvalue, hc, List.all_cons, List.all_nil]
    exact Word.ofInt?_eq_some_iff.2 rfl
  · -- Nothing, a lone sign, or a character that is no digit.
    have hshape : Text.trim [c] = [] ∨ Text.trim [c] = [c] := by
      by_cases hspace : Text.isWhiteSpace c = true
      · exact .inl (by simp [Text.trim, hspace])
      · exact .inr (by simp [Text.trim, hspace])
    rw [if_neg hc]
    rcases hshape with htrim | htrim
    · simp only [numeral?, htrim, numeralSign]
      rfl
    · simp only [numeral?, htrim]
      unfold numeralSign
      split
      · next heq => cases heq; rfl
      · next heq => cases heq; rfl
      · simp [hc]

theorem argument_ofArgument (a : Argument) : argument (ofArgument a) = .ok a.normalised := by
  cases a with
  | number n => simp [ofArgument, argument, Argument.normalised]
  | char c =>
    simp only [ofArgument, argument, argumentOfText, String.toList_singleton, numeral?_singleton,
      Argument.normalised]
    by_cases hc : c.isDigit = true
    · simp only [hc, if_true]
    · simp only [hc]
      rfl

theorem line_toNat (n : UInt32) : line (.int n.toNat) = .ok n := by
  have hlt := n.toNat_lt
  simp only [line]
  rw [if_pos ⟨by omega, by omega⟩, Int.toNat_natCast, UInt32.ofNat_toNat]

theorem term_ofTerm (t : Term) : term (ofTerm t) = .ok t := by
  simp only [ofTerm, term, termOfItems, line_toNat]
  rfl

theorem mapM_map {α β : Type} {read : Json → Except ShapeError β} {write : α → Json}
    {result : α → β} (h : ∀ a, read (write a) = .ok (result a)) (as : List α) :
    (as.map write).mapM read = .ok (as.map result) := by
  induction as with
  | nil => rfl
  | cons a as ih =>
    rw [List.map_cons, List.mapM_cons, h, ih]
    rfl

theorem optionalField_eq_ok {α β : Type} {read : Json → Except ShapeError β} {write : α → Json}
    {result : α → β} (h : ∀ a, read (write a) = .ok (result a)) (hnull : ∀ a, write a ≠ .null)
    {fields : List (String × Json)} {name : String} {o : Option α}
    (hfield : field? fields name = o.map write) :
    optionalField read fields name = .ok (o.map result) := by
  rw [optionalField, hfield]
  cases o with
  | none => rfl
  | some a =>
    show nullable read (write a) = .ok (some (result a))
    unfold nullable
    split
    · next heq => exact absurd heq (hnull a)
    · rw [h]
      rfl

theorem presentField_eq_ok {α : Type} {read : Json → Except ShapeError α}
    {fields : List (String × Json)} {name : String} {v : Json} {a : α}
    (hfield : field? fields name = some v) (h : read v = .ok a) :
    presentField read fields name = .ok (some a) := by
  rw [presentField, hfield]
  show (read v).map some = .ok (some a)
  rw [h]
  rfl

theorem instruction_ofInstruction (i : Instruction) :
    instruction (ofInstruction i) = .ok i.normalised := by
  obtain ⟨op, arg, t⟩ := i
  have hopcode : opcode (.string op.mnemonic) = .ok op :=
    except_bind_eq_ok_iff.2 ⟨op.mnemonic, rfl, by rw [Opcode.ofMnemonic?_mnemonic]; rfl⟩
  simp only [ofInstruction, instruction, instructionOfFields, except_bind_eq_ok_iff]
  refine ⟨arg.map Argument.normalised, ?_, some op, ?_, t, ?_, op, rfl, rfl⟩
  · refine optionalField_eq_ok argument_ofArgument (by rintro (_ | _) <;> simp [ofArgument]) ?_
    cases arg <;> cases t <;> simp [field?, ofOptional, List.lookup_cons]
  · refine presentField_eq_ok ?_ hopcode
    cases arg <;> cases t <;> simp [field?, ofOptional, List.lookup_cons]
  · refine (optionalField_eq_ok term_ofTerm (by simp [ofTerm]) ?_).trans (by rw [Option.map_id'])
    cases arg <;> cases t <;> simp [field?, ofOptional, List.lookup_cons]

theorem word_toInt (w : Word) : word (.int w.toInt) = .ok w := by
  simp only [word, Word.ofInt?_toInt]

theorem program_ofProgram (p : Program) : program (ofProgram p) = .ok p.normalised := by
  have hdata (words : List Word) :
      sequence word (.array (words.map fun w => .int w.toInt)) = .ok words := by
    rw [sequence, mapM_map word_toInt, List.map_id']
  have hinstructions : sequence instruction (.array (p.instructions.map ofInstruction)) =
      .ok (p.instructions.map Instruction.normalised) :=
    mapM_map instruction_ofInstruction p.instructions
  obtain ⟨data, instructions⟩ := p
  simp only [ofProgram, program, except_bind_eq_ok_iff]
  refine ⟨data, ?_, some _, ?_, _, rfl, rfl⟩
  · refine (optionalField_eq_ok hdata (by simp) ?_).trans (by rw [Option.map_id'])
    cases data <;> simp [field?, ofOptional, List.lookup_cons]
  · refine presentField_eq_ok ?_ hinstructions
    cases data <;> simp [field?, ofOptional]

/-- A container gives back the normalised program. -/
theorem decode_encode (p : Program) : decode (encode p).toList = .ok p.normalised := by
  rw [decode, encode, parse_text (plain_ofProgram 123 p)]
  simp only [program_ofProgram]

/-! ## What comes out of a container -/

theorem isDigit_of_argument {v : Json} {c : Char} (h : argument v = .ok (.char c)) :
    c.isDigit = false := by
  unfold argument at h
  split at h
  · split at h
    · cases h
    · cases h
  · next s =>
    unfold argumentOfText at h
    split at h
    · cases h
    · next hnone =>
      split at h
      · next d hd =>
        cases h
        rw [hd, numeral?_singleton] at hnone
        split at hnone
        · cases hnone
        · next hdigit => exact Bool.eq_false_iff.2 hdigit
      · cases h
  · cases h

theorem isDigit_of_nullable {v : Json} {c : Char}
    (h : nullable argument v = .ok (some (.char c))) : c.isDigit = false := by
  unfold nullable at h
  split at h
  · cases h
  · cases hv : argument v with
    | error e =>
      rw [hv] at h
      cases h
    | ok a =>
      rw [hv] at h
      cases h
      exact isDigit_of_argument hv

theorem hasNoDigit_of_instruction {v : Json} {i : Instruction} (h : instruction v = .ok i) :
    i.HasNoDigit := by
  intro c hc
  unfold instruction at h
  split at h
  · next items =>
    cases items with
    | nil => cases h
    | cons first rest =>
      simp only [instructionOfItems, except_bind_eq_ok_iff] at h
      obtain ⟨_, -, arg, harg, _, -, hi⟩ := h
      split at hi
      · cases hi
        change arg = _ at hc
        rw [hc] at harg
        unfold optionalItem at harg
        split at harg
        · cases harg
        · exact isDigit_of_nullable harg
      · cases hi
  · next fields =>
    simp only [instructionOfFields, except_bind_eq_ok_iff] at h
    obtain ⟨arg, harg, _, -, _, -, _, -, hi⟩ := h
    cases hi
    change arg = _ at hc
    rw [hc] at harg
    unfold optionalField at harg
    split at harg
    · cases harg
    · exact isDigit_of_nullable harg
  · cases h

theorem items_of_presentField {β : Type} {read : Json → Except ShapeError β}
    {fields : List (String × Json)} {name : String} {bs : List β}
    (h : presentField (sequence read) fields name = .ok (some bs)) :
    ∃ items : List Json, items.mapM read = .ok bs := by
  unfold presentField at h
  split at h
  · cases h
  · next v _ =>
    cases hv : sequence read v with
    | error e =>
      rw [hv] at h
      cases h
    | ok _ =>
      rw [hv] at h
      cases h
      unfold sequence at hv
      split at hv
      · exact ⟨_, hv⟩
      · cases hv

theorem hasNoDigit_of_program {v : Json} {p : Program} (h : program v = .ok p) :
    ∀ i ∈ p.instructions, i.HasNoDigit := by
  intro i hi
  -- Either way the instructions were read one by one.
  have hread : ∃ items : List Json, items.mapM instruction = .ok p.instructions := by
    unfold program at h
    split at h
    · next items =>
      obtain ⟨instructions, hmap, heq⟩ := except_bind_eq_ok_iff.1 h
      cases heq
      exact ⟨items, hmap⟩
    · next fields =>
      simp only [except_bind_eq_ok_iff] at h
      obtain ⟨_, -, o, hpresent, instructions, hrequired, heq⟩ := h
      cases heq
      cases o with
      | none => cases hrequired
      | some _ =>
        cases hrequired
        exact items_of_presentField hpresent
    · cases h
  obtain ⟨items, hitems⟩ := hread
  obtain ⟨v, -, hv⟩ := exists_of_mem_mapM hitems hi
  exact hasNoDigit_of_instruction hv

theorem hasNoDigit_of_decode {text : List Char} {p : Program} (h : decode text = .ok p) :
    ∀ i ∈ p.instructions, i.HasNoDigit := by
  unfold decode at h
  split at h
  · cases h
  · split at h
    · cases h
    · next hp =>
      cases h
      exact hasNoDigit_of_program hp

/-- A container gives back the normalised program, that is the program itself if and
only if no argument is a digit, as is so for whatever came out of a container. -/
theorem round_trip (p : Program) :
    decode (encode p).toList = .ok p.normalised ∧
    (decode (encode p).toList = .ok p ↔ ∀ i ∈ p.instructions, i.HasNoDigit) ∧
    ∀ text, decode text = .ok p → decode (encode p).toList = .ok p := by
  have hiff : decode (encode p).toList = .ok p ↔ ∀ i ∈ p.instructions, i.HasNoDigit := by
    rw [decode_encode, Except.ok.injEq, p.normalised_eq_self_iff]
  exact ⟨decode_encode p, hiff, fun _ h => hiff.2 (hasNoDigit_of_decode h)⟩

/-- A program that pushes a sign, as a character: it is not taken for a numeral. -/
theorem round_trip_sign :
    ∃ text,
      decode text = .ok ⟨some [Word.yes], [⟨.push, some (.char '-'), some ⟨1, "", "PUSH '-'"⟩⟩]⟩ ∧
      decode (encode
        ⟨some [Word.yes], [⟨.push, some (.char '-'), some ⟨1, "", "PUSH '-'"⟩⟩]⟩).toList =
          .ok ⟨some [Word.yes], [⟨.push, some (.char '-'), some ⟨1, "", "PUSH '-'"⟩⟩]⟩ := by
  have hback := (round_trip
    ⟨some [Word.yes], [⟨.push, some (.char '-'), some ⟨1, "", "PUSH '-'"⟩⟩]⟩).2.1.2 (by
      intro i hi c hc
      obtain rfl := List.mem_singleton.1 hi
      cases hc
      rfl)
  exact ⟨_, hback, (round_trip _).2.2 _ hback⟩

end Container

end Microstack
