/-
# `Microstack.Proofs.Copy` — a program that copies its input

Five instructions that go round as long as there is input:

    0   PUSH 0        [0]       the input port
    1   READ_DIR      [c]
    2   PUSH 1        [c, 1]    the output port
    3   WRITE_DIR     []
    4   JMP 0         []

`Copying` is what holds before each of them, with one constructor for each point of the program:
what has been copied and what is left make up the input.  A row of the tables leads from each
point to the one below it, and from the last to the first, as long as there is a character to be
read (`Copying.next`).

The number of instructions so far says at which point the loop is and how many characters it has
copied.  The output under any limit can therefore be given as a number of tokens
(`Copying.output_eq`).
-/
import Microstack.Assembly
import Microstack.Proofs.Trace

namespace Microstack

/-! ## The program -/

/-- The program as it is written. -/
def copyText : List Char :=
  ("\n    loop: PUSH 0\n          READ_DIR\n          PUSH 1\n          WRITE_DIR\n" ++
    "          JMP loop\n  ").toList

def copyLoop : Program where
  instructions :=
    [⟨.push, some (.number (.wrap 0)), some ⟨2, "", "PUSH 0"⟩⟩,
      ⟨.readDirect, none, some ⟨3, "", "READ_DIR"⟩⟩,
      ⟨.push, some (.number (.wrap 1)), some ⟨4, "", "PUSH 1"⟩⟩,
      ⟨.writeDirect, none, some ⟨5, "", "WRITE_DIR"⟩⟩,
      ⟨.jmp, some (.number (.wrap 0)), some ⟨6, "", "JMP loop"⟩⟩]

theorem assemble_copyText : Assembly.assemble copyText = .ok copyLoop := by
  decide +kernel

/-- The token for a character: the character itself if its code is at most 127, and its code in
decimal otherwise. -/
def copied (c : Char) : String :=
  if c.toNat ≤ 127 then String.singleton c else Numeral.ofNat c.toNat

theorem token_ofChar (c : Char) : Memory.token (Word.ofChar c) = copied c := by
  unfold Memory.token copied
  rw [Word.toInt_ofChar]
  by_cases hascii : c.toNat ≤ 127
  · rw [if_pos ⟨by omega, by omega⟩, if_pos hascii, Int.toNat_natCast, Char.ofNat_toNat]
  · rw [if_neg (fun h => hascii (by omega)), if_neg hascii]
    rfl

/-! ## The points of the loop -/

/-- The view with a part of the input copied and the rest of it left. -/
def View.copying (v : View) (done rest : List Char) (words : List Word) (pc : Nat) : View :=
  { v with words, input := rest, output := done.map copied, pc }

theorem View.emit_copying (v : View) (done rest : List Char) (words : List Word) (pc : Nat)
    (c : Char) : (v.copying done rest words pc).emit (.ofChar c) =
      v.copying (done ++ [c]) rest words pc := by
  simp only [emit, copying, token_ofChar, List.map_append, List.map_singleton]

/-- What holds at each point of the loop, with the number of instructions and of ticks that it
takes to come there.  `v₀` is the view at the start. -/
inductive Copying (v₀ : View) (input : List Char) : Nat → Nat → View → Prop
  | pushInput {done rest : List Char} : input = done ++ rest →
      Copying v₀ input (5 * done.length) (7 * done.length) (v₀.copying done rest [] 0)
  | read {done rest : List Char} : input = done ++ rest →
      Copying v₀ input (5 * done.length + 1) (7 * done.length + 1)
        (v₀.copying done rest [.wrap 0] 1)
  | pushOutput {done rest : List Char} {c : Char} : input = done ++ c :: rest →
      Copying v₀ input (5 * done.length + 2) (7 * done.length + 3)
        (v₀.copying done rest [.ofChar c] 2)
  | write {done rest : List Char} {c : Char} : input = done ++ c :: rest →
      Copying v₀ input (5 * done.length + 3) (7 * done.length + 4)
        (v₀.copying done rest [.ofChar c, .wrap 1] 3)
  | jump {done rest : List Char} {c : Char} : input = done ++ c :: rest →
      Copying v₀ input (5 * done.length + 4) (7 * done.length + 6)
        (v₀.copying (done ++ [c]) rest [] 4)

namespace Copying

variable {v₀ v : View} {input : List Char} {n t : Nat}

/-- From every point the loop goes on to the next one, unless it has come to its read with all
of the input behind it. -/
theorem next (h : Copying v₀ input n t v) (hcapacity : 3 ≤ v₀.capacity)
    (hn : n < 5 * input.length + 1) :
    ∃ i v', copyLoop.instructions[v.pc]? = some i ∧ i.Acts v v' ∧
      Copying v₀ input (n + 1) (t + i.opcode.ticks) v' := by
  cases h with
  | @pushInput done rest hinput =>
    have hroom : (v₀.copying done rest [] 0).words.length + 1 < v₀.capacity := by
      show 0 + 1 < v₀.capacity
      omega
    exact ⟨_, _, rfl, .inl (.push rfl hroom), .read hinput⟩
  | @read done rest hinput =>
    cases rest with
    | nil =>
      -- With no character left, the count is already the one that `hn` rules out.
      rw [hinput, List.append_nil] at hn
      exact absurd hn (Nat.lt_irrefl _)
    | cons c rest =>
      exact ⟨_, _, rfl, .inl (.readInput (w := []) rfl rfl rfl), .pushOutput hinput⟩
  | @pushOutput done rest c hinput =>
    have hroom : (v₀.copying done rest [.ofChar c] 2).words.length + 1 < v₀.capacity := by
      show 1 + 1 < v₀.capacity
      omega
    exact ⟨_, _, rfl, .inl (.push rfl hroom), .write hinput⟩
  | @write done rest c hinput =>
    refine ⟨_, _, rfl, .inl (.writeOutput (w := []) rfl rfl), ?_⟩
    rw [View.emit_copying]
    exact .jump hinput
  | @jump done rest c hinput =>
    -- The way round has been counted as one more character.
    have hlength : (done ++ [c]).length = done.length + 1 := by
      rw [List.length_append, List.length_singleton]
    have hnext : Copying v₀ input (5 * (done ++ [c]).length) (7 * (done ++ [c]).length)
        (v₀.copying (done ++ [c]) rest [] 0) :=
      .pushInput (hinput.trans (List.append_cons done c rest))
    rw [hlength] at hnext
    exact ⟨_, _, rfl, .inl (.jump rfl (by decide)), hnext⟩

/-- The loop goes round for any number of instructions, up to the read that finds no character
left. -/
theorem exists_trace (v₀ : View) (hcapacity : 3 ≤ v₀.capacity)
    (hn : n ≤ 5 * input.length + 1) :
    ∃ t v, Trace copyLoop (v₀.copying [] input [] 0) n t v ∧ Copying v₀ input n t v := by
  induction n with
  | zero => exact ⟨0, _, .start, .pushInput (List.nil_append input).symm⟩
  | succ n ih =>
    obtain ⟨t, v, htrace, hpoint⟩ := ih (Nat.le_of_succ_le hn)
    obtain ⟨i, v', hi, hacts, hpoint'⟩ := hpoint.next hcapacity hn
    exact ⟨_, v', htrace.next hi hacts, hpoint'⟩

theorem output_eq (h : Copying v₀ input n t v) :
    v.output = (input.map copied).take ((n + 1) / 5) := by
  -- What has been copied comes first in the input, so only its length is left to look at.
  have htake {done rest : List Char} {k : Nat} (hinput : input = done ++ rest)
      (hk : k = done.length) : done.map copied = (input.map copied).take k := by
    rw [hinput, hk, List.map_append, List.take_left' (List.length_map _)]
  cases h with
  | pushInput hinput => exact htake hinput (by omega)
  | read hinput => exact htake hinput (by omega)
  | pushOutput hinput => exact htake hinput (by omega)
  | write hinput => exact htake hinput (by omega)
  | @jump done rest c hinput =>
    refine htake (hinput.trans (List.append_cons done c rest)) ?_
    rw [List.length_append, List.length_singleton]
    omega

theorem eq_of_all (h : Copying v₀ input n t v) (hn : n = 5 * input.length + 1) :
    v = v₀.copying input [] [.wrap 0] 1 ∧ t = 7 * input.length + 1 := by
  cases h with
  | @read done rest hinput =>
    have hrest : rest = [] := by
      rw [hinput, List.length_append] at hn
      exact List.eq_nil_of_length_eq_zero (by omega)
    subst hrest
    rw [List.append_nil] at hinput
    subst hinput
    exact ⟨rfl, rfl⟩
  | pushInput => omega
  | pushOutput => omega
  | write => omega
  | jump => omega

end Copying

/-! ## Its runs -/

/-- Whatever the input, the loop copies it token by token.  A limit that leaves room for all of
it is not reached: the run ends with the read that finds the input empty.  A lower limit cuts the
output short, after as many tokens as it has room for. -/
theorem copy_loop_copies (input : List Char) (config : Machine.Config)
    (hmemory : 134 ≤ config.memorySize) (hstack : 3 ≤ config.stackCapacity) :
    Assembly.assemble copyText = .ok copyLoop ∧
    (5 * input.length + 1 < config.instructionLimit →
      ∃ report, simulate copyLoop input config = .ok report ∧
        report.termination = .inputExhausted ∧
        report.instructions = 5 * input.length + 1 ∧ report.ticks = 7 * input.length + 2 ∧
        report.output = input.map copied) ∧
    (config.instructionLimit ≤ 5 * input.length + 1 →
      ∃ report, simulate copyLoop input config = .ok report ∧
        report.termination = .limitReached ∧
        report.instructions = config.instructionLimit ∧
        report.output = (input.map copied).take ((config.instructionLimit + 1) / 5)) := by
  obtain ⟨r, hstart⟩ := Run.exists_start_iff.2 (show copyLoop.length + 128 < config.memorySize ∧
    copyLoop.words.length ≤ 128 ∧ 0 < config.stackCapacity from ⟨hmemory, by decide, by omega⟩)
  refine ⟨assemble_copyText, fun hroom => ?_, fun hcut => ?_⟩
  · obtain ⟨t, v, htrace, hpoint⟩ := Copying.exists_trace (View.initial copyLoop input config)
      hstack (Nat.le_refl _)
    obtain ⟨rfl, rfl⟩ := hpoint.eq_of_all rfl
    exact simulate_of_trace hstart htrace (Nat.le_of_lt hroom) fun r hr =>
      hr.dry hroom rfl rfl (w := []) rfl rfl rfl
  · obtain ⟨t, v, htrace, hpoint⟩ := Copying.exists_trace (View.initial copyLoop input config)
      hstack hcut
    obtain ⟨report, hreport, hend, hinstructions, -, houtput⟩ :=
      simulate_of_trace hstart htrace (Nat.le_refl _) fun r hr => hr.cut (Nat.le_refl _)
    exact ⟨report, hreport, hend, hinstructions, houtput.trans hpoint.output_eq⟩

/-- Two characters, the second not an ASCII one, in the smallest machine.  With a limit of twelve
the run finds the end of the input after eleven instructions; a limit of eight is one short of
the second token. -/
theorem copy_loop_copies_accent :
    (∃ report, simulate copyLoop "aé".toList ⟨134, 3, 12⟩ = .ok report ∧
      report.termination = .inputExhausted ∧ report.instructions = 11 ∧ report.ticks = 16 ∧
      report.output = ["a", "233"]) ∧
    ∃ report, simulate copyLoop "aé".toList ⟨134, 3, 8⟩ = .ok report ∧
      report.termination = .limitReached ∧ report.instructions = 8 ∧ report.output = ["a"] := by
  obtain ⟨-, hall, -⟩ := copy_loop_copies "aé".toList ⟨134, 3, 12⟩ (by decide) (by decide)
  obtain ⟨-, -, hcut⟩ := copy_loop_copies "aé".toList ⟨134, 3, 8⟩ (by decide) (by decide)
  have htokens : "aé".toList.map copied = ["a", "233"] := by decide +kernel
  rw [htokens] at hall hcut
  exact ⟨hall (by decide), hcut (by decide)⟩

end Microstack
