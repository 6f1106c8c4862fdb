/-
# `Microstack.Proofs.Location` — where a fault is said to have happened

An execution error names a program counter, an instruction and a tick.  What it names is
told from the machine before the step that failed:

    program counter    inside the program           behind its end
    instruction        the one there                none, and no text
    tick               before its last one          the same as before
    cause              anything but NoInstruction   NoInstruction

A machine that fails has not moved its program counter, and its run has counted no
instruction, although the head, the accumulator and memory may have changed.  That the last
tick was not reached is `Sequence.ticks_lt`: an instruction moves its program counter only
after all that can fault, and ticks once more after that.
-/
import Microstack.Proofs.Accounting
import Microstack.Proofs.Flow

namespace Microstack

/-! ## The text of an instruction -/

theorem Opcode.mnemonic_ne_empty (op : Opcode) : op.mnemonic ≠ "" := by
  cases op <;> decide

theorem Instruction.text_ne_empty (i : Instruction) : i.text ≠ "" := by
  unfold text
  cases i.argument with
  | none => exact i.opcode.mnemonic_ne_empty
  | some arg =>
    intro hempty
    have hmnemonic : i.opcode.mnemonic ++ " " = "" := (String.append_eq_empty_iff.1 hempty).1
    exact i.opcode.mnemonic_ne_empty (String.append_eq_empty_iff.1 hmnemonic).1

/-! ## What an error names -/

/-- The error names what a machine with this program counter and these ticks was about to
execute. -/
structure ExecutionError.LocatedAt (program : Program) (m : Machine) (e : ExecutionError) :
    Prop where
  pc : e.pc = m.pc
  opcode_none : e.opcode = none ↔ program.length ≤ m.pc
  instruction_empty : e.instruction = "" ↔ program.length ≤ m.pc
  noInstruction : (∃ pc n, e.cause = .noInstruction pc n) ↔ program.length ≤ m.pc
  behind : program.length ≤ m.pc → e.tick = m.ticks
  inside : ∀ i, program.instructions[m.pc]? = some i →
    e.opcode = some i.opcode ∧ e.instruction = i.text ∧
      m.ticks ≤ e.tick ∧ e.tick < m.ticks + i.opcode.ticks

theorem ExecutionError.at_of_current {m : Machine} {i : Instruction}
    (h : m.current = some i) (f : Fault) :
    ExecutionError.at m f = ⟨m.ticks, m.pc, some i.opcode, i.text, f⟩ := by
  simp only [ExecutionError.at, h, Option.map_some, Option.getD_some]

namespace Machine

variable {program : Program} {config : Config} {m m' : Machine} {i : Instruction} {f : Fault}

theorem ne_noInstruction_of_execute (h : Microcode.execute i m = .error (.fault f) m')
    (pc n : Nat) : f ≠ .noInstruction pc n := by
  rintro rfl
  obtain ⟨-, hliteral | ⟨-, htarget⟩⟩ := (Microcode.sequence_execute i).argument_of_fault h rfl
  · unfold Instruction.literal at hliteral
    split at hliteral
    · cases hliteral
    · cases hliteral
  · unfold Instruction.target at htarget
    split at htarget
    · cases htarget
    · split at htarget
      · cases htarget
      · cases htarget
    · cases htarget

theorem located_of_length_le (hpc : program.length ≤ m.pc) (n : Nat) :
    (ExecutionError.at (m.executing none) (.noInstruction m.pc n)).LocatedAt program m where
  pc := rfl
  opcode_none := iff_of_true rfl hpc
  instruction_empty := iff_of_true rfl hpc
  noInstruction := iff_of_true ⟨m.pc, n, rfl⟩ hpc
  behind _ := rfl
  inside _ hi := absurd (List.getElem?_eq_some_iff.1 hi).1 (Nat.not_lt.2 hpc)

theorem located_of_execute (hi : program.instructions[m.pc]? = some i)
    (h : Microcode.execute i (m.executing (some i)) = .error (.fault f) m') :
    (ExecutionError.at m' f).LocatedAt program m := by
  have hpc : ¬ program.length ≤ m.pc := Nat.not_le.2 (List.getElem?_eq_some_iff.1 hi).1
  have hstopped := stopped_of_execute h
  have hlt : m'.ticks < m.ticks + i.opcode.ticks :=
    (Microcode.sequence_execute i).ticks_lt (m := m.executing (some i)) h (by simp)
  rw [ExecutionError.at_of_current hstopped.current]
  refine ⟨pc_of_execute_error (m := m.executing (some i)) h, iff_of_false nofun hpc,
    iff_of_false i.text_ne_empty hpc, iff_of_false ?_ hpc, fun hle => absurd hle hpc, ?_⟩
  · rintro ⟨pc, n, hcause⟩
    exact ne_noInstruction_of_execute h pc n hcause
  · intro j hj
    cases hi.symm.trans hj
    exact ⟨rfl, rfl, hstopped.le, hlt⟩

theorem located_of_step (hm : m.Invariant program config)
    (h : step m = .error (.fault f) m') : (ExecutionError.at m' f).LocatedAt program m := by
  rcases step_eq_error_iff.1 h with ⟨found, hfetch, heq, rfl⟩ | ⟨i, hfetch, hexec⟩
  · cases heq
    rw [hm.memory.fetch_eq] at hfetch
    split at hfetch
    · cases hfetch
    · next hnone =>
      cases hfetch
      exact located_of_length_le (List.getElem?_eq_none_iff.1 hnone) _
  · exact located_of_execute (hm.memory.fetch_eq_ok_iff.1 hfetch) hexec

end Machine

theorem Run.next_of_machine_error {r : Run} {t : Trap} {m : Machine}
    (h : Machine.step r.machine = .error t m) :
    r.next.machine.pc = r.machine.pc ∧ r.next.retired = r.retired ∧ r.next.counts = r.counts := by
  rcases r.next_cases with ⟨-, hnext⟩ | ⟨-, op, m', hstep, -⟩ | ⟨-, t', m', hstep, hnext⟩
  · rw [hnext]
    exact ⟨rfl, rfl, rfl⟩
  · cases h.symm.trans hstep
  · rw [hnext]
    exact ⟨Machine.pc_of_step_error hstep, rfl, rfl⟩

def Run.error? (r : Run) : Option ExecutionError :=
  match Run.step r with
  | .ok _ _ => none
  | .error e _ => some e

theorem Run.step_of_error? {r : Run} {e : ExecutionError} (h : r.error? = some e) :
    Run.step r = .error e r.next := by
  unfold Run.error? at h
  unfold Run.next
  split at h
  · cases h
  · next found r' hstep =>
    rw [hstep, Option.some.inj h]

/-! ## Faults are located -/

/-- Whatever keeps an instruction from retiring, the program counter stays where it is and
nothing is counted; and an error tells where the machine was before the step. -/
theorem fault_located {program : Program} {input : List Char} {config : Machine.Config} {r : Run}
    (hr : Run.Reachable program input config r) :
    (∀ t m, Machine.step r.machine = .error t m →
      m.pc = r.machine.pc ∧ r.next.machine.pc = r.machine.pc ∧ r.next.retired = r.retired ∧
        r.next.counts = r.counts) ∧
    ∀ e r', Run.step r = .error e r' → e.LocatedAt program r.machine := by
  constructor
  · intro t m hstep
    exact ⟨Machine.pc_of_step_error hstep, Run.next_of_machine_error hstep⟩
  · intro e r' hstep
    obtain ⟨f, m, hfail, rfl⟩ := Run.fault_of_step hstep
    exact Machine.located_of_step (Machine.Reachable.invariant ⟨r, hr, rfl⟩) hfail

/-- A stack of three words has no place for the value that a `READ_NDR` reads in its second
tick.  The error names that instruction and that tick, although the pointer is already on the
stack. -/
theorem fault_located_second_read :
    ∃ r e r', Run.Reachable readThroughZero ['a'] ⟨131, 3, 9⟩ r ∧ Run.step r = .error e r' ∧
      e = ⟨2, 1, some .readIndirect, "READ_NDR", .stackBounds 2 1 3⟩ ∧
      r'.machine.pc = 1 ∧ r'.retired = 1 ∧ e.LocatedAt readThroughZero r.machine := by
  have hrun : (Run.start readThroughZero ['a'] ⟨131, 3, 9⟩).toOption.map (fun r =>
      (r.next.error?, r.next.next.machine.pc, r.next.next.retired)) =
      some (some ⟨2, 1, some .readIndirect, "READ_NDR", .stackBounds 2 1 3⟩, 1, 1) := by
    decide +kernel
  obtain ⟨r, hstart, hrun⟩ := exists_of_toOption_map hrun
  simp only [Prod.mk.injEq] at hrun
  obtain ⟨herror, hpc, hretired⟩ := hrun
  have hreach := (Run.Reachable.start hstart).next
  have hstep := Run.step_of_error? herror
  exact ⟨r.next, _, _, hreach, hstep, rfl, hpc, hretired, (fault_located hreach).2 _ _ hstep⟩

end Microstack
