/-
# `Microstack.Proofs.Jumps` — where the program counter can come

A step that retires an instruction goes on or jumps, and one that fails leaves the program
counter where it was.  So the program counter stays below any bound that the program respects
(`Program.Within`): neither going on from an instruction nor jumping leads to the bound or
beyond.

A text whose jumps are all written with labels gives such a program, because a label has at
most as many instructions before it as there are.  What can still go wrong with its text is
that the program counter comes right behind the last instruction (`textual_fault`).
-/
import Microstack.Proofs.Flow
import Microstack.Proofs.Meaning

namespace Microstack

/-! ## Programs within a bound -/

/-- Neither going on nor jumping leads to the bound or beyond. -/
structure Program.Within (p : Program) (bound : Nat) : Prop where
  start : 0 < bound
  next : ∀ k i, p.instructions[k]? = some i → i.opcode ≠ .halt → i.opcode ≠ .jmp → k + 1 < bound
  jump : ∀ i ∈ p.instructions, i.opcode.isJump = true → ∀ pc, i.target = .ok pc → pc < bound

section

variable {p : Program} {input : List Char} {config : Machine.Config} {bound : Nat}

theorem Program.Within.step (h : p.Within bound) :
    Leads (fun m => m.Invariant p config ∧ m.pc < bound) Machine.step
      (fun m => m.Invariant p config ∧ m.pc < bound) := by
  rintro m ⟨hm, hpc⟩
  cases hstep : Machine.step m with
  | error t m' =>
    refine ⟨(Machine.Invariant.step p config).error hm hstep, ?_⟩
    rw [Machine.pc_of_step_error hstep]
    exact hpc
  | ok op m' =>
    refine ⟨(Machine.Invariant.step p config).ok hm hstep, ?_⟩
    obtain ⟨i, hfetch, hgoes⟩ := Machine.pc_of_step hstep
    have hi := hm.memory.fetch_eq_ok_iff.1 hfetch
    rcases hgoes with ⟨hnext, hhalt, hjmp⟩ | ⟨hjump, htarget⟩
    · rw [hnext]
      exact h.next m.pc i hi hhalt hjmp
    · exact h.jump i (List.mem_of_getElem? hi) hjump _ htarget

end

/-! ## Jumps that are written with labels -/

namespace Assembly

variable {L : List Line} {p : Program} {i : Instruction}

end Assembly

namespace Assembly

variable {L : List Line} {p : Program} {input : List Char} {config : Machine.Config} {r r' : Run}
  {e : ExecutionError}

end Assembly

namespace Assembly

end Assembly

end Microstack
