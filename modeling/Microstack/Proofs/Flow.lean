/-
# `Microstack.Proofs.Flow` — where an instruction goes, and what it can find wrong in the text

An instruction that retires leaves the program counter at the next instruction or at the
target of a jump.  A fault of one lies in the data that it works on, or in the program text,
and the latter only where the argument is looked at:

    NoInstruction                        the fetch, and no microcode
    MissingArgument, InvalidArgument     PUSH, JMP and JNT, from their argument alone

The first is `Sequence.pc_cases`, by induction on microcode.  For the second, an action
`Spares` a kind of failure if it never fails in that way; all transfers spare the faults of the
text but the look at the argument (`Part.literal_of_fault`).
-/
import Microstack.Proofs.Machine

namespace Microstack

/-! ## Faults that lie in the program text -/

/-- There is no instruction, or the argument of one is missing or of no use. -/
def Fault.isTextual : Fault → Bool
  | noInstruction .. | missingArgument .. | invalidArgument .. => true
  | _ => false

def Trap.isTextual : Trap → Bool
  | fault cause => cause.isTextual
  | halt | inputExhausted => false

/-- If there is a fault, it does not lie in the program text. -/
def OnData {α : Type} (x : Except Fault α) : Prop := ∀ f, x = .error f → f.isTextual = false

namespace OnData

variable {α β : Type}

theorem ok (a : α) : OnData (.ok a) := by
  intro f h
  cases h

theorem error {f : Fault} (hf : f.isTextual = false) : OnData (.error f : Except Fault α) := by
  rintro _ ⟨⟩
  exact hf

theorem bind {x : Except Fault α} {g : α → Except Fault β} (hx : OnData x)
    (hg : ∀ a, OnData (g a)) : OnData (x >>= g) := by
  intro f h
  rcases except_bind_eq_error_iff.1 h with hfail | ⟨a, -, hrest⟩
  · exact hx f hfail
  · exact hg a f hrest

theorem ite {c : Prop} [Decidable c] {x y : Except Fault α} (hx : OnData x) (hy : OnData y) :
    OnData (if c then x else y) := by
  split
  · exact hx
  · exact hy

/-! What the datapath looks at. -/

theorem top (d : Datapath) (offset : Nat) : OnData (d.top offset) :=
  .ite (.error rfl) (.ite (.error rfl) (.ok _))

theorem checked (op : AluOp) (result : Option Word) : OnData (AluOp.checked op result) := by
  cases result with
  | some w => exact .ok w
  | none => exact .error rfl

theorem remainder (a b : Word) : OnData (AluOp.remainder a b) := by
  rw [AluOp.remainder_eq]
  exact .ite (.error rfl) (.ite (.error rfl) (.checked _ _))

theorem power (base exponent : Word) : OnData (AluOp.power base exponent) :=
  .ite (.error rfl) (.checked _ _)

theorem complement (b : Word) : OnData (AluOp.complement b) := by
  unfold AluOp.complement
  split
  · exact .checked _ _
  · exact .error rfl

theorem topIncremented (d : Datapath) (offset : Nat) : OnData (d.topIncremented offset) := by
  unfold Datapath.topIncremented
  split
  · next f hf => exact .error (top d offset f hf)
  · exact .checked _ _

theorem result (d : Datapath) (op : AluOp) : OnData (d.result op) := by
  cases op with
  | mod => exact (top d 1).bind fun a => (top d 0).bind fun b => .remainder a b
  | plus => exact (top d 1).bind fun _ => (top d 0).bind fun _ => .checked _ _
  | mult => exact (top d 1).bind fun _ => (top d 0).bind fun _ => .checked _ _
  | pow => exact (top d 0).bind fun a => (top d 1).bind fun b => .power a b
  | lt => exact (top d 1).bind fun _ => (top d 0).bind fun _ => .ok _
  | neg => exact (top d 0).bind fun _ => .checked _ _
  | invert => exact (top d 0).bind fun b => .complement b
  | increment => exact (top d 1).bind fun _ => .checked _ _
  | notTrue => exact (top d 0).bind fun _ => .ok _

theorem dataIndex (m : Memory) : OnData m.dataIndex := by
  unfold Memory.dataIndex
  refine .ite (.error rfl) ?_
  split
  · exact .error rfl
  · exact .ok _

end OnData

/-- The action does not fail in the given way. -/
def Spares {ε σ α : Type} (F : ε → Bool) (c : EStateM ε σ α) : Prop :=
  ∀ s e s', c s = .error e s' → F e = false

namespace Spares

variable {ε σ α β : Type} {F : ε → Bool}

theorem bind {c : EStateM ε σ α} {g : α → EStateM ε σ β} (hc : Spares F c)
    (hg : ∀ a, Spares F (g a)) : Spares F (c >>= g) := by
  intro s e s' h
  rcases bind_eq_error_iff.1 h with hfail | ⟨a, mid, -, hrest⟩
  · exact hc s e s' hfail
  · exact hg a mid e s' hrest

theorem of_completes {c : EStateM ε σ α} (hc : ∀ s, ∃ a s', c s = .ok a s') : Spares F c := by
  intro s e s' h
  obtain ⟨a, mid, hok⟩ := hc s
  cases h.symm.trans hok

/-! Transfers of the datapath and of memory. -/

theorem adjustHead (delta : Int) : Spares Fault.isTextual (Datapath.adjustHead delta) := by
  intro d f d' h
  unfold Datapath.adjustHead at h
  split at h
  · cases h
    rfl
  · split at h
    · cases h
    · cases h
      rfl

theorem latch (op : AluOp) : Spares Fault.isTextual (Datapath.latch op) := by
  intro d f d' h
  unfold Datapath.latch at h
  split at h
  · cases h
  · next hf =>
    cases h
    exact OnData.result d op f hf

theorem push (w : Word) : Spares Fault.isTextual (Datapath.push w) :=
  bind (c := Datapath.store w) (of_completes fun _ => ⟨_, _, rfl⟩) fun _ => adjustHead 1

theorem popTruth : Spares Fault.isTextual Datapath.popTruth :=
  (latch .notTrue).bind fun _ => (adjustHead (-1)).bind fun _ =>
    of_completes fun _ => ⟨_, _, rfl⟩

theorem latchMemory (a : Word) : Spares Trap.isTextual (Memory.latch a) := by
  intro m t m' h
  unfold Memory.latch at h
  split at h
  · cases h
  · cases h
    rfl

theorem readMemory : Spares Trap.isTextual Memory.read := by
  intro m t m' h
  unfold Memory.read at h
  split at h
  · cases h
    rfl
  · split at h
    · cases h
      rfl
    · cases h
  · split at h
    · cases h
    · next f hf =>
      cases h
      exact OnData.dataIndex m f hf

theorem writeMemory (w : Word) : Spares Trap.isTextual (Memory.write w) := by
  intro m t m' h
  unfold Memory.write at h
  split at h
  · cases h
    rfl
  · cases h
  · split at h
    · cases h
    · next f hf =>
      cases h
      exact OnData.dataIndex m f hf

theorem datapath {act : Datapath.Action α} (h : Spares Fault.isTextual act) :
    Spares Trap.isTextual (Microcode.datapath act) := by
  intro m t m' hfail
  obtain ⟨f, d, hact, rfl, -⟩ := Microcode.datapath_eq_error_iff.1 hfail
  exact h m.datapath f d hact

theorem memory {act : Memory.Action α} (h : Spares Trap.isTextual act) :
    Spares Trap.isTextual (Microcode.memory act) := by
  intro m t m' hfail
  obtain ⟨mem, hact, -⟩ := Microcode.memory_eq_error_iff.1 hfail
  exact h m.memory t mem hact

theorem inspect {look : Machine → Except Fault α} (h : ∀ m, OnData (look m)) :
    Spares Trap.isTextual (Microcode.inspect look) := by
  intro m t m' hfail
  obtain ⟨f, hlook, rfl, -⟩ := Microcode.inspect_eq_error_iff.1 hfail
  exact h m f hlook

end Spares

/-! ## Where an instruction goes -/

namespace Microcode

variable {i : Instruction} {spent left : Nat} {l l' : Latches} {m m' : Machine}

/-- The one transfer with a fault that lies in the program text is the look at the argument. -/
theorem Part.literal_of_fault {α : Type} {c : Microcode α} (hc : Part i spent l l' c) {f : Fault}
    (h : c m = .error (.fault f) m') (hf : f.isTextual = true) :
    i.opcode.takesArgument = true ∧ i.literal = .error f := by
  have hspared (hc : Spares Trap.isTextual c) : False := by
    have hfalse := hc m _ m' h
    rw [Trap.isTextual, hf] at hfalse
    cases hfalse
  cases hc with
  | literal htakes =>
    obtain ⟨found, hfound, heq, -⟩ := inspect_eq_error_iff.1 h
    cases heq
    exact ⟨htakes, hfound⟩
  | top offset => exact (hspared (.inspect fun m => .top m.datapath offset)).elim
  | topIncremented offset =>
    exact (hspared (.inspect fun m => .topIncremented m.datapath offset)).elim
  | push w => exact (hspared (Spares.push w).datapath).elim
  | lower k _ => exact (hspared (Spares.adjustHead (-k)).datapath).elim
  | popTruth => exact (hspared Spares.popTruth.datapath).elim
  | latchAlu op => exact (hspared (Spares.latch op).datapath).elim
  | accumulator _ => exact (hspared (.of_completes fun _ => ⟨_, _, rfl⟩)).elim
  | latchAddress offset =>
    exact (hspared ((Spares.inspect fun m => .top m.datapath offset).bind fun a =>
      (Spares.latchMemory a).memory)).elim
  | read _ _ _ => exact (hspared Spares.readMemory.memory).elim
  | write w _ => exact (hspared (Spares.writeMemory w).memory).elim

namespace Sequence

variable {c : Microcode Unit}

theorem pc_cases (hc : Sequence i spent left l c) {u : Unit} (h : c m = .ok u m') :
    m'.pc = m.pc + 1 ∨ i.opcode.isJump = true ∧ i.target = .ok m'.pc := by
  induction hc generalizing m with
  | finish =>
    cases h
    exact .inl rfl
  | jump hjump =>
    obtain ⟨pc, htarget, rfl⟩ := jump_eq_ok_iff.1 h
    exact .inr ⟨hjump, htarget⟩
  | halt => cases h
  | unsupported _ => cases h
  | tick _ ih => exact ih (m := { m with ticks := m.ticks + 1 }) h
  | transfer hpart _ ih =>
    obtain ⟨a, mid, hmid, hrest⟩ := bind_eq_ok_iff.1 h
    have hpc := ((hpart.transfer.framed m).ok ⟨rfl, rfl, rfl⟩ hmid).1
    rw [← hpc]
    exact ih a hrest

/-- A fault of microcode that lies in the program text lies in the argument. -/
theorem argument_of_fault (hc : Sequence i spent left l c) {f : Fault}
    (h : c m = .error (.fault f) m') (hf : f.isTextual = true) :
    i.opcode.takesArgument = true ∧
      (i.literal = .error f ∨ i.opcode.isJump = true ∧ i.target = .error f) := by
  induction hc generalizing m with
  | finish => cases h
  | jump hjump =>
    have htakes : i.opcode.takesArgument = true := by
      revert hjump
      cases i.opcode <;> decide
    obtain ⟨found, hfound, heq, -⟩ := jump_eq_error_iff.1 h
    cases heq
    exact ⟨htakes, .inr ⟨hjump, hfound⟩⟩
  | halt => cases h
  | unsupported _ =>
    cases h
    cases hf
  | tick _ ih => exact ih (m := { m with ticks := m.ticks + 1 }) h
  | transfer hpart _ ih =>
    rcases bind_eq_error_iff.1 h with hfail | ⟨a, mid, -, hrest⟩
    · obtain ⟨htakes, hliteral⟩ := hpart.literal_of_fault hfail hf
      exact ⟨htakes, .inl hliteral⟩
    · exact ih a hrest

end Sequence

end Microcode

namespace Machine

variable {m m' : Machine}

/-- A step that retires an instruction goes on to the next one, or to the target of a jump.
A `HALT` does neither, and a `JMP` only jumps. -/
theorem pc_of_step {op : Opcode} (h : step m = .ok op m') :
    ∃ i, m.memory.fetch m.pc = .ok i ∧
      (m'.pc = m.pc + 1 ∧ i.opcode ≠ .halt ∧ i.opcode ≠ .jmp ∨
        i.opcode.isJump = true ∧ i.target = .ok m'.pc) := by
  obtain ⟨i, hfetch, -, hexec⟩ := step_eq_ok_iff.1 h
  refine ⟨i, hfetch, ?_⟩
  by_cases hjmp : i.opcode = .jmp
  · simp only [Microcode.execute, hjmp] at hexec
    obtain ⟨pc, htarget, rfl⟩ := Microcode.jump_eq_ok_iff.1 hexec
    exact .inr ⟨by rw [hjmp]; rfl, htarget⟩
  · rcases (Microcode.sequence_execute i).pc_cases hexec with hnext | hjump
    · have hhalt : i.opcode ≠ .halt := by
        intro hhalt
        simp only [Microcode.execute, hhalt] at hexec
        cases hexec
      exact .inl ⟨hnext, hhalt, hjmp⟩
    · exact .inr hjump

end Machine

end Microstack
