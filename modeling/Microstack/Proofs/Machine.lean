/-
# `Microstack.Proofs.Machine` — what every step of the machine keeps, and every run

What is to hold of a machine after any instruction is asked of the single transfers.
`Transfers P Q` lists what is needed of them: all of them lead from `P` back to `P`, and
the end of an instruction leads to `Q`.  Then every instruction leads from `P` to `Q`
(`Transfers.execute`).

All that a step of the machine can come to is said by `Machine.step_eq_ok_iff` and
`Machine.step_eq_error_iff`, and all that a step of a run can by `Run.Outcome`.

The invariant of the machine is that its memory is loaded and its head below the
capacity.  It holds of every machine that a run can reach, whatever the steps of
the run returned (`Machine.Reachable.invariant`).
-/
import Microstack.Proofs.Microcode

namespace Microstack

/-! ## What an instruction leaves behind -/

open Microcode in
/-- What a property needs of the parts of microcode: all transfers keep `P`, and the
last step of an instruction, which moves the program counter, leads to `Q`. -/
structure Transfers (P Q : Machine → Prop) : Prop where
  transfer : ∀ {α : Type} {c : Microcode α}, Transfer c → Leads P c P
  tick : Leads P tick P
  advance : Leads P (Microcode.advance >>= fun _ => Microcode.tick) Q
  jump : ∀ pc, Leads P (jumpTo pc >>= fun _ => Microcode.tick) Q

namespace Transfers

variable {P Q : Machine → Prop}

theorem leads (h : Transfers P Q) {i : Instruction} {spent left : Nat} {l : Microcode.Latches}
    {c : Microcode Unit} (hc : Microcode.Sequence i spent left l c) : Leads P c Q := by
  induction hc with
  | finish => exact h.advance
  | jump _ => exact (h.transfer (.operand i.target)).bind h.jump
  | halt => exact Leads.throw _
  | unsupported _ => exact Leads.throw _
  | tick _ ih => exact h.tick.bind fun _ => ih
  | transfer hpart _ ih => exact (h.transfer hpart.transfer).bind ih

theorem execute (h : Transfers P Q) (i : Instruction) : Leads P (Microcode.execute i) Q :=
  h.leads (Microcode.sequence_execute i)

/-- A property that does not look at the instruction being executed is kept by
every step of the machine, if it is kept by every transfer. -/
theorem step (h : Transfers P P) (hcurrent : ∀ m c, P m → P { m with current := c }) :
    Leads P Machine.step P :=
  (Leads.modify fun m hm => hcurrent m none hm).bind fun _ =>
    (Microcode.leads_inspect _).bind fun i =>
    (Leads.modify fun m hm => hcurrent m (some i) hm).bind fun _ =>
    (h.execute i).bind fun _ => Leads.pure _

end Transfers

/-! ## The invariant of the machine -/

namespace Machine

variable {program : Program} {input : List Char} {config : Config} {m : Machine}

/-- What every machine keeps that was loaded with a program. -/
structure Invariant (program : Program) (config : Config) (m : Machine) : Prop where
  datapath : m.datapath.Sized config.stackCapacity
  memory : m.memory.Loaded config.memorySize program.instructions

theorem Invariant.fits (h : m.Invariant program config) : m.datapath.Fits := h.datapath.2

theorem Invariant.leads_datapath {α : Type} {act : Datapath.Action α}
    (hact : Leads (Datapath.Sized config.stackCapacity) act
      (Datapath.Sized config.stackCapacity)) :
    Leads (Invariant program config) (Microcode.datapath act) (Invariant program config) :=
  Microcode.leads_datapath (fun _ h => h.datapath) (fun _ _ => hact) fun _ _ h hd =>
    ⟨hd, h.memory⟩

theorem Invariant.leads_memory {α : Type} {act : Memory.Action α}
    (hact : Leads (Memory.Loaded config.memorySize program.instructions) act
      (Memory.Loaded config.memorySize program.instructions)) :
    Leads (Invariant program config) (Microcode.memory act) (Invariant program config) :=
  Microcode.leads_memory (fun _ h => h.memory) (fun _ _ => hact) fun _ _ h hm =>
    ⟨h.datapath, hm⟩

theorem Invariant.transfers (program : Program) (config : Config) :
    Transfers (Invariant program config) (Invariant program config) where
  transfer ht := by
    cases ht with
    | adjustHead delta => exact leads_datapath (Datapath.leads_adjustHead _ delta)
    | push w => exact leads_datapath (Datapath.leads_push _ w)
    | latchAlu op => exact leads_datapath (Datapath.leads_latch _ op)
    | popTruth => exact leads_datapath (Datapath.leads_popTruth _)
    | accumulator => exact Microcode.leads_accumulator
    | top _ => exact Microcode.leads_inspect _
    | topIncremented _ => exact Microcode.leads_inspect _
    | operand _ => exact Microcode.leads_inspect _
    | latchAddress _ =>
      exact (Microcode.leads_inspect _).bind fun a => leads_memory (Memory.leads_latch a)
    | read => exact leads_memory Memory.leads_read
    | write w => exact leads_memory (Memory.leads_write w)
  tick := Leads.modify fun _ h => ⟨h.datapath, h.memory⟩
  advance := fun _ h => ⟨h.datapath, h.memory⟩
  jump _ := fun _ h => ⟨h.datapath, h.memory⟩

theorem Invariant.step (program : Program) (config : Config) :
    Leads (Invariant program config) Machine.step (Invariant program config) :=
  (Invariant.transfers program config).step fun _ _ h => ⟨h.datapath, h.memory⟩

theorem invariant_of_load (h : load program input config = .ok m) :
    m.Invariant program config := by
  simp only [load, except_bind_eq_ok_iff] at h
  obtain ⟨mem, hmem, d, hd, hm⟩ := h
  cases hm
  exact ⟨Datapath.sized_of_create hd, Memory.loaded_of_create hmem⟩

/-! ## Steps -/

def executing (m : Machine) (i : Option Instruction) : Machine := { m with current := i }

theorem Invariant.executing (h : m.Invariant program config) (i : Option Instruction) :
    (m.executing i).Invariant program config := ⟨h.datapath, h.memory⟩

theorem step_apply (m : Machine) :
    step m =
      match m.memory.fetch m.pc with
      | .error f => .error (.fault f) (m.executing none)
      | .ok i =>
        match Microcode.execute i (m.executing (some i)) with
        | .ok _ m' => .ok i.opcode m'
        | .error t m' => .error t m' := by
  show EStateM.bind (Microcode.inspect fun m => m.memory.fetch m.pc) _ (m.executing none) = _
  simp only [EStateM.bind, Microcode.inspect, executing]
  cases m.memory.fetch m.pc with
  | error f => rfl
  | ok i =>
    show EStateM.bind (Microcode.execute i) _ { m with current := some i } = _
    simp only [EStateM.bind]
    cases Microcode.execute i { m with current := some i } with
    | ok u m' => rfl
    | error t m' => rfl

theorem step_eq_ok_iff {opcode : Opcode} {m' : Machine} :
    step m = .ok opcode m' ↔
      ∃ i, m.memory.fetch m.pc = .ok i ∧ opcode = i.opcode ∧
        Microcode.execute i (m.executing (some i)) = .ok () m' := by
  rw [step_apply]
  cases m.memory.fetch m.pc with
  | error f => simp
  | ok i =>
    simp only [Except.ok.injEq, exists_eq_left']
    cases Microcode.execute i (m.executing (some i)) with
    | ok u m' => simp [eq_comm]
    | error t m' => simp

theorem step_eq_error_iff {t : Trap} {m' : Machine} :
    step m = .error t m' ↔
      (∃ f, m.memory.fetch m.pc = .error f ∧ t = .fault f ∧ m' = m.executing none) ∨
      ∃ i, m.memory.fetch m.pc = .ok i ∧
        Microcode.execute i (m.executing (some i)) = .error t m' := by
  rw [step_apply]
  cases m.memory.fetch m.pc with
  | error f => simp [eq_comm]
  | ok i =>
    simp only [reduceCtorEq, false_and, exists_false, false_or, Except.ok.injEq, exists_eq_left']
    cases Microcode.execute i (m.executing (some i)) with
    | ok u m' => simp
    | error t m' => simp

/-- Microcode that fails has not moved the program counter. -/
theorem pc_of_execute_error {i : Instruction} {t : Trap} {m' : Machine}
    (h : Microcode.execute i m = .error t m') : m'.pc = m.pc := by
  refine (Transfers.execute (P := fun s => s.pc = m.pc) (Q := fun _ => True) ?_ i).error rfl h
  refine ⟨fun ht s hs => ?_, fun _ hs => hs, fun _ _ => trivial, fun _ _ _ => trivial⟩
  have hframed := ht.framed s s ⟨rfl, rfl, rfl⟩
  split at hframed
  · exact hframed.1.trans hs
  · exact hframed.1.trans hs

theorem pc_of_step_error {t : Trap} {m' : Machine} (h : step m = .error t m') :
    m'.pc = m.pc := by
  rcases step_eq_error_iff.1 h with ⟨_, -, -, rfl⟩ | ⟨i, -, hexec⟩
  · rfl
  · exact pc_of_execute_error (m := m.executing (some i)) hexec

theorem ticks_of_step {opcode : Opcode} {m' : Machine} (h : step m = .ok opcode m') :
    m'.ticks = m.ticks + opcode.ticks := by
  obtain ⟨i, -, rfl, hexec⟩ := step_eq_ok_iff.1 h
  exact (Microcode.sequence_execute i).ticks_eq (m := m.executing (some i)) hexec

end Machine

/-! ## Reachable states -/

/-- The run after one more step, whatever the step returned. -/
def Run.next (r : Run) : Run :=
  match Run.step r with
  | .ok _ r' => r'
  | .error _ r' => r'

/-- The runs that start with a program and have taken any number of steps. -/
inductive Run.Reachable (program : Program) (input : List Char) (config : Machine.Config) :
    Run → Prop
  | start {r : Run} : Run.start program input config = .ok r → Reachable program input config r
  | next {r : Run} : Reachable program input config r → Reachable program input config r.next

def Machine.Reachable (program : Program) (input : List Char) (config : Machine.Config)
    (m : Machine) : Prop :=
  ∃ r, Run.Reachable program input config r ∧ r.machine = m

/-- All that a step of a run can come to.  At the limit nothing is done; otherwise the machine
takes a step, its ticks are charged, and an instruction that retired is counted. -/
inductive Run.Outcome (r : Run) : EStateM.Result ExecutionError Run (Option Termination) → Prop
  | limitReached : r.limit ≤ r.retired → Outcome r (.ok (some .limitReached) r)
  | retired {op : Opcode} {m : Machine} : r.retired < r.limit →
      Machine.step r.machine = .ok op m → Outcome r (.ok none ((r.charge m).retire op))
  | halted {m : Machine} : r.retired < r.limit →
      Machine.step r.machine = .error .halt m → Outcome r (.ok (some .halted) (r.charge m))
  | inputExhausted {m : Machine} : r.retired < r.limit →
      Machine.step r.machine = .error .inputExhausted m →
      Outcome r (.ok (some .inputExhausted) (r.charge m))
  | fault {f : Fault} {m : Machine} : r.retired < r.limit →
      Machine.step r.machine = .error (.fault f) m →
      Outcome r (.error (ExecutionError.at m f) (r.charge m))

theorem Run.outcome (r : Run) : r.Outcome (Run.step r) := by
  rw [Run.step_apply]
  by_cases hlimit : r.limit ≤ r.retired
  · rw [if_pos hlimit]
    exact .limitReached hlimit
  · rw [if_neg hlimit]
    have hlt := Nat.lt_of_not_le hlimit
    cases hstep : Machine.step r.machine with
    | ok op m => exact .retired hlt hstep
    | error t m =>
      cases t with
      | halt => exact .halted hlt hstep
      | inputExhausted => exact .inputExhausted hlt hstep
      | fault f => exact .fault hlt hstep

theorem Run.step_of_retired {r : Run} {op : Opcode} {m : Machine} (hlt : r.retired < r.limit)
    (h : Machine.step r.machine = .ok op m) :
    Run.step r = .ok none ((r.charge m).retire op) := by
  rw [Run.step_apply, if_neg (Nat.not_le.2 hlt), h]

theorem Run.step_of_halt {r : Run} {m : Machine} (hlt : r.retired < r.limit)
    (h : Machine.step r.machine = .error .halt m) :
    Run.step r = .ok (some .halted) (r.charge m) := by
  rw [Run.step_apply, if_neg (Nat.not_le.2 hlt), h]

theorem Run.step_of_exhausted {r : Run} {m : Machine} (hlt : r.retired < r.limit)
    (h : Machine.step r.machine = .error .inputExhausted m) :
    Run.step r = .ok (some .inputExhausted) (r.charge m) := by
  rw [Run.step_apply, if_neg (Nat.not_le.2 hlt), h]

theorem Run.fault_of_step {r r' : Run} {e : ExecutionError} (h : Run.step r = .error e r') :
    ∃ f m, Machine.step r.machine = .error (.fault f) m ∧ e = ExecutionError.at m f := by
  have houtcome := r.outcome
  rw [h] at houtcome
  cases houtcome with
  | fault _ hstep => exact ⟨_, _, hstep, rfl⟩

theorem Run.next_cases (r : Run) :
    (r.limit ≤ r.retired ∧ r.next = r) ∨
    (r.retired < r.limit ∧ ∃ op m, Machine.step r.machine = .ok op m ∧
      r.next = (r.charge m).retire op) ∨
    (r.retired < r.limit ∧ ∃ t m, Machine.step r.machine = .error t m ∧ r.next = r.charge m) := by
  have houtcome := r.outcome
  unfold Run.next
  generalize Run.step r = result at houtcome ⊢
  cases houtcome with
  | limitReached hlimit => exact .inl ⟨hlimit, rfl⟩
  | retired hlt hstep => exact .inr (.inl ⟨hlt, _, _, hstep, rfl⟩)
  | halted hlt hstep => exact .inr (.inr ⟨hlt, _, _, hstep, rfl⟩)
  | inputExhausted hlt hstep => exact .inr (.inr ⟨hlt, _, _, hstep, rfl⟩)
  | fault hlt hstep => exact .inr (.inr ⟨hlt, _, _, hstep, rfl⟩)

theorem Run.next_keeps {P : Machine → Prop} (hstep : Leads P Machine.step P) {r : Run}
    (h : P r.machine) : P r.next.machine := by
  rcases r.next_cases with ⟨-, hnext⟩ | ⟨-, op, m, hm, hnext⟩ | ⟨-, t, m, hm, hnext⟩
  · rw [hnext]
    exact h
  · rw [hnext]
    exact hstep.ok h hm
  · rw [hnext]
    exact hstep.error h hm

theorem Run.Reachable.keeps {program : Program} {input : List Char} {config : Machine.Config}
    {P : Machine → Prop} (hload : ∀ m, Machine.load program input config = .ok m → P m)
    (hstep : Leads P Machine.step P) {r : Run} (h : Run.Reachable program input config r) :
    P r.machine := by
  induction h with
  | start hstart =>
    simp only [Run.start, except_bind_eq_ok_iff] at hstart
    obtain ⟨m, hm, heq⟩ := hstart
    cases heq
    exact hload m hm
  | next _ ih => exact Run.next_keeps hstep ih

/-- The invariant holds of every machine that a run can reach. -/
theorem Machine.Reachable.invariant {program : Program} {input : List Char}
    {config : Machine.Config} {m : Machine} (h : m.Reachable program input config) :
    m.Invariant program config := by
  obtain ⟨r, hr, rfl⟩ := h
  exact hr.keeps (fun _ => Machine.invariant_of_load) (Machine.Invariant.step program config)

end Microstack
