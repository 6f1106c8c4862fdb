/-
# `Microstack.Proofs.Ending` — whether a run that has ended stays ended

A run can be stepped after it has ended.  Most ends are final: the step that found one leaves
a run that the next step finds as it is, and so on for ever.

    limit          is looked at before anything is done
    HALT           has no microcode
    READ_NDR       latch the top, READ        finds the input empty again
    WRITE_NDR      latch the top, READ        finds the input empty again
    READ_DIR       latch the top, drop it ──tick──▶ READ

The last one is not.  When `READ_DIR` finds the input empty it has dropped the address that
it was to read, and the next step executes it on the word below: it may read that address and
retire, or fault, or find the input empty once more, and has spent a tick in any case.
-/
import Microstack.Proofs.Causality
import Microstack.Proofs.Limit

namespace Microstack

/-! ## Microcode that can be tried again -/

/-- The input is empty, and both the top of the stack and the address register stand for the
input port. -/
structure Machine.Dry (m : Machine) : Prop where
  top : ∃ a, m.datapath.top 0 = .ok a ∧ a.toInt = 0
  address : m.memory.address = 0
  input : m.memory.input = []

/-- Loading from the top of the stack finds the input empty, and changes nothing. -/
theorem Machine.Dry.load {m : Machine} (h : m.Dry) (f : Word → Microcode Unit) :
    (Microcode.latchAddress 0 >>= fun _ => Microcode.read >>= f) m =
      .error .inputExhausted m := by
  have hlatch : Microcode.latchAddress 0 m = .ok () m := by
    obtain ⟨a, htop, ha⟩ := h.top
    refine Microcode.latchAddress_eq_ok_iff.2 ⟨a, htop, by omega, by omega, ?_⟩
    rw [ha, Int.toNat_zero, ← h.address]
    rfl
  rw [bind_of_ok hlatch]
  refine bind_of_error ?_
  rw [Microcode.read, Microcode.memory_apply, Memory.read_input_empty h.address h.input]

namespace Microcode

variable {i : Instruction} {spent left : Nat} {l l' : Latches} {m m' : Machine}

/-- The address register holds the word on top of the stack, if that is what was latched. -/
def Latches.OnTop (l : Latches) (m : Machine) : Prop :=
  l.onTop = true → ∃ a, m.datapath.top 0 = .ok a ∧ a.toInt = m.memory.address

theorem Part.onTop {α : Type} {c : Microcode α} (hc : Part i spent l l' c) {a : α}
    (h : c m = .ok a m') : l'.OnTop m' := by
  intro htop
  cases hc with
  | latchAddress offset =>
    obtain rfl : offset = 0 := of_decide_eq_true htop
    obtain ⟨w, hw, hnonneg, -, rfl⟩ := latchAddress_eq_ok_iff.1 h
    exact ⟨w, hw, (Int.toNat_of_nonneg hnonneg).symm⟩
  | _ => cases htop

/-- Where microcode finds the input empty, the address that it read is still on the stack,
unless it is that of `READ_DIR`. -/
theorem Sequence.dry {c : Microcode Unit} (hc : Sequence i spent left l c) (htop : l.OnTop m)
    (hop : i.opcode ≠ .readDirect) (h : c m = .error .inputExhausted m') : m'.Dry := by
  induction hc generalizing m with
  | finish => cases h
  | jump _ =>
    obtain ⟨_, -, hf, -⟩ := jump_eq_error_iff.1 h
    cases hf
  | halt => cases h
  | unsupported _ => cases h
  | tick _ ih => exact ih (m := { m with ticks := m.ticks + 1 }) htop h
  | transfer hpart _ ih =>
    rcases bind_eq_error_iff.1 h with hempty | ⟨a, mid, hmid, hrest⟩
    · rcases hpart.stop hempty with ⟨f, hf⟩ | ⟨-, rfl, hread⟩
      · cases hf
      · obtain ⟨w, hw, haddress⟩ := htop (hread.onTop hop)
        exact ⟨⟨w, hw, by rw [haddress, hread.address]; rfl⟩, hread.address, hread.input⟩
    · exact ih a (hpart.onTop hmid) hrest

/-- An instruction that has stopped without a fault stops again, with nothing changed; a
`READ_DIR` need not. -/
theorem execute_again {t : Trap} (h : execute i m = .error t m')
    (hfault : ∀ f, t ≠ .fault f) (hop : t = .inputExhausted → i.opcode ≠ .readDirect) :
    execute i m' = .error t m' := by
  rcases (sequence_execute i).stop h with ⟨f, rfl⟩ | ⟨rfl, -, rfl⟩ | ⟨rfl, k, hk, -⟩
  · exact absurd rfl (hfault f)
  · exact h
  · have hdry := (sequence_execute i).dry nofun (hop rfl) h
    -- The opcodes that read memory are those with a list of ticks.
    have hreads : i.opcode = .readIndirect ∨ i.opcode = .writeIndirect := by
      revert hk hop
      cases i.opcode <;> simp [Opcode.readTicks]
    rcases hreads with hreads | hreads
    · simp only [execute, hreads]
      exact hdry.load _
    · simp only [execute, hreads]
      exact hdry.load _

end Microcode

/-! ## Steps that can be taken again -/

namespace Machine

variable {program : Program} {config : Config} {m m' : Machine} {t : Trap}

theorem fetch_of_step_error (hm : m.Invariant program config)
    (h : step m = .error t m') : m'.memory.fetch m'.pc = m.memory.fetch m.pc := by
  have hm' := (Invariant.step program config).error hm h
  rw [hm'.memory.fetch_eq, hm.memory.fetch_eq, pc_of_step_error h]

theorem step_again (hm : m.Invariant program config) (h : step m = .error t m')
    (hfault : ∀ f, t ≠ .fault f)
    (hop : t = .inputExhausted → m'.current.map Instruction.opcode ≠ some .readDirect) :
    step m' = .error t m' := by
  have hfetch := fetch_of_step_error hm h
  rcases step_eq_error_iff.1 h with ⟨f, -, rfl, -⟩ | ⟨i, hi, hexec⟩
  · exact absurd rfl (hfault f)
  · have hcurrent := (stopped_of_execute hexec).current
    have hsame : m'.executing (some i) = m' := by
      rw [executing, ← hcurrent]
    refine step_eq_error_iff.2 (.inr ⟨i, hfetch.trans hi, ?_⟩)
    rw [hsame]
    refine Microcode.execute_again hexec hfault fun ht heq => hop ht ?_
    rw [hcurrent, Option.map_some, heq]

theorem ticks_of_readDirect_again {last : Machine} (hm : m.Invariant program config)
    (h : step m = .error .inputExhausted m')
    (hop : m'.current.map Instruction.opcode = some .readDirect)
    (hagain : step m' = .error .inputExhausted last) : last.ticks = m'.ticks + 1 := by
  have hfetch := fetch_of_step_error hm h
  rcases step_eq_error_iff.1 h with ⟨f, -, hf, -⟩ | ⟨i, hi, hexec⟩
  · cases hf
  rcases step_eq_error_iff.1 hagain with ⟨f, -, hf, -⟩ | ⟨j, hj, hexec'⟩
  · cases hf
  have hsame : j = i := Except.ok.inj (hj.symm.trans (hfetch.trans hi))
  subst hsame
  rw [(stopped_of_execute hexec).current, Option.map_some] at hop
  obtain ⟨k, hk, hticks⟩ := (stopped_of_execute hexec').inputExhausted rfl
  rw [Option.some.inj hop] at hk
  rw [hticks, List.mem_singleton.1 hk]

end Machine

/-! ## Runs that have ended -/

/-- What can be seen of a run between two steps. -/
structure Run.View where
  pc : Nat
  ticks : Nat
  stack : List Word
  memory : Nat → Option Word
  input : List Char
  output : List String
  retired : Nat

namespace Run

variable {program : Program} {input : List Char} {config : Machine.Config} {r r' : Run}
  {ending : Termination}

def view (r : Run) : View where
  pc := r.machine.pc
  ticks := r.machine.ticks
  stack := r.machine.datapath.words
  memory := r.machine.memory.peek?
  input := r.machine.memory.input
  output := r.machine.memory.output.toList
  retired := r.retired

def after (r : Run) : Nat → Run
  | 0 => r
  | n + 1 => (r.after n).next

/-- However often the run is stepped, it ends in the same way and looks the same. -/
def Settled (ending : Termination) (r : Run) : Prop :=
  ∀ n, ∃ r', step (r.after n) = .ok (some ending) r' ∧ r'.view = r.view

theorem settled_of_step (h : step r = .ok (some ending) r) : r.Settled ending := by
  intro n
  have hafter : r.after n = r := by
    induction n with
    | zero => rfl
    | succ n ih =>
      show (r.after n).next = r
      rw [ih]
      exact next_of_step h
  rw [hafter]
  exact ⟨r, h, rfl⟩

/-- The run was stopped by a `READ_DIR` that found the input empty. -/
def StoppedInReadDirect (ending : Termination) (r : Run) : Prop :=
  ending = .inputExhausted ∧ r.machine.current.map Instruction.opcode = some .readDirect

theorem charge_self (r : Run) : r.charge r.machine = r := by
  cases hcurrent : r.machine.current with
  | none => rw [charge_of_none hcurrent]
  | some i => rw [charge_of_current hcurrent, Nat.sub_self, Tally.add_zero]

theorem charge_charge (r : Run) (m : Machine) : (r.charge m).charge m = r.charge m :=
  charge_self (r.charge m)

theorem machine_of_exhausted (h : step r = .ok (some .inputExhausted) r') :
    ∃ m, Machine.step r.machine = .error .inputExhausted m ∧ r' = r.charge m := by
  have houtcome := r.outcome
  rw [h] at houtcome
  cases houtcome with
  | inputExhausted _ hstep => exact ⟨_, hstep, rfl⟩

/-- The step after the one that ended a run finds the run as it is, unless a `READ_DIR`
stopped it. -/
theorem step_again (hr : Reachable program input config r)
    (h : step r = .ok (some ending) r') (hop : ¬ r'.StoppedInReadDirect ending) :
    step r' = .ok (some ending) r' := by
  have hinvariant : r.machine.Invariant program config :=
    Machine.Reachable.invariant ⟨r, hr, rfl⟩
  have hresult := r.outcome
  rw [h] at hresult
  cases hresult with
  | limitReached hlimit => exact step_at_limit hlimit
  | @halted m hlt hstep =>
    have hagain := Machine.step_again hinvariant hstep (by simp) (by simp)
    rw [step_of_halt (r := r.charge m) hlt hagain, charge_charge]
  | @inputExhausted m hlt hstep =>
    have hagain := Machine.step_again hinvariant hstep (by simp) fun _ hread => hop ⟨rfl, hread⟩
    rw [step_of_exhausted (r := r.charge m) hlt hagain, charge_charge]

/-- What the next step returns, unless it is a fault. -/
def result? (r : Run) : Option (Option Termination) :=
  match step r with
  | .ok result _ => some result
  | .error _ _ => none

theorem step_of_result? {result : Option Termination} (h : r.result? = some result) :
    step r = .ok result r.next := by
  unfold result? at h
  unfold Run.next
  split at h
  · next found r' hstep =>
    rw [hstep, Option.some.inj h]
  · cases h

end Run

/-- A run that has ended stays ended, and no later step changes anything about it, exactly if
it was not a `READ_DIR` that found the input empty. -/
theorem ended_run_settled_iff {program : Program} {input : List Char} {config : Machine.Config}
    {r r' : Run} {ending : Termination} (hr : Run.Reachable program input config r)
    (h : Run.step r = .ok (some ending) r') :
    r'.Settled ending ↔ ¬ r'.StoppedInReadDirect ending := by
  constructor
  · rintro hsettled ⟨rfl, hop⟩
    obtain ⟨last, hagain, hview⟩ := hsettled 0
    have hsame : last.machine.ticks = r'.machine.ticks := congrArg Run.View.ticks hview
    have hticks : last.machine.ticks = r'.machine.ticks + 1 := by
      obtain ⟨m, hstep, rfl⟩ := Run.machine_of_exhausted h
      obtain ⟨m', hstep', rfl⟩ := Run.machine_of_exhausted hagain
      exact Machine.ticks_of_readDirect_again (Machine.Reachable.invariant ⟨r, hr, rfl⟩) hstep
        hop hstep'
    omega
  · intro hop
    exact Run.settled_of_step (Run.step_again hr h hop)

/-- A `READ_NDR` that found the input empty in its second read, after a tick, is the end of
its run. -/
theorem ended_run_settled_iff_second_read :
    ∃ r r', Run.Reachable readThroughZero [] ⟨131, 4, 9⟩ r ∧
      Run.step r = .ok (some .inputExhausted) r' ∧ r'.machine.ticks = r.machine.ticks + 1 ∧
      r'.Settled .inputExhausted := by
  have hrun : (Run.start readThroughZero [] ⟨131, 4, 9⟩).toOption.map (fun r =>
      (r.next.result?, r.next.machine.ticks, r.next.next.machine.ticks,
        r.next.next.machine.current.map Instruction.opcode)) =
      some (some (some .inputExhausted), 1, 2, some .readIndirect) := by decide +kernel
  obtain ⟨r, hstart, hrun⟩ := exists_of_toOption_map hrun
  simp only [Prod.mk.injEq] at hrun
  obtain ⟨hresult, hbefore, hafter, hop⟩ := hrun
  have hreach := (Run.Reachable.start hstart).next
  have hstep := Run.step_of_result? hresult
  refine ⟨r.next, r.next.next, hreach, hstep, by omega, ?_⟩
  refine (ended_run_settled_iff hreach hstep).2 fun hread => ?_
  cases hop.symm.trans hread.2

/-- Reads the input with another address below it on the stack. -/
def readOverAddress : Program where
  instructions :=
    [{ opcode := .push, argument := some (.number (.wrap 5)) },
     { opcode := .push, argument := some (.number (.wrap 0)) },
     { opcode := .readDirect },
     { opcode := .halt }]

/-- With no input this run ends, and its next step retires the instruction that ended it. -/
theorem ended_run_goes_on :
    ∃ r r' last, Run.Reachable readOverAddress [] ⟨133, 4, 9⟩ r ∧
      Run.step r = .ok (some .inputExhausted) r' ∧ Run.step r' = .ok none last ∧
      ¬ r'.Settled .inputExhausted := by
  have hrun : (Run.start readOverAddress [] ⟨133, 4, 9⟩).toOption.map (fun r =>
      (r.next.next.result?, r.next.next.next.result?)) =
      some (some (some .inputExhausted), some none) := by decide +kernel
  obtain ⟨r, hstart, hrun⟩ := exists_of_toOption_map hrun
  obtain ⟨hend, hon⟩ := Prod.mk.inj hrun
  have hstep := Run.step_of_result? hon
  refine ⟨r.next.next, _, _, (Run.Reachable.start hstart).next.next, Run.step_of_result? hend,
    hstep, fun hsettled => ?_⟩
  obtain ⟨_, hagain, -⟩ := hsettled 0
  cases hstep.symm.trans hagain

end Microstack
