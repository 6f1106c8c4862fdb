/-
# `Microstack.Proofs.Trace` — runs followed through the tables of effects

What a program does can be worked out without a machine, on views alone, one row of the
tables of effects after the other:

    v₀ ──PUSH──▶ v₁ ──READ_DIR──▶ v₂ ──▶ ⋯ ──▶ v

This is a trace from `v₀` to `v`, with the number of its instructions and of their ticks.  A
machine that is loaded shows `View.initial`, and the run that starts with it follows every
trace from there as far as its limit allows (`Run.Stands.follow`).

A trace stops where no row applies, or where the limit does.  `simulate_of_trace` gives the
report of a run that stops at the end of a trace, for any way of stopping; two of them follow,
the limit and a `READ_DIR` with no input left.
-/
import Microstack.Proofs.Bounds
import Microstack.Proofs.Indirect
import Microstack.Proofs.Limit

namespace Microstack

/-! ## Traces -/

/-- An instruction leads from one view to another: its row is in one of the two tables. -/
def Instruction.Acts (i : Instruction) (v v' : View) : Prop :=
  Effect i.argument v i.opcode v' ∨ IndirectEffect v i.opcode v'

/-- What a program does from a view on, said by the tables: a number of instructions, the
number of ticks that they take, and the view that they lead to. -/
inductive Trace (program : Program) (v₀ : View) : Nat → Nat → View → Prop
  | start : Trace program v₀ 0 0 v₀
  | next {n t : Nat} {v v' : View} {i : Instruction} : Trace program v₀ n t v →
      program.instructions[v.pc]? = some i → i.Acts v v' →
      Trace program v₀ (n + 1) (t + i.opcode.ticks) v'

/-! ## Steps of the machine -/

/-- With no input left, `READ_DIR` of the input port has dropped its address and spent a tick
when it stops. -/
theorem Microcode.readDirect_of_empty {m : Machine} (h : m.datapath.Fits) {w : List Word}
    {a : Word} (hw : m.datapath.words = w ++ [a]) (ha : a.toInt = 0)
    (hin : m.memory.input = []) :
    readDirect m = .error .inputExhausted
      (m.holding (m.memory.addressed 0) (m.datapath.popped 1) (m.ticks + 1)) := by
  have hlatch : latchAddress 0 m =
      .ok () (m.holding (m.memory.addressed 0) m.datapath m.ticks) := by
    refine latchAddress_eq_ok_iff.2 ⟨a, h.top_zero_eq_ok_iff.2 ⟨w, hw⟩, by omega, by omega, ?_⟩
    rw [ha]
    rfl
  have hdrop : adjustHead (-1) (m.holding (m.memory.addressed 0) m.datapath m.ticks) =
      .ok () (m.holding (m.memory.addressed 0) (m.datapath.popped 1) m.ticks) := by
    refine (adjustHead_eq_ok_iff (k := 1) (by decide)).2 ⟨?_, h.popped 1, rfl⟩
    show 1 ≤ m.datapath.head
    rw [← h.length_words, hw, List.length_append]
    exact Nat.le_add_left _ _
  have hread (d : Datapath) (ticks : Nat) :
      Microcode.read (m.holding (m.memory.addressed 0) d ticks) =
        .error .inputExhausted (m.holding (m.memory.addressed 0) d ticks) := by
    rw [Microcode.read, memory_apply,
      show (m.holding (m.memory.addressed 0) d ticks).memory = m.memory.addressed 0 from rfl,
      Memory.read_input_empty (m := m.memory.addressed 0) rfl hin]
    rfl
  have htick : tick (m.holding (m.memory.addressed 0) (m.datapath.popped 1) m.ticks) =
      .ok () (m.holding (m.memory.addressed 0) (m.datapath.popped 1) (m.ticks + 1)) := rfl
  rw [readDirect, bind_of_ok hlatch, bind_of_ok hdrop, bind_of_ok htick]
  exact bind_of_error (hread _ _)

namespace Machine

variable {program : Program} {input : List Char} {config : Config} {m : Machine}
  {i : Instruction} {v : View}

theorem Invariant.retires_iff_acts (hm : m.Invariant program config) :
    Retires (Microcode.execute i) (m.executing (some i)) v ↔ i.Acts m.view v := by
  have hm' := hm.executing (some i)
  obtain ⟨opcode, argument, term⟩ := i
  -- No opcode has rows in both tables, so one side of `Acts` drops out in each case.
  by_cases hread : opcode = .readIndirect
  · subst hread
    refine (Microcode.retires_readIndirect hm').trans (or_iff_right fun heff => ?_).symm
    cases heff with
    | arithmetic hop => cases hop
  by_cases hwrite : opcode = .writeIndirect
  · subst hwrite
    refine (Microcode.retires_writeIndirect hm').trans (or_iff_right fun heff => ?_).symm
    cases heff with
    | arithmetic hop => cases hop
  · refine (execute_retires_iff hm' ⟨hread, hwrite⟩).trans (or_iff_left fun heff => ?_).symm
    cases heff with
    | readData => exact hread rfl
    | readInput => exact hread rfl
    | writeData => exact hwrite rfl
    | writeOutput => exact hwrite rfl

theorem Invariant.step_of_acts (hm : m.Invariant program config)
    (hi : program.instructions[m.pc]? = some i) (hacts : i.Acts m.view v) :
    ∃ m', Machine.step m = .ok i.opcode m' ∧ m'.view = v := by
  obtain ⟨m', hexec, hv⟩ := hm.retires_iff_acts.2 hacts
  exact ⟨m', step_eq_ok_iff.2 ⟨i, hm.memory.fetch_eq_ok_iff.2 hi, rfl, hexec⟩, hv⟩

/-- A `READ_DIR` of the input port with no input left shows one word less when it stops, and
has spent a tick. -/
theorem Invariant.step_of_empty (hm : m.Invariant program config)
    (hi : program.instructions[m.pc]? = some i) (hop : i.opcode = .readDirect)
    {w : List Word} {a : Word} (hw : m.view.words = w ++ [a]) (ha : a.toInt = 0)
    (hin : m.view.input = []) :
    ∃ m', Machine.step m = .error .inputExhausted m' ∧ m'.ticks = m.ticks + 1 ∧
      m'.view = { m.view with words := w } := by
  have hexec := Microcode.readDirect_of_empty (m := m.executing (some i)) hm.fits hw ha hin
  rw [show Microcode.readDirect = Microcode.execute i by rw [Microcode.execute, hop]] at hexec
  have hwords : (m.datapath.popped 1).words = w := hm.fits.words_popped hw
  refine ⟨_, step_eq_error_iff.2 (.inr ⟨i, hm.memory.fetch_eq_ok_iff.2 hi, hexec⟩), rfl, ?_⟩
  rw [← hwords]
  rfl

end Machine

/-! ## The start of a trace -/

/-- What a machine shows that has just been loaded. -/
def View.initial (program : Program) (input : List Char) (config : Machine.Config) : View where
  words := []
  capacity := config.stackCapacity
  start := config.memorySize - program.length
  data a := if 2 ≤ a then program.words.getD a.toNat 0 else 0
  input := input
  output := []
  pc := 0

theorem Machine.view_of_load {program : Program} {input : List Char} {config : Config}
    {m : Machine} (h : load program input config = .ok m) :
    m.view = View.initial program input config := by
  obtain ⟨mem, hmem, hrest⟩ := except_bind_eq_ok_iff.1 h
  obtain ⟨d, hd, hm⟩ := except_bind_eq_ok_iff.1 hrest
  cases hm
  simp only [view, View.initial, View.mk.injEq]
  refine ⟨Datapath.words_of_create hd, (Datapath.sized_of_create hd).1, ?_, ?_, ?_, ?_, trivial⟩
  · rw [Memory.eq_of_create hmem]
    rfl
  · funext a
    rw [Memory.getD_peek?_create hmem]
  · rw [Memory.eq_of_create hmem]
  · rw [Memory.eq_of_create hmem]

/-! ## Runs -/

namespace Run

variable {program : Program} {input : List Char} {config : Machine.Config} {r r' : Run}
  {n t : Nat} {v v' : Microstack.View} {i : Instruction} {ending : Termination}

theorem finish_of_going (h : step r = .ok none r') : r.finish = r'.finish := by
  obtain ⟨hretired, hlimit⟩ := going_step h
  have hlt : r.retired < r.limit := by
    refine Nat.lt_of_not_le fun hle => ?_
    rw [step_at_limit hle] at h
    cases h
  have hleft : r.limit - r.retired = (r'.limit - r'.retired) + 1 := by omega
  simp only [finish, hleft, finishWithin, h]

theorem finish_of_ending (h : step r = .ok (some ending) r') : r.finish = .ok (ending, r') := by
  unfold finish
  cases hleft : r.limit - r.retired with
  | zero =>
    rw [step_at_limit (Nat.le_of_sub_eq_zero hleft)] at h
    cases h
    rfl
  | succ k => simp only [finishWithin, h]

/-- Where a run is: the instructions and the ticks that it has behind it, and its view. -/
structure Stands (program : Program) (config : Machine.Config) (n t : Nat)
    (v : Microstack.View) (r : Run) : Prop where
  invariant : r.machine.Invariant program config
  limit : r.limit = config.instructionLimit
  retired : r.retired = n
  ticks : r.machine.ticks = t
  view : r.machine.view = v

theorem stands_of_start (h : start program input config = .ok r) :
    r.Stands program config 0 0 (View.initial program input config) := by
  obtain ⟨m, hload, hticks, rfl⟩ := start_cases h
  exact ⟨Machine.invariant_of_load hload, rfl, rfl, hticks, Machine.view_of_load hload⟩

namespace Stands

theorem next (h : r.Stands program config n t v) (hlt : n < config.instructionLimit)
    (hi : program.instructions[v.pc]? = some i) (hacts : i.Acts v v') :
    ∃ r' : Run, r.finish = r'.finish ∧
      r'.Stands program config (n + 1) (t + i.opcode.ticks) v' := by
  obtain ⟨hinvariant, hlimit, rfl, rfl, rfl⟩ := h
  obtain ⟨m, hstep, hv⟩ := hinvariant.step_of_acts hi hacts
  refine ⟨(r.charge m).retire i.opcode, finish_of_going (step_of_retired (by omega) hstep), ?_⟩
  exact ⟨(Machine.Invariant.step program config).ok hinvariant hstep, hlimit, rfl,
    Machine.ticks_of_step hstep, hv⟩

theorem follow {v₀ : Microstack.View} (h : r.Stands program config 0 0 v₀)
    (htrace : Trace program v₀ n t v) (hle : n ≤ config.instructionLimit) :
    ∃ r' : Run, r.finish = r'.finish ∧ r'.Stands program config n t v := by
  induction htrace with
  | start => exact ⟨r, rfl, h⟩
  | next _ hi hacts ih =>
    obtain ⟨mid, hmid, hstands⟩ := ih (Nat.le_of_succ_le hle)
    obtain ⟨r', hr', hstands'⟩ := hstands.next hle hi hacts
    exact ⟨r', hmid.trans hr', hstands'⟩

theorem cut (h : r.Stands program config n t v) (hle : config.instructionLimit ≤ n) :
    ∃ last, step r = .ok (some .limitReached) last ∧ last.Stands program config n t v :=
  ⟨r, step_at_limit (by rw [h.limit, h.retired]; exact hle), h⟩

/-- With no input left a `READ_DIR` of the input port stops the run. -/
theorem dry (h : r.Stands program config n t v) (hlt : n < config.instructionLimit)
    (hi : program.instructions[v.pc]? = some i) (hop : i.opcode = .readDirect)
    {w : List Word} {a : Word} (hw : v.words = w ++ [a]) (ha : a.toInt = 0) (hin : v.input = []) :
    ∃ last, step r = .ok (some .inputExhausted) last ∧
      last.Stands program config n (t + 1) { v with words := w } := by
  obtain ⟨hinvariant, hlimit, rfl, rfl, rfl⟩ := h
  obtain ⟨m, hstep, hticks, hv⟩ := hinvariant.step_of_empty hi hop hw ha hin
  refine ⟨r.charge m, step_of_exhausted (by omega) hstep, ?_⟩
  exact ⟨(Machine.Invariant.step program config).error hinvariant hstep, hlimit, rfl, hticks, hv⟩

end Stands

end Run

/-! ## Reports -/

/-- A run that has started comes to the end of any trace that its limit leaves room for, and if
it stops there, this is what it reports. -/
theorem simulate_of_trace {program : Program} {input : List Char} {config : Machine.Config}
    {r : Run} {n t k s : Nat} {v v' : View} {ending : Termination}
    (hstart : Run.start program input config = .ok r)
    (htrace : Trace program (View.initial program input config) n t v)
    (hle : n ≤ config.instructionLimit)
    (hend : ∀ r : Run, r.Stands program config n t v →
      ∃ last, Run.step r = .ok (some ending) last ∧ last.Stands program config k s v') :
    ∃ report, simulate program input config = .ok report ∧ report.termination = ending ∧
      report.instructions = k ∧ report.ticks = s ∧ report.output = v'.output := by
  obtain ⟨mid, hmid, hstands⟩ := (Run.stands_of_start hstart).follow htrace hle
  obtain ⟨last, hstep, hlast⟩ := hend mid hstands
  have hfinish : r.finish = .ok (ending, last) := hmid.trans (Run.finish_of_ending hstep)
  exact ⟨last.report ending, simulate_eq_ok_iff.2 ⟨r, ending, last, hstart, hfinish, rfl⟩, rfl,
    hlast.retired, hlast.ticks, congrArg View.output hlast.view⟩

end Microstack
