/-
# `Microstack.Proofs.Causality` — a run depends on the input that it has read

Microcode looks at the input in one way: reading the input port takes the first character.
So two machines, one of which has more input behind the same beginning, stay in lockstep for
as long as that beginning lasts (`Machine.Fed.coupled`):

    s         ·──·──·──·──▪               the input is found empty
    s ++ t    ·──·──·──·──·──·──·──·      goes on

The instruction that finds it empty may have moved the head, spent a tick and taken characters
before.  All of this the other machine has done too, in the same instruction, and from there
it only adds (`Sequence.overtaken`).
-/
import Microstack.Proofs.Growth
import Microstack.Proofs.Lockstep

namespace Microstack

/-! ## More input behind the same beginning -/

namespace Memory

def fed (m : Memory) (t : List Char) : Memory := { m with input := m.input ++ t }

/-- The second memory has more input, and is the same otherwise. -/
def Fed (t : List Char) (m m' : Memory) : Prop := m' = m.fed t

variable {t : List Char} {F : Trap → Prop}

theorem lockstep_latch_fed (a : Word) : Lockstep (Fed t) F (latch a) := by
  rintro m _ rfl
  have hsize : (m.fed t).size = m.size := rfl
  by_cases hin : 0 ≤ a.toInt ∧ a.toInt ≤ m.size
  · simp only [latch, hsize, if_pos hin]
    exact .ok rfl
  · simp only [latch, hsize, if_neg hin]
    exact .error rfl

theorem lockstep_read_fed (hF : F .inputExhausted) : Lockstep (Fed t) F read := by
  rintro m _ rfl
  have hlatched : (m.fed t).latched = m.latched := rfl
  have hindex : (m.fed t).dataIndex = m.dataIndex := rfl
  simp only [read, hlatched, hindex]
  cases m.latched with
  | outputPort => exact .error rfl
  | inputPort =>
    cases hin : m.input with
    | nil => exact .excused hF
    | cons c rest =>
      have hfed : (m.fed t).input = c :: (rest ++ t) := by rw [fed, hin, List.cons_append]
      simp only [hfed]
      exact .ok rfl
  | data _ =>
    cases m.dataIndex with
    | ok i => exact .ok rfl
    | error f => exact .error rfl
  | program _ =>
    cases m.dataIndex with
    | ok i => exact .ok rfl
    | error f => exact .error rfl

theorem lockstep_write_fed (w : Word) : Lockstep (Fed t) F (write w) := by
  rintro m _ rfl
  have hlatched : (m.fed t).latched = m.latched := rfl
  have hindex : (m.fed t).dataIndex = m.dataIndex := rfl
  simp only [write, hlatched, hindex]
  cases m.latched with
  | inputPort => exact .error rfl
  | outputPort => exact .ok rfl
  | data _ =>
    cases m.dataIndex with
    | ok i => exact .ok rfl
    | error f => exact .error rfl
  | program _ =>
    cases m.dataIndex with
    | ok i => exact .ok rfl
    | error f => exact .error rfl

end Memory

namespace Machine

def fed (m : Machine) (t : List Char) : Machine := { m with memory := m.memory.fed t }

def Fed (t : List Char) (m m' : Machine) : Prop := m' = m.fed t

namespace Fed

variable {t : List Char} {F : Trap → Prop}

theorem lockstep_datapath {α : Type} (act : Datapath.Action α) :
    Lockstep (Fed t) F (Microcode.datapath act) := by
  refine .datapath (.of_eq act) ?_ ?_
  · rintro m _ rfl
    rfl
  · rintro m _ d _ rfl rfl
    rfl

theorem lockstep_memory {α : Type} {act : Memory.Action α}
    (hact : Lockstep (Memory.Fed t) F act) : Lockstep (Fed t) F (Microcode.memory act) := by
  refine .memory hact ?_ ?_
  · rintro m _ rfl
    rfl
  · rintro m _ mem _ rfl rfl
    rfl

theorem lockstep_inspect {α : Type} {look : Machine → Except Fault α}
    (hlook : ∀ m : Machine, look (m.fed t) = look m) :
    Lockstep (Fed t) F (Microcode.inspect look) := by
  refine .inspect ?_
  rintro m _ rfl
  exact hlook m

/-- Every transfer keeps the machines in lockstep, unless it finds the shorter input empty. -/
theorem coupled (t : List Char) : Coupled (Fed t) (· = .inputExhausted) where
  transfer ht := by
    cases ht with
    | adjustHead _ => exact lockstep_datapath _
    | push _ => exact lockstep_datapath _
    | latchAlu _ => exact lockstep_datapath _
    | popTruth => exact lockstep_datapath _
    | accumulator =>
      rintro m _ rfl
      exact .ok rfl
    | top _ => exact lockstep_inspect fun _ => rfl
    | topIncremented _ => exact lockstep_inspect fun _ => rfl
    | operand _ => exact lockstep_inspect fun _ => rfl
    | latchAddress _ =>
      exact (lockstep_inspect fun _ => rfl).bind fun a =>
        lockstep_memory (Memory.lockstep_latch_fed a)
    | read => exact lockstep_memory (Memory.lockstep_read_fed rfl)
    | write w => exact lockstep_memory (Memory.lockstep_write_fed w)
  tick := by
    rintro m _ rfl
    rfl
  advance := by
    rintro m _ rfl
    rfl
  jumpTo := by
    rintro m _ pc rfl
    rfl

theorem lockstep_step (t : List Char) : Lockstep (Fed t) (· = .inputExhausted) Machine.step := by
  refine Lockstep.step (fun i => (coupled t).lockstep (Microcode.sequence_execute i)) ?_ ?_
  · rintro m _ rfl
    rfl
  · rintro m _ i rfl
    rfl

theorem looksLike {m m' : Machine} (h : Fed t m m') : m.LooksLike m' := by
  cases h
  exact ⟨rfl, rfl, rfl, rfl⟩

end Fed

theorem Grows.fed (m : Machine) (t : List Char) : m.Grows (m.fed t) :=
  ⟨List.prefix_refl _, Nat.le_refl _⟩

end Machine

/-! ## The instruction that finds the input empty -/

namespace Microcode

variable {i : Instruction} {spent left : Nat} {l : Latches} {m m' : Machine}

/-- Microcode that finds the input empty is overtaken by the same microcode with more
input. -/
theorem Sequence.overtaken {c : Microcode Unit} (hc : Sequence i spent left l c)
    (h : c m = .error .inputExhausted m') (t : List Char) :
    m'.Grows (leaves c (m.fed t)) := by
  induction hc generalizing m with
  | finish => cases h
  | jump _ =>
    obtain ⟨_, -, hf, -⟩ := jump_eq_error_iff.1 h
    cases hf
  | halt => cases h
  | unsupported _ => cases h
  | tick _ ih =>
    have htick : Microcode.tick (m.fed t) =
        .ok () (Machine.fed { m with ticks := m.ticks + 1 } t) := rfl
    rw [leaves_bind_of_ok htick]
    exact ih (m := { m with ticks := m.ticks + 1 }) h
  | @transfer α spent left l l' c f hpart hf ih =>
    rcases bind_eq_error_iff.1 h with hempty | ⟨a, mid, hmid, hrest⟩
    · -- Here the machines part.  Whatever the other one does now, it only adds.
      rcases hpart.stop hempty with ⟨f, hf⟩ | ⟨-, rfl, -⟩
      · cases hf
      · exact ((Machine.Grows.transfers m').leads (.transfer hpart hf)).leaves (.fed m' t)
    · have hmatch := (Machine.Fed.coupled t).transfer hpart.transfer m _ rfl
      rw [hmid] at hmatch
      generalize hx : c (m.fed t) = x at hmatch
      cases hmatch with
      | ok hfed =>
        cases hfed
        rw [leaves_bind_of_ok hx]
        exact ih a hrest

end Microcode

namespace Machine

variable {m m' : Machine}

theorem leaves_step {i : Instruction} (h : m.memory.fetch m.pc = .ok i) :
    leaves step m = leaves (Microcode.execute i) (m.executing (some i)) := by
  rw [leaves, leaves, step_apply, h]
  simp only
  cases Microcode.execute i (m.executing (some i)) with
  | ok u m' => rfl
  | error t m' => rfl

theorem overtaken_step (h : step m = .error .inputExhausted m') (t : List Char) :
    m'.Grows (leaves step (m.fed t)) ∧ (leaves step (m.fed t)).current = m'.current := by
  rcases step_eq_error_iff.1 h with ⟨f, -, hf, -⟩ | ⟨i, hfetch, hexec⟩
  · cases hf
  · have hkeeps := executing_keeps i m.ticks
    rw [leaves_step (m := m.fed t) hfetch]
    refine ⟨(Microcode.sequence_execute i).overtaken hexec t, ?_⟩
    have hleft := hkeeps.error (s := m.executing (some i)) ⟨rfl, Nat.le_refl _⟩ hexec
    have hright := hkeeps.leaves (s := (m.fed t).executing (some i)) ⟨rfl, Nat.le_refl _⟩
    exact hright.1.trans hleft.1.symm

end Machine

/-! ## Runs -/

namespace Run

variable {r r' : Run} {t : List Char}

theorem charged_le {m m' : Machine} (hcurrent : m'.current = m.current)
    (hticks : m.ticks ≤ m'.ticks) (spent : Tally) (before : Nat) (op : Opcode) :
    (charged spent before m).get op ≤ (charged spent before m').get op := by
  rw [charged, charged, hcurrent]
  cases m.current with
  | none => exact Nat.le_refl _
  | some i =>
    simp only [Tally.get_add]
    split
    · omega
    · exact Nat.le_refl _

theorem overtaken_next (h : Tied (Machine.Fed t) r r')
    (hstop : r.StopsIn (· = .inputExhausted)) :
    ∃ last, step r = .ok (some .inputExhausted) last ∧ last.Grows r'.next := by
  obtain ⟨hlt, _, m, rfl, hm⟩ := hstop
  refine ⟨r.charge m, step_of_exhausted hlt hm, ?_⟩
  have hmachine : r'.machine = r.machine.fed t := h.machine
  obtain ⟨hgrows, hcurrent⟩ := Machine.overtaken_step hm t
  rw [← hmachine] at hgrows hcurrent
  have hcharge {m' : Machine} (hm' : leaves Machine.step r'.machine = m') :
      (r.charge m).Grows (r'.charge m') := by
    rw [hm'] at hgrows hcurrent
    refine ⟨hgrows, Nat.le_of_eq h.retired.symm, fun op => Nat.le_of_eq ?_, fun op => ?_⟩
    · exact congrArg (Tally.get · op) h.counts.symm
    · show (charged r.spent r.machine.ticks m).get op ≤
        (charged r'.spent r'.machine.ticks m').get op
      rw [h.spent, (Machine.Fed.looksLike h.machine).ticks]
      exact charged_le hcurrent hgrows.ticks _ _ op
  rcases r'.next_cases with ⟨hlimit, -⟩ | ⟨-, op, m', hstep, hnext⟩ | ⟨-, e, m', hstep, hnext⟩
  · rw [h.limit, h.retired] at hlimit
    exact absurd hlt (Nat.not_lt.2 hlimit)
  · rw [hnext]
    exact (hcharge (leaves_of_ok hstep)).trans (.retire _ op)
  · rw [hnext]
    exact hcharge (leaves_of_error hstep)

/-- A run with more input has the same result, or the other one found its input empty and
was overtaken. -/
theorem finish_fed (h : Tied (Machine.Fed t) r r') :
    (r'.finish.map fun e => e.2.report e.1) = (r.finish.map fun e => e.2.report e.1) ∨
      ∃ last, r.finish = .ok (.inputExhausted, last) ∧
        ∀ ending last', r'.finish = .ok (ending, last') → last.Grows last' := by
  have hresult := finishWithin_eq_or (Q := Tied (Machine.Fed t))
    (fun _ _ h => h.report_eq (Machine.Fed.looksLike h.machine))
    (fun _ _ h => h.step (fun _ _ => Machine.Fed.looksLike)
      (Machine.Fed.lockstep_step t _ _ h.machine)) (r.limit - r.retired) h
  rw [finish, finish, h.limit, h.retired]
  refine hresult.imp_right ?_
  rintro ⟨k, mid, mid', htied, hstop, hfinish, hfinish'⟩
  obtain ⟨last, hstep, hgrows⟩ := overtaken_next htied hstop
  refine ⟨last, ?_, ?_⟩
  · rw [hfinish, finishWithin, hstep]
  · intro ending last' hlast'
    rw [hfinish'] at hlast'
    exact hgrows.trans (.finishWithin_succ hlast')

end Run

/-! ## Reports -/

theorem Memory.create_fed (n : Nat) (program : List Instruction) (data : List Word)
    (s t : List Char) :
    create n program data (s ++ t) = (create n program data s).map (·.fed t) := by
  unfold create
  split
  · rfl
  · split
    · rfl
    · rfl

def Run.fed (r : Run) (t : List Char) : Run := { r with machine := r.machine.fed t }

theorem Run.start_fed (program : Program) (s t : List Char) (config : Machine.Config) :
    start program (s ++ t) config = (start program s config).map (·.fed t) := by
  simp only [start, Machine.load, Memory.create_fed]
  cases Memory.create config.memorySize program.instructions program.words s with
  | error e => rfl
  | ok mem =>
    cases Datapath.create config.stackCapacity with
    | error e => rfl
    | ok d => rfl

/-- More input changes nothing, unless the run without it found its input empty; and then
what that run reports is contained in the report with more input. -/
theorem simulate_fed (program : Program) (config : Machine.Config) (s t : List Char) :
    simulate program (s ++ t) config = simulate program s config ∨
      ∃ report, simulate program s config = .ok report ∧
        report.termination = .inputExhausted ∧
        ∀ report', simulate program (s ++ t) config = .ok report' →
          report.Precedes report' := by
  have hfed := Run.start_fed program s t config
  cases hstart : Run.start program s config with
  | error e =>
    rw [hstart] at hfed
    refine .inl ?_
    simp only [simulate, hstart, hfed, Except.map]
  | ok r =>
    rw [hstart] at hfed
    have htied : Run.Tied (Machine.Fed t) r (r.fed t) := ⟨rfl, rfl, rfl, rfl, rfl⟩
    rcases Run.finish_fed htied with heq | ⟨last, hlast, hgrows⟩
    · refine .inl ?_
      rw [simulate_eq hstart, simulate_eq hfed]
      exact congrArg (Except.mapError SimulationError.execution) heq
    · refine .inr ⟨_, simulate_eq_ok_iff.2 ⟨r, _, last, hstart, hlast, rfl⟩, rfl, ?_⟩
      intro report' hreport'
      obtain ⟨r', ending, last', hstart', hfinish', rfl⟩ := simulate_eq_ok_iff.1 hreport'
      obtain rfl := Except.ok.inj (hfed.symm.trans hstart')
      exact (hgrows ending last' hfinish').report _ _

/-- A run that halts, that its limit cuts off or that fails does the same with more input.
One that finds its input empty reports nothing that it would not report with more. -/
theorem input_causality (program : Program) (config : Machine.Config) (s t : List Char) :
    (∀ report, simulate program s config = .ok report →
      report.termination ≠ .inputExhausted →
      simulate program (s ++ t) config = .ok report) ∧
    (∀ e, simulate program s config = .error e → simulate program (s ++ t) config = .error e) ∧
    ∀ report report', simulate program s config = .ok report →
      report.termination = .inputExhausted →
      simulate program (s ++ t) config = .ok report' → report.Precedes report' := by
  rcases simulate_fed program config s t with heq | ⟨stopped, hstopped, hempty, hprecedes⟩
  · rw [heq]
    refine ⟨fun _ h _ => h, fun _ h => h, fun report report' h _ h' => ?_⟩
    obtain rfl := Except.ok.inj (h.symm.trans h')
    exact .refl report
  · rw [hstopped]
    refine ⟨fun report h hne => ?_, fun e h => ?_, fun report report' h _ h' => ?_⟩
    · cases h
      exact absurd hempty hne
    · cases h
    · cases h
      exact hprecedes report' h'

/-- One character is read through the word at address 2.  Without it the run stops in the
middle of the read; with it the run reaches its limit of two instructions, and under a limit
of three it fails at the end of the program, whatever more input there is. -/
theorem input_causality_one_character :
    ∃ report report' e, simulate readThroughZero [] ⟨131, 4, 2⟩ = .ok report ∧
      report.termination = .inputExhausted ∧ report.Precedes report' ∧
      report'.termination = .limitReached ∧
      (∀ t, simulate readThroughZero ('a' :: t) ⟨131, 4, 2⟩ = .ok report') ∧
      ∀ t, simulate readThroughZero ('a' :: t) ⟨131, 4, 3⟩ = .error e := by
  obtain ⟨report, hreport, hempty⟩ := exists_of_toOption_map (b := .inputExhausted)
    (x := simulate readThroughZero [] ⟨131, 4, 2⟩) (f := Report.termination) (by decide +kernel)
  obtain ⟨report', hreport', hlimit⟩ := exists_of_toOption_map (b := .limitReached)
    (x := simulate readThroughZero ['a'] ⟨131, 4, 2⟩) (f := Report.termination)
    (by decide +kernel)
  obtain ⟨e, hfault⟩ : ∃ e, simulate readThroughZero ['a'] ⟨131, 4, 3⟩ = .error e :=
    ⟨.execution ⟨6, 2, none, "", .noInstruction 2 2⟩, by decide +kernel⟩
  obtain ⟨-, -, hprecedes⟩ := input_causality readThroughZero ⟨131, 4, 2⟩ [] ['a']
  refine ⟨report, report', e, hreport, hempty,
    hprecedes report report' hreport hempty hreport', hlimit, fun t => ?_, fun t => ?_⟩
  · exact (input_causality readThroughZero ⟨131, 4, 2⟩ ['a'] t).1 report' hreport'
      (by rw [hlimit]; decide)
  · exact (input_causality readThroughZero ⟨131, 4, 3⟩ ['a'] t).2.1 e hfault

end Microstack
