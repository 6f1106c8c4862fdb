/-
# `Microstack.Proofs.Accounting` — the ticks and the instructions of a run, counted twice

Three things count ticks: the machine as it goes, the tally of a run, which charges what
a step has spent to the instruction being executed, and the table `Opcode.ticks`.  They
agree.

    any reachable run    the tallies add up to the ticks and to the instructions retired
    a retiring step      spends the ticks of its opcode, and charges them to it
    a report             each opcode was charged its ticks as often as it retired

Only an instruction that stops at empty input makes an exception to the last line: it adds
the ticks that it had spent when it stopped, one of its `Opcode.readTicks`.

All of this rests on one account of what a step of the machine can come to
(`Machine.step_outcome`).
-/
import Microstack.Display
import Microstack.Proofs.Machine
import Microstack.Proofs.Tally

namespace Microstack

/-! ## What a step spends -/

/-- The operations that no instruction retires. -/
def Opcode.idle : List Opcode := [.halt, .minus, .div, .print]

namespace Machine

variable {m m' : Machine} {i : Instruction} {t : Trap}

theorem executing_keeps (i : Instruction) (k : Nat) :
    Leads (fun m => m.current = some i ∧ k ≤ m.ticks) (Microcode.execute i)
      (fun m => m.current = some i ∧ k ≤ m.ticks) := by
  refine Transfers.execute ⟨?_, ?_, ?_, ?_⟩ i
  · intro α c ht m hm
    have hframed := ht.framed m m ⟨rfl, rfl, rfl⟩
    cases hc : c m with
    | ok a m' =>
      rw [hc] at hframed
      exact ⟨hframed.2.2.trans hm.1, hframed.2.1 ▸ hm.2⟩
    | error t m' =>
      rw [hc] at hframed
      exact ⟨hframed.2.2.trans hm.1, hframed.2.1 ▸ hm.2⟩
  · intro m hm
    exact ⟨hm.1, Nat.le_succ_of_le hm.2⟩
  · intro m hm
    exact ⟨hm.1, Nat.le_succ_of_le hm.2⟩
  · intro pc m hm
    exact ⟨hm.1, Nat.le_succ_of_le hm.2⟩

theorem not_idle_of_execute {u : Unit} (h : Microcode.execute i m = .ok u m') :
    i.opcode ∉ Opcode.idle := by
  intro hidle
  simp only [Opcode.idle, List.mem_cons, List.not_mem_nil, or_false] at hidle
  simp only [Microcode.execute] at h
  rcases hidle with hop | hop | hop | hop
  all_goals
    rw [hop] at h
    cases h

/-- What the machine has spent in a step that did not retire its instruction. -/
structure Stopped (m m' : Machine) (t : Trap) (i : Instruction) : Prop where
  current : m'.current = some i
  le : m.ticks ≤ m'.ticks
  halt : t = .halt → m'.ticks = m.ticks
  inputExhausted : t = .inputExhausted → ∃ k ∈ i.opcode.readTicks, m'.ticks = m.ticks + k

theorem stopped_of_execute (h : Microcode.execute i (m.executing (some i)) = .error t m') :
    Stopped m m' t i := by
  obtain ⟨hcurrent, hle⟩ :=
    (executing_keeps i m.ticks).error (s := m.executing (some i)) ⟨rfl, Nat.le_refl _⟩ h
  rcases (Microcode.sequence_execute i).stop h with ⟨f, rfl⟩ | ⟨rfl, -, rfl⟩ | ⟨rfl, k, hk, hticks⟩
  · exact ⟨hcurrent, hle, by simp, by simp⟩
  · exact ⟨hcurrent, hle, fun _ => rfl, by simp⟩
  · exact ⟨hcurrent, hle, by simp, fun _ => ⟨k, hk, hticks⟩⟩

/-- All that a step can come to, as far as ticks are concerned. -/
theorem step_outcome (m : Machine) :
    match step m with
    | .ok op m' => ∃ i, m.memory.fetch m.pc = .ok i ∧ op = i.opcode ∧ op ∉ Opcode.idle ∧
        m'.current = some i ∧ m'.ticks = m.ticks + op.ticks
    | .error t m' => (m'.current = none ∧ m'.ticks = m.ticks ∧ ∃ f, t = .fault f) ∨
        ∃ i, m.memory.fetch m.pc = .ok i ∧ Stopped m m' t i := by
  cases hstep : step m with
  | ok op m' =>
    obtain ⟨i, hfetch, rfl, hexec⟩ := step_eq_ok_iff.1 hstep
    have hkeeps := (executing_keeps i m.ticks).ok (s := m.executing (some i))
      ⟨rfl, Nat.le_refl _⟩ hexec
    exact ⟨i, hfetch, rfl, not_idle_of_execute hexec, hkeeps.1, ticks_of_step hstep⟩
  | error t m' =>
    rcases step_eq_error_iff.1 hstep with ⟨f, -, rfl, rfl⟩ | ⟨i, hfetch, hexec⟩
    · exact .inl ⟨rfl, rfl, f, rfl⟩
    · exact .inr ⟨i, hfetch, stopped_of_execute hexec⟩

end Machine

/-! ## Balance -/

namespace Run

variable {r r' : Run} {m : Machine} {op : Opcode}

/-- The tallies of a run agree with what was counted without them. -/
structure Balanced (r : Run) : Prop where
  spent : r.spent.total = r.machine.ticks
  counts : r.counts.total = r.retired
  within : r.retired ≤ r.limit

theorem charge_of_current {i : Instruction} (h : m.current = some i) :
    r.charge m =
      { r with machine := m, spent := r.spent.add i.opcode (m.ticks - r.machine.ticks) } := by
  rw [charge, charged, h]

theorem charge_of_none (h : m.current = none) : r.charge m = { r with machine := m } := by
  rw [charge, charged, h]

theorem Balanced.charge (hr : r.Balanced)
    (h : m.current = none ∧ m.ticks = r.machine.ticks ∨
      ∃ i, m.current = some i ∧ r.machine.ticks ≤ m.ticks) : (r.charge m).Balanced := by
  rcases h with ⟨hnone, hticks⟩ | ⟨i, hsome, hle⟩
  · rw [charge_of_none hnone]
    exact ⟨hr.spent.trans hticks.symm, hr.counts, hr.within⟩
  · rw [charge_of_current hsome]
    refine ⟨?_, hr.counts, hr.within⟩
    show (r.spent.add i.opcode (m.ticks - r.machine.ticks)).total = m.ticks
    rw [Tally.total_add, hr.spent, Nat.add_sub_of_le hle]

theorem Balanced.retire (hr : r.Balanced) (hlt : r.retired < r.limit) (op : Opcode) :
    (r.retire op).Balanced := by
  refine ⟨hr.spent, ?_, hlt⟩
  show (r.counts.add op 1).total = r.retired + 1
  rw [Tally.total_add, hr.counts]

theorem Balanced.next (hr : r.Balanced) : r.next.Balanced := by
  have houtcome := Machine.step_outcome r.machine
  rcases r.next_cases with ⟨-, hnext⟩ | ⟨hlt, op, m, hstep, hnext⟩ | ⟨-, t, m, hstep, hnext⟩
  · rw [hnext]
    exact hr
  · rw [hstep] at houtcome
    obtain ⟨i, -, -, -, hcurrent, hticks⟩ := houtcome
    have hcharge := hr.charge (.inr ⟨i, hcurrent, by omega⟩)
    rw [hnext]
    exact hcharge.retire hlt op
  · rw [hstep] at houtcome
    rw [hnext]
    refine hr.charge ?_
    rcases houtcome with ⟨hnone, hticks, -⟩ | ⟨i, -, hstopped⟩
    · exact .inl ⟨hnone, hticks⟩
    · exact .inr ⟨i, hstopped.current, hstopped.le⟩

theorem limit_next (r : Run) : r.next.limit = r.limit := by
  rcases r.next_cases with ⟨-, hnext⟩ | ⟨-, op, m, -, hnext⟩ | ⟨-, t, m, -, hnext⟩
  · rw [hnext]
  · rw [hnext]
    rfl
  · rw [hnext]
    rfl

variable {program : Program} {input : List Char} {config : Machine.Config}

theorem start_cases (h : start program input config = .ok r) :
    ∃ m, Machine.load program input config = .ok m ∧ m.ticks = 0 ∧
      r = { machine := m, limit := config.instructionLimit } := by
  obtain ⟨m, hm, heq⟩ := except_bind_eq_ok_iff.1 h
  obtain ⟨mem, -, hrest⟩ := except_bind_eq_ok_iff.1 hm
  obtain ⟨d, -, hload⟩ := except_bind_eq_ok_iff.1 hrest
  cases hload
  cases heq
  exact ⟨_, hm, rfl, rfl⟩

theorem Reachable.balanced (h : Reachable program input config r) :
    r.Balanced ∧ r.limit = config.instructionLimit := by
  induction h with
  | start hstart =>
    obtain ⟨m, -, hticks, rfl⟩ := start_cases hstart
    exact ⟨⟨Tally.total_zero.trans hticks.symm, Tally.total_zero, Nat.zero_le _⟩, rfl⟩
  | next _ ih => exact ⟨ih.1.next, (limit_next _).trans ih.2⟩

/-! ## Steps that retire, and the step that ends a run -/

theorem retiring_step (h : step r = .ok none r') :
    ∃ i, r.machine.memory.fetch r.machine.pc = .ok i ∧ i.opcode ∉ Opcode.idle ∧
      r'.machine.ticks = r.machine.ticks + i.opcode.ticks ∧
      r'.spent = r.spent.add i.opcode i.opcode.ticks ∧
      r'.counts = r.counts.add i.opcode 1 ∧ r'.retired = r.retired + 1 := by
  have hresult := r.outcome
  rw [h] at hresult
  cases hresult with
  | @retired op m _ hstep =>
    have houtcome := Machine.step_outcome r.machine
    rw [hstep] at houtcome
    obtain ⟨i, hfetch, rfl, hidle, hcurrent, hticks⟩ := houtcome
    refine ⟨i, hfetch, hidle, hticks, ?_, rfl, rfl⟩
    show (r.charge m).spent = _
    rw [charge_of_current hcurrent, hticks, Nat.add_sub_cancel_left]

/-- The step that ends a run counts no instruction.  It charges the ticks that were spent
before the input was found empty, and none otherwise. -/
theorem ending_step {ending : Termination} (h : step r = .ok (some ending) r') :
    r'.counts = r.counts ∧
      (ending ≠ .inputExhausted → ∀ op, r'.spent.get op = r.spent.get op) ∧
      (ending = .inputExhausted → ∃ i, r.machine.memory.fetch r.machine.pc = .ok i ∧
        ∃ k ∈ i.opcode.readTicks, r'.spent = r.spent.add i.opcode k) := by
  have hresult := r.outcome
  have houtcome := Machine.step_outcome r.machine
  rw [h] at hresult
  cases hresult with
  | limitReached _ => exact ⟨rfl, fun _ _ => rfl, nofun⟩
  | @halted m _ hstep =>
    rw [hstep] at houtcome
    rcases houtcome with ⟨-, -, f, hf⟩ | ⟨i, -, hstopped⟩
    · cases hf
    · refine ⟨rfl, fun _ op => ?_, nofun⟩
      rw [charge_of_current hstopped.current, hstopped.halt rfl, Nat.sub_self, Tally.add_zero]
  | @inputExhausted m _ hstep =>
    rw [hstep] at houtcome
    rcases houtcome with ⟨-, -, f, hf⟩ | ⟨i, hfetch, hstopped⟩
    · cases hf
    · obtain ⟨k, hk, hticks⟩ := hstopped.inputExhausted rfl
      refine ⟨rfl, fun hne => absurd rfl hne, fun _ => ⟨i, hfetch, k, hk, ?_⟩⟩
      rw [charge_of_current hstopped.current, hticks, Nat.add_sub_cancel_left]

/-- Every opcode was charged its ticks as often as it retired, and the idle ones never
retired. -/
structure Exact (r : Run) : Prop where
  spent : ∀ op, r.spent.get op = r.counts.get op * op.ticks
  idle : ∀ op ∈ Opcode.idle, r.counts.get op = 0

theorem Exact.step (hr : r.Exact) (h : step r = .ok none r') : r'.Exact := by
  obtain ⟨i, -, hidle, -, hspent, hcounts, -⟩ := retiring_step h
  constructor
  · intro op
    rw [hspent, hcounts, Tally.get_add, Tally.get_add, hr.spent, Nat.add_mul]
    by_cases hop : op = i.opcode
    · rw [if_pos hop, if_pos hop, hop, Nat.one_mul]
    · rw [if_neg hop, if_neg hop, Nat.zero_mul]
  · intro op hop
    have hne : op ≠ i.opcode := fun heq => hidle (heq ▸ hop)
    rw [hcounts, Tally.get_add, if_neg hne, hr.idle op hop]

/-! ## The last step of a run -/

/-- What every retiring step keeps holds until a run ends.  It ends at its limit, or with
a step that says so. -/
theorem finishWithin_last {P : Run → Prop} {n : Nat} {ending : Termination}
    (hstep : ∀ r r', P r → step r = .ok none r' → P r') (hr : P r)
    (h : finishWithin n r = .ok (ending, r')) :
    ∃ last, P last ∧
      (ending = .limitReached ∧ r' = last ∨ step last = .ok (some ending) r') := by
  induction n generalizing r with
  | zero =>
    cases h
    exact ⟨_, hr, .inl ⟨rfl, rfl⟩⟩
  | succ n ih =>
    rw [finishWithin] at h
    split at h
    · next mid hmid => exact ih (hstep r mid hr hmid) h
    · next found mid hmid =>
      cases h
      exact ⟨r, hr, .inr hmid⟩
    · cases h

theorem next_of_step {result : Option Termination} (h : step r = .ok result r') :
    r.next = r' := by
  rw [Run.next, h]

theorem Reachable.step (hr : Reachable program input config r) {result : Option Termination}
    (h : Run.step r = .ok result r') : Reachable program input config r' :=
  next_of_step h ▸ hr.next

end Run

theorem simulate_last {program : Program} {input : List Char} {config : Machine.Config}
    {report : Report} (h : simulate program input config = .ok report) :
    ∃ last r, Run.Reachable program input config last ∧ last.Exact ∧
      Run.Reachable program input config r ∧ report = r.report report.termination ∧
      (report.termination = .limitReached ∧ r = last ∨
        Run.step last = .ok (some report.termination) r) := by
  unfold simulate at h
  split at h
  · cases h
  · next r₀ hstart =>
    split at h
    · cases h
    · next ending r hfinish =>
      cases h
      have hexact : r₀.Exact := by
        obtain ⟨m, -, -, rfl⟩ := Run.start_cases hstart
        constructor
        · intro op
          rw [Tally.get_zero, Nat.zero_mul]
        · intro op _
          exact Tally.get_zero op
      obtain ⟨last, ⟨hlast, hlastExact⟩, hend⟩ := Run.finishWithin_last
        (P := fun r => Run.Reachable program input config r ∧ r.Exact)
        (fun _ _ hr hstep => ⟨hr.1.step hstep, hr.2.step hstep⟩) ⟨.start hstart, hexact⟩ hfinish
      refine ⟨last, r, hlast, hlastExact, ?_, rfl, hend⟩
      rcases hend with ⟨-, rfl⟩ | hstep
      · exact hlast
      · exact hlast.step hstep

/-! ## Statistics -/

namespace Report

open Table (left right)

variable (r : Report)

/-- Whether the statistics have a row for an opcode. -/
def isListed (op : Opcode) : Bool := !decide (r.counts.get op = 0 ∧ r.spent.get op = 0)

theorem isListed_eq_false_iff {op : Opcode} :
    r.isListed op = false ↔ r.counts.get op = 0 ∧ r.spent.get op = 0 := by
  simp [isListed]

def listed : List Opcode := Opcode.all.filter r.isListed

def rowOf (op : Opcode) : List Table.Entry :=
  [left op.mnemonic, right (Numeral.ofNat (r.counts.get op)),
    right (Numeral.ofNat (r.spent.get op))]

/-- The row below the others, if their columns have these sums. -/
def totalRow (instructions ticks : Nat) : List Table.Entry :=
  [left "total", right (Numeral.ofNat instructions), right (Numeral.ofNat ticks)]

theorem filterMap_statisticsRow? (ops : List Opcode) :
    ops.filterMap r.statisticsRow? = (ops.filter r.isListed).map r.rowOf := by
  induction ops with
  | nil => rfl
  | cons op ops ih =>
    cases hlisted : r.isListed op with
    | false =>
      have hrow : r.statisticsRow? op = none := if_pos (r.isListed_eq_false_iff.1 hlisted)
      rw [List.filterMap_cons_none hrow, ih, List.filter_cons_of_neg (by simp [hlisted])]
    | true =>
      have hrow : r.statisticsRow? op = some (r.rowOf op) := by
        refine if_neg fun hzero => ?_
        rw [r.isListed_eq_false_iff.2 hzero] at hlisted
        cases hlisted
      rw [List.filterMap_cons_some hrow, ih, List.filter_cons_of_pos hlisted, List.map_cons]

theorem sum_map_filter {p : Opcode → Bool} {f : Opcode → Nat} (h : ∀ op, p op = false → f op = 0)
    (ops : List Opcode) : ((ops.filter p).map f).sum = (ops.map f).sum := by
  induction ops with
  | nil => rfl
  | cons op ops ih =>
    cases hp : p op with
    | true =>
      rw [List.filter_cons_of_pos hp, List.map_cons, List.map_cons, List.sum_cons, List.sum_cons,
        ih]
    | false =>
      rw [List.filter_cons_of_neg (by simp [hp]), List.map_cons, List.sum_cons, h op hp, ih,
        Nat.zero_add]

/-- The last row has the sums of the columns above it. -/
theorem rows_statistics (hcounts : r.counts.total = r.instructions)
    (hspent : r.spent.total = r.ticks) :
    r.statistics.rows = r.listed.map r.rowOf ++
      [totalRow (r.listed.map r.counts.get).sum (r.listed.map r.spent.get).sum] := by
  have hinstructions : (r.listed.map r.counts.get).sum = r.instructions := by
    rw [← hcounts, Tally.total_eq_sum]
    exact sum_map_filter (fun op hop => (r.isListed_eq_false_iff.1 hop).1) _
  have hticks : (r.listed.map r.spent.get).sum = r.ticks := by
    rw [← hspent, Tally.total_eq_sum]
    exact sum_map_filter (fun op hop => (r.isListed_eq_false_iff.1 hop).2) _
  rw [hinstructions, hticks, listed, ← filterMap_statisticsRow?]
  rfl

end Report

/-! ## Reports -/

theorem Run.Exact.report {last r : Run} {ending : Termination} (hlast : last.Exact)
    (hend : ending = .limitReached ∧ r = last ∨ Run.step last = .ok (some ending) r) :
    (∀ op ∈ Opcode.idle, r.counts.get op = 0) ∧
    (ending ≠ .inputExhausted → ∀ op, r.spent.get op = r.counts.get op * op.ticks) ∧
    (ending = .inputExhausted → ∃ i, last.machine.memory.fetch last.machine.pc = .ok i ∧
      ∃ excess ∈ i.opcode.readTicks, ∀ op, r.spent.get op =
        r.counts.get op * op.ticks + if op = i.opcode then excess else 0) := by
  rcases hend with ⟨rfl, rfl⟩ | hstep
  · exact ⟨hlast.idle, fun _ => hlast.spent, nofun⟩
  · obtain ⟨hcounts, hother, hempty⟩ := Run.ending_step hstep
    refine ⟨?_, ?_, ?_⟩
    · rw [hcounts]
      exact hlast.idle
    · intro hne op
      rw [hother hne, hcounts, hlast.spent]
    · intro heq
      obtain ⟨i, hfetch, k, hk, hspent⟩ := hempty heq
      refine ⟨i, hfetch, k, hk, fun op => ?_⟩
      rw [hspent, hcounts, Tally.get_add, hlast.spent]

/-- The tallies of a run add up at any time, and a retiring step spends the ticks of its
opcode.  In a report every opcode has spent its ticks as often as it retired, but for the
one that found the input empty; and the statistics add up. -/
theorem run_accounting (program : Program) (input : List Char) (config : Machine.Config) :
    (∀ r, Run.Reachable program input config r →
      r.spent.total = r.machine.ticks ∧ r.counts.total = r.retired ∧
      r.retired ≤ config.instructionLimit ∧
      ∀ r', Run.step r = .ok none r' →
        ∃ i, r.machine.memory.fetch r.machine.pc = .ok i ∧
          r'.machine.ticks = r.machine.ticks + i.opcode.ticks ∧
          r'.spent = r.spent.add i.opcode i.opcode.ticks ∧
          r'.counts = r.counts.add i.opcode 1 ∧ r'.retired = r.retired + 1) ∧
    ∀ report, simulate program input config = .ok report →
      (report.termination ≠ .inputExhausted →
        ∀ op, report.spent.get op = report.counts.get op * op.ticks) ∧
      (report.termination = .inputExhausted →
        ∃ last r i, Run.Reachable program input config last ∧
          Run.step last = .ok (some .inputExhausted) r ∧ report = r.report .inputExhausted ∧
          last.machine.memory.fetch last.machine.pc = .ok i ∧
          ∃ excess ∈ i.opcode.readTicks, ∀ op, report.spent.get op =
            report.counts.get op * op.ticks + if op = i.opcode then excess else 0) ∧
      (∀ op ∈ Opcode.idle, report.counts.get op = 0) ∧
      report.statistics.rows = report.listed.map report.rowOf ++
        [Report.totalRow (report.listed.map report.counts.get).sum
          (report.listed.map report.spent.get).sum] := by
  refine ⟨?_, ?_⟩
  · intro r hr
    obtain ⟨⟨hspent, hcounts, hwithin⟩, hlimit⟩ := hr.balanced
    refine ⟨hspent, hcounts, hlimit ▸ hwithin, ?_⟩
    intro r' hstep
    obtain ⟨i, hfetch, -, hrest⟩ := Run.retiring_step hstep
    exact ⟨i, hfetch, hrest⟩
  · intro report hreport
    obtain ⟨last, r, hlast, hexact, hr, heq, hend⟩ := simulate_last hreport
    obtain ⟨hidle, hother, hempty⟩ := hexact.report hend
    have hcounts : report.counts = r.counts := congrArg Report.counts heq
    have hspent : report.spent = r.spent := congrArg Report.spent heq
    have hrows := (r.report report.termination).rows_statistics hr.balanced.1.counts
      hr.balanced.1.spent
    rw [← heq] at hrows
    rw [hcounts, hspent]
    refine ⟨hother, ?_, hidle, ?_⟩
    · intro htermination
      obtain ⟨i, hfetch, hexcess⟩ := hempty htermination
      rw [htermination] at hend heq
      rcases hend with ⟨hlimit, -⟩ | hstep
      · cases hlimit
      · exact ⟨last, r, i, hlast, hstep, heq, hfetch, hexcess⟩
    · rw [← hcounts, ← hspent]
      exact hrows

/-- Reads a character through the word at address 2, which is zero. -/
def readThroughZero : Program where
  instructions :=
    [{ opcode := .push, argument := some (.number (.wrap 2)) },
     { opcode := .readIndirect }]

/-- With no input the second read of the instruction stops it, one tick after the first. -/
theorem run_accounting_second_read :
    ∃ report, simulate readThroughZero [] ⟨131, 4, 9⟩ = .ok report ∧
      report.termination = .inputExhausted ∧ report.spent.get .readIndirect = 1 ∧
      ∃ i : Instruction, ∃ excess ∈ i.opcode.readTicks, ∀ op, report.spent.get op =
        report.counts.get op * op.ticks + if op = i.opcode then excess else 0 := by
  have hrun : (simulate readThroughZero [] ⟨131, 4, 9⟩).toOption.map
      (fun report => (report.termination, report.spent.get .readIndirect)) =
        some (.inputExhausted, 1) := by decide +kernel
  cases hreport : simulate readThroughZero [] ⟨131, 4, 9⟩ with
  | error e =>
    rw [hreport] at hrun
    cases hrun
  | ok report =>
    rw [hreport] at hrun
    obtain ⟨hend, hspent⟩ := Prod.mk.inj (Option.some.inj hrun)
    obtain ⟨-, hempty, -⟩ := (run_accounting readThroughZero [] ⟨131, 4, 9⟩).2 report hreport
    obtain ⟨_, _, i, -, -, -, -, hexcess⟩ := hempty hend
    exact ⟨report, rfl, hend, hspent, i, hexcess⟩

end Microstack
