/-
# `Microstack.Proofs.Observation` — what the result of a run does not depend on

Machines that agree take the same steps.  This module brings them to runs: programs are loaded
into machines that agree, and then the runs have the same result.  Two things turn out not to
matter:

    what is hidden     the registers between instructions, the slots above the head and the
                       words of the port cells
    room to spare      a larger memory, in which the program text lies higher, and a
                       larger stack

The second holds of runs that come to a report.  A run that fails may go on where there is
more room.
-/
import Microstack.Proofs.Agreement
import Microstack.Proofs.Bounds

namespace Microstack

/-! ## Machines that start in agreement -/

namespace Memory

variable {n n' : Nat} {program : List Instruction} {data data' : List Word} {input : List Char}
  {m m' : Memory}

theorem agree_of_create (hle : n ≤ n') (hdata : ∀ a, 2 ≤ a → data'.getD a 0 = data.getD a 0)
    (h : create n program data input = .ok m) (h' : create n' program data' input = .ok m') :
    m.Agree n n' program m' where
  left := loaded_of_create h
  right := loaded_of_create h'
  data a hport ha := by
    have ha' : a < m'.programStart := by
      rw [eq_of_create h] at ha
      rw [eq_of_create h']
      change a < n - program.length at ha
      change a < n' - program.length
      omega
    rw [peek?_create h ha, peek?_create h' ha', hdata a hport]
  input := by rw [eq_of_create h, eq_of_create h']
  output := by rw [eq_of_create h, eq_of_create h']

end Memory

theorem Datapath.agree_of_create {c c' : Nat} {d d' : Datapath} (h : create c = .ok d)
    (h' : create c' = .ok d') : d.Agree c c' d' where
  left := sized_of_create h
  right := sized_of_create h'
  words := by rw [words_of_create h, words_of_create h']

section

variable {p q : Program} {input : List Char} {small large : Machine.Config} {F : Trap → Prop}

/-- Machines agree at the start if their programs differ at most in the words of the ports
and in zeros at the end of the data. -/
theorem Machine.latched_of_load (hle : small.memorySize ≤ large.memorySize)
    (hinstructions : q.instructions = p.instructions)
    (hdata : ∀ a, 2 ≤ a → q.words.getD a 0 = p.words.getD a 0) {m m' : Machine}
    (h : load p input small = .ok m) (h' : load q input large = .ok m') :
    m.Latched p small large false false m' := by
  obtain ⟨mem, hmem, hrest⟩ := except_bind_eq_ok_iff.1 h
  obtain ⟨d, hd, heq⟩ := except_bind_eq_ok_iff.1 hrest
  obtain ⟨mem', hmem', hrest'⟩ := except_bind_eq_ok_iff.1 h'
  obtain ⟨d', hd', heq'⟩ := except_bind_eq_ok_iff.1 hrest'
  cases heq
  cases heq'
  rw [hinstructions] at hmem'
  exact ⟨⟨Memory.agree_of_create hle hdata hmem hmem', nofun⟩,
    ⟨Datapath.agree_of_create hd hd', nofun⟩, rfl, rfl, rfl⟩

/-- Runs whose machines agree have the same result, or the first of them comes to a trap
about which nothing is promised. -/
theorem Run.finish_eq_or (hroom : Roomier small large F) {r r' : Run}
    (h : Tied (Machine.Latched p small large false false) r r') :
    (r'.finish.map fun e => e.2.report e.1) = (r.finish.map fun e => e.2.report e.1) ∨
      ∃ k last, last.StopsIn F ∧ r.finish = finishWithin (k + 1) last := by
  have hresult := finishWithin_eq_or (Q := Tied (Machine.Latched p small large false false))
    (fun _ _ h => h.report_eq h.machine.looksLike)
    (fun _ _ h => h.step (fun _ _ h => h.looksLike)
      (Machine.Latched.lockstep_step hroom _ _ h.machine)) (r.limit - r.retired) h
  rw [finish, finish, h.limit, h.retired]
  refine hresult.imp_right ?_
  rintro ⟨k, last, _, -, hstop, hfinish, -⟩
  exact ⟨k, last, hstop, hfinish⟩

theorem Run.tied_of_start (hle : small.memorySize ≤ large.memorySize)
    (hlimit : large.instructionLimit = small.instructionLimit)
    (hinstructions : q.instructions = p.instructions)
    (hdata : ∀ a, 2 ≤ a → q.words.getD a 0 = p.words.getD a 0) {r r' : Run}
    (h : start p input small = .ok r) (h' : start q input large = .ok r') :
    Tied (Machine.Latched p small large false false) r r' := by
  obtain ⟨m, hm, heq⟩ := except_bind_eq_ok_iff.1 h
  obtain ⟨m', hm', heq'⟩ := except_bind_eq_ok_iff.1 h'
  cases heq
  cases heq'
  exact ⟨Machine.latched_of_load hle hinstructions hdata hm hm', hlimit, rfl, rfl, rfl⟩

end

/-! ## What is hidden -/

theorem Memory.create_eq_error_iff {size : Nat} {program : List Instruction} {data : List Word}
    {input : List Char} {e : ConfigError} (hdata : data.length ≤ 128) :
    create size program data input = .error e ↔
      size ≤ program.length + 128 ∧ e = .memoryTooSmall size program.length := by
  have hbase : Address.programBase = 128 := rfl
  rw [create, hbase]
  by_cases hsize : size ≤ program.length + 128
  · rw [if_pos hsize]
    simp [hsize, eq_comm]
  · rw [if_neg hsize, if_neg (Nat.not_lt.2 hdata)]
    simp [hsize]

theorem Datapath.create_eq_error_iff {capacity : Nat} {e : ConfigError} :
    create capacity = .error e ↔ capacity = 0 ∧ e = .emptyStack := by
  rw [create]
  by_cases hzero : capacity = 0
  · rw [if_pos hzero]
    simp [hzero, eq_comm]
  · rw [if_neg hzero]
    simp [hzero]

theorem Run.start_eq_error_iff {program : Program} {input : List Char} {config : Machine.Config}
    {e : ConfigError} (hdata : program.words.length ≤ 128) :
    start program input config = .error e ↔
      (config.memorySize ≤ program.length + 128 ∧
        e = .memoryTooSmall config.memorySize program.length) ∨
      (program.length + 128 < config.memorySize ∧ config.stackCapacity = 0 ∧
        e = .emptyStack) := by
  have hload : start program input config = .error e ↔
      Machine.load program input config = .error e := by
    rw [start, except_bind_eq_error_iff]
    refine or_iff_left ?_
    rintro ⟨_, _, hpure⟩
    cases hpure
  rw [hload, Machine.load, except_bind_eq_error_iff, Memory.create_eq_error_iff hdata]
  refine or_congr_right ?_
  constructor
  · rintro ⟨mem, hmem, hrest⟩
    rcases except_bind_eq_error_iff.1 hrest with hstack | ⟨_, _, hpure⟩
    · exact ⟨(Memory.exists_create_iff.1 ⟨mem, hmem⟩).1, Datapath.create_eq_error_iff.1 hstack⟩
    · cases hpure
  · rintro ⟨hsize, hstack⟩
    obtain ⟨mem, hmem⟩ := Memory.exists_create_iff.2 ⟨hsize, hdata⟩
    exact ⟨mem, hmem, except_bind_eq_error_iff.2 (.inl (Datapath.create_eq_error_iff.2 hstack))⟩

/-- Machines that agree on what a program can see return the same from every step, however
many were taken before and whether or not those failed, and agree after it.  So two programs
have the same result that differ only in the initial words of the ports, or in zeros at the
end of their data. -/
theorem hidden_registers_never_leak (program : Program) (config : Machine.Config) :
    (∀ m m', Machine.Agree program config config m m' → ∀ n,
      Matching (Machine.Agree program config config) (fun _ => False)
        (Machine.step (m.after n)) (Machine.step (m'.after n))) ∧
    ∀ (other : Program) (input : List Char), other.instructions = program.instructions →
      program.words.length ≤ 128 → other.words.length ≤ 128 →
      (∀ a, 2 ≤ a → a < 128 → other.words.getD a 0 = program.words.getD a 0) →
      simulate other input config = simulate program input config := by
  refine ⟨fun m m' h n => (h.after n).step, ?_⟩
  intro other input hinstructions hwords hwords' hsame
  have hdata (a : Nat) (hport : 2 ≤ a) : other.words.getD a 0 = program.words.getD a 0 := by
    by_cases ha : a < 128
    · exact hsame a hport ha
    · rw [List.getD_eq_getElem?_getD, List.getD_eq_getElem?_getD,
        List.getElem?_eq_none (by omega), List.getElem?_eq_none (by omega)]
  have herror (e : ConfigError) :
      Run.start other input config = .error e ↔ Run.start program input config = .error e := by
    rw [Run.start_eq_error_iff hwords, Run.start_eq_error_iff hwords', Program.length,
      Program.length, hinstructions]
  cases hstart : Run.start program input config with
  | error e => simp only [simulate, hstart, (herror e).2 hstart]
  | ok r =>
    cases hstart' : Run.start other input config with
    | error e =>
      rw [(herror e).1 hstart'] at hstart
      cases hstart
    | ok r' =>
      have htied := Run.tied_of_start (Nat.le_refl _) rfl hinstructions hdata hstart hstart'
      rcases Run.finish_eq_or (.refl config fun _ => False) htied with
        heq | ⟨_, _, ⟨-, _, _, hfalse, -⟩, -⟩
      · rw [simulate_eq hstart, simulate_eq hstart']
        exact congrArg (Except.mapError SimulationError.execution) heq
      · exact hfalse.elim

/-- The machine with other contents in what is hidden: the accumulator, the slot at the head,
the port cells, the address register and the instruction being executed. -/
def Machine.scrambled (m : Machine) (w : Word) (address : Nat) (current : Option Instruction) :
    Machine :=
  { m with
    memory := ((m.memory.stored 0 w).stored 1 w).addressed address
    datapath := (m.datapath.spilled w).accumulated w
    current := current }

theorem Machine.Invariant.agree_scrambled {program : Program} {config : Machine.Config}
    {m : Machine} (h : m.Invariant program config) (w : Word) {address : Nat}
    (haddress : address ≤ m.memory.size) (current : Option Instruction) :
    m.Agree program config config (m.scrambled w address current) where
  memory := by
    have htwo := h.memory.two_lt
    have hports := (h.memory.stored (a := 0) (by omega) w).stored (a := 1)
      (Nat.lt_trans (by decide) htwo) w
    refine ⟨h.memory, hports.addressed (by simpa using haddress), fun a hport _ => ?_, rfl, rfl⟩
    show ((m.memory.stored 0 w).stored 1 w).peek? a = m.memory.peek? a
    rw [Memory.peek?_stored_ne (by omega), Memory.peek?_stored_ne (by omega)]
  datapath := by
    refine ⟨h.datapath, ?_, m.datapath.words_spilled w⟩
    exact ⟨(m.datapath.capacity_spilled w).trans h.datapath.1,
      Nat.lt_of_lt_of_eq h.datapath.2 (m.datapath.capacity_spilled w).symm⟩
  pc := rfl
  ticks := rfl

/-- Writes out the word at address 2. -/
def echoCell (data : List Word) : Program where
  data := some data
  instructions :=
    [{ opcode := .push, argument := some (.number (.wrap 2)) },
     { opcode := .readDirect },
     { opcode := .push, argument := some (.number (.wrap 1)) },
     { opcode := .writeDirect }, { opcode := .halt }]

/-- A machine with its hidden state scrambled steps as the loaded one does, and words in the
port cells or a zero behind the data do not show. -/
theorem hidden_registers_never_leak_scrambled :
    (∃ m, Machine.load (echoCell [0, 0, .ofChar 'A']) [] ⟨134, 3, 9⟩ = .ok m ∧
      ∀ n, Matching (Machine.Agree (echoCell [0, 0, .ofChar 'A']) ⟨134, 3, 9⟩ ⟨134, 3, 9⟩)
        (fun _ => False) (Machine.step (m.after n))
        (Machine.step ((m.scrambled (.ofChar '?') 1 (some { opcode := .nop })).after n))) ∧
    ∃ report, simulate (echoCell [.ofChar '?', .ofChar '!', .ofChar 'A', 0]) [] ⟨134, 3, 9⟩ =
        .ok report ∧ report.output = ["A"] := by
  obtain ⟨hsteps, hresults⟩ :=
    hidden_registers_never_leak (echoCell [0, 0, .ofChar 'A']) ⟨134, 3, 9⟩
  obtain ⟨m, hm, hsize⟩ := exists_of_toOption_map (b := 134) (f := fun m => m.memory.size)
    (x := Machine.load (echoCell [0, 0, .ofChar 'A']) [] ⟨134, 3, 9⟩) (by decide +kernel)
  obtain ⟨report, hreport, houtput⟩ := exists_of_toOption_map (b := ["A"]) (f := Report.output)
    (x := simulate (echoCell [0, 0, .ofChar 'A']) [] ⟨134, 3, 9⟩) (by decide +kernel)
  refine ⟨⟨m, hm, hsteps m _ ?_⟩, report, ?_, houtput⟩
  · exact (Machine.invariant_of_load hm).agree_scrambled _ (by omega) _
  · rw [hresults (echoCell [.ofChar '?', .ofChar '!', .ofChar 'A', 0]) [] rfl (by decide)
      (by decide), hreport]
    intro a hport _
    obtain rfl | rfl | hbehind : a = 2 ∨ a = 3 ∨ 4 ≤ a := by omega
    · rfl
    · rfl
    · obtain ⟨k, rfl⟩ := Nat.exists_eq_add_of_le hbehind
      rw [Nat.add_comm]
      rfl

/-! ## Room to spare -/

/-- A run that comes to a report comes to the same one on every larger machine. -/
theorem larger_machine_same_report (program : Program) (input : List Char)
    (small large : Machine.Config) (hlimit : large.instructionLimit = small.instructionLimit)
    (hmemory : small.memorySize ≤ large.memorySize)
    (hstack : small.stackCapacity ≤ large.stackCapacity) (report : Report)
    (h : simulate program input small = .ok report) :
    simulate program input large = .ok report := by
  obtain ⟨r, ending, last, hstart, hfinish, rfl⟩ := simulate_eq_ok_iff.1 h
  obtain ⟨hsize, hdata, hpos⟩ := Run.exists_start_iff.1 ⟨r, hstart⟩
  obtain ⟨r', hstart'⟩ : ∃ r', Run.start program input large = .ok r' :=
    Run.exists_start_iff.2 ⟨by omega, hdata, by omega⟩
  have hroom : Roomier small large (fun t => ∃ f, t = .fault f) :=
    ⟨hmemory, hstack, .inr fun f => ⟨f, rfl⟩, .inr fun f => ⟨f, rfl⟩⟩
  have htied := Run.tied_of_start hmemory hlimit rfl (fun _ _ => rfl) hstart hstart'
  rcases Run.finish_eq_or hroom htied with heq | ⟨k, stop, ⟨hlt, _, m, ⟨f, rfl⟩, hm⟩, hstop⟩
  · rw [← h, simulate_eq hstart, simulate_eq hstart']
    exact congrArg (Except.mapError SimulationError.execution) heq
  · -- The run would have failed.
    rw [hstop, Run.finishWithin, Run.step_apply, if_neg (Nat.not_le.2 hlt), hm] at hfinish
    cases hfinish

/-- The least machine on which the program runs, and one of the usual size. -/
theorem larger_machine_same_report_tight :
    ∃ report, simulate (echoCell [0, 0, .ofChar 'A']) [] ⟨134, 3, 9⟩ = .ok report ∧
      report.termination = .halted ∧
      simulate (echoCell [0, 0, .ofChar 'A']) [] ⟨600, 256, 9⟩ = .ok report := by
  obtain ⟨report, hreport, hhalted⟩ := exists_of_toOption_map (b := .halted)
    (x := simulate (echoCell [0, 0, .ofChar 'A']) [] ⟨134, 3, 9⟩) (f := Report.termination)
    (by decide +kernel)
  exact ⟨report, hreport, hhalted, larger_machine_same_report _ [] ⟨134, 3, 9⟩ ⟨600, 256, 9⟩ rfl
    (by decide) (by decide) report hreport⟩

end Microstack
