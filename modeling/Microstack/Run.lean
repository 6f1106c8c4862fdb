/-
# `Microstack.Run` — runs of the machine

A run retires instructions until the program halts, asks for input that is not
there, breaks a rule, or reaches the limit on retired instructions.  It keeps
two tallies by opcode: the instructions that retired, and the ticks spent,
those of an instruction that did not retire included.

The loop of `Run.finish` counts down what the limit leaves, so it ends without
any further argument; at zero it stops as `Run.step` would.
-/
import Microstack.Machine

namespace Microstack

/-! ## Tallies -/

/-- A count for each opcode. -/
structure Tally where
  counts : Vector Nat Opcode.count
deriving DecidableEq

namespace Tally

def zero : Tally := ⟨Vector.replicate Opcode.count 0⟩

def get (t : Tally) (op : Opcode) : Nat := t.counts[op.code]

def add (t : Tally) (op : Opcode) (n : Nat) : Tally :=
  ⟨t.counts.set op.code (t.counts[op.code] + n)⟩

/-- The counts in the order of the opcodes' codes. -/
def toList (t : Tally) : List Nat := t.counts.toList

def total (t : Tally) : Nat := t.toList.foldr (· + ·) 0

end Tally

/-! ## How a run ends -/

/-- How a run ended. -/
inductive Termination
  | halted
  | inputExhausted
  | limitReached
deriving DecidableEq

namespace Termination

/-- Whether the program itself ended the run. -/
def isNormal : Termination → Bool
  | halted | inputExhausted => true
  | limitReached => false

def text : Termination → String
  | halted => "halted"
  | inputExhausted => "input exhausted"
  | limitReached => "instruction limit reached"

end Termination

/-- A fault, with where in the run it happened. -/
structure ExecutionError where
  tick : Nat
  pc : Nat
  /-- The opcode being executed, none if the fetch itself failed. -/
  opcode : Option Opcode
  /-- The text of the instruction being executed, empty if the fetch itself failed. -/
  instruction : String
  cause : Fault
deriving DecidableEq

def ExecutionError.message (e : ExecutionError) : String :=
  "fault at tick " ++ Numeral.ofNat e.tick ++ ", pc " ++ Numeral.ofNat e.pc ++ " `" ++
    e.instruction ++ "`: " ++ e.cause.message

/-- The fault of a machine, placed. -/
def ExecutionError.at (m : Machine) (cause : Fault) : ExecutionError where
  tick := m.ticks
  pc := m.pc
  opcode := m.current.map Instruction.opcode
  instruction := (m.current.map Instruction.text).getD ""
  cause := cause

/-! ## Runs -/

structure Run where
  machine : Machine
  /-- The instructions that may retire. -/
  limit : Nat
  retired : Nat := 0
  /-- Instructions retired, by opcode. -/
  counts : Tally := Tally.zero
  /-- Ticks spent, by opcode. -/
  spent : Tally := Tally.zero

/-- What a finished run has to say. -/
structure Report where
  output : List String
  /-- Instructions retired.  An instruction stopped by `HALT` or by empty input does
  not count. -/
  instructions : Nat
  ticks : Nat
  termination : Termination
  /-- Instructions retired, by opcode. -/
  counts : Tally
  /-- Ticks spent, by opcode. -/
  spent : Tally
deriving DecidableEq

def Report.outputText (r : Report) : String := String.join r.output

namespace Run

/-- A run that has not started. -/
def start (program : Program) (input : List Char) (config : Machine.Config) :
    Except ConfigError Run := do
  let machine ← Machine.load program input config
  return { machine, limit := config.instructionLimit }

/-- The ticks spent by opcode once a machine has gone on from a number of ticks:
the new ones are charged to the instruction being executed. -/
def charged (spent : Tally) (before : Nat) (m : Machine) : Tally :=
  match m.current with
  | some i => spent.add i.opcode (m.ticks - before)
  | none => spent

/-- The run with a machine that has gone on, its new ticks charged. -/
def charge (r : Run) (m : Machine) : Run :=
  { r with machine := m, spent := charged r.spent r.machine.ticks m }

def retire (r : Run) (op : Opcode) : Run :=
  { r with retired := r.retired + 1, counts := r.counts.add op 1 }

/-- Retires one instruction.  The result says how the run ended, if it has. -/
def step : EStateM ExecutionError Run (Option Termination) := fun r =>
  match r with
  | { machine, limit, retired, counts, spent } =>
    if limit ≤ retired then .ok (some .limitReached) { machine, limit, retired, counts, spent }
    else
      let before := machine.ticks
      let goneOn (m : Machine) : Run :=
        { machine := m, limit, retired, counts, spent := charged spent before m }
      match Machine.step machine with
      | .ok op m => .ok none ((goneOn m).retire op)
      | .error .halt m => .ok (some .halted) (goneOn m)
      | .error .inputExhausted m => .ok (some .inputExhausted) (goneOn m)
      | .error (.fault cause) m => .error (ExecutionError.at m cause) (goneOn m)

theorem step_apply (r : Run) :
    step r =
      if r.limit ≤ r.retired then .ok (some .limitReached) r
      else
        match Machine.step r.machine with
        | .ok op m => .ok none ((r.charge m).retire op)
        | .error .halt m => .ok (some .halted) (r.charge m)
        | .error .inputExhausted m => .ok (some .inputExhausted) (r.charge m)
        | .error (.fault cause) m => .error (ExecutionError.at m cause) (r.charge m) := rfl

/-- Goes on until the run ends, for at most the given number of instructions. -/
def finishWithin : Nat → Run → Except ExecutionError (Termination × Run)
  | 0, r => .ok (.limitReached, r)
  | n + 1, r =>
    match step r with
    | .ok none r => finishWithin n r
    | .ok (some ending) r => .ok (ending, r)
    | .error e _ => .error e

def finish (r : Run) : Except ExecutionError (Termination × Run) :=
  finishWithin (r.limit - r.retired) r

def report (r : Run) (ending : Termination) : Report where
  output := r.machine.memory.output.toList
  instructions := r.retired
  ticks := r.machine.ticks
  termination := ending
  counts := r.counts
  spent := r.spent

end Run

/-- Why a program could not be run to its end. -/
inductive SimulationError
  | config (cause : ConfigError)
  | execution (cause : ExecutionError)
deriving DecidableEq

/-- Runs a program to its end. -/
def simulate (program : Program) (input : List Char) (config : Machine.Config) :
    Except SimulationError Report :=
  match Run.start program input config with
  | .error e => .error (.config e)
  | .ok r =>
    match r.finish with
    | .error e => .error (.execution e)
    | .ok (ending, r) => .ok (r.report ending)

end Microstack
