/-
# `Microstack.Machine` — the microcoded machine

The machine is memory, a datapath, a program counter, a count of ticks and the
instruction being executed.  Each opcode is a fixed sequence of register
transfers, its microcode, and a tick is counted where a transfer completes.

Microcode keeps the state it has reached when a transfer fails.  An instruction
that does not retire may therefore have moved the head, changed the accumulator
or spent ticks, and a later step starts from there.  The program counter is the
exception: every opcode changes it only after its last transfer that can fail.
-/
import Microstack.Datapath
import Microstack.Memory

namespace Microstack

structure Machine where
  memory : Memory
  datapath : Datapath
  /-- The program counter. -/
  pc : Nat := 0
  ticks : Nat := 0
  /-- The instruction being executed; none before the first, or after a fetch that
  found nothing. -/
  current : Option Instruction := none

/-- A sequence of register transfers. -/
abbrev Microcode := EStateM Trap Machine

namespace Microcode

/-! ## Register transfers

The state is taken apart before a part of it is handed on, so that the part is
changed in place when the program runs. -/

def datapath {α : Type} (act : Datapath.Action α) : Microcode α := fun m =>
  match m with
  | { memory, datapath, pc, ticks, current } =>
    match act datapath with
    | .ok a d => .ok a { memory, datapath := d, pc, ticks, current }
    | .error f d => .error (.fault f) { memory, datapath := d, pc, ticks, current }

theorem datapath_apply {α : Type} (act : Datapath.Action α) (m : Machine) :
    datapath act m =
      match act m.datapath with
      | .ok a d => .ok a { m with datapath := d }
      | .error f d => .error (.fault f) { m with datapath := d } := rfl

def memory {α : Type} (act : Memory.Action α) : Microcode α := fun m =>
  match m with
  | { memory, datapath, pc, ticks, current } =>
    match act memory with
    | .ok a mem => .ok a { memory := mem, datapath, pc, ticks, current }
    | .error t mem => .error t { memory := mem, datapath, pc, ticks, current }

theorem memory_apply {α : Type} (act : Memory.Action α) (m : Machine) :
    memory act m =
      match act m.memory with
      | .ok a mem => .ok a { m with memory := mem }
      | .error t mem => .error t { m with memory := mem } := rfl

/-- A look at the state, which may find a fault and changes nothing. -/
def inspect {α : Type} (look : Machine → Except Fault α) : Microcode α := fun m =>
  match look m with
  | .ok a => .ok a m
  | .error f => .error (.fault f) m

def tick : Microcode Unit := modify fun m => { m with ticks := m.ticks + 1 }

def jumpTo (pc : Nat) : Microcode Unit := modify fun m => { m with pc := pc }

def advance : Microcode Unit := modify fun m => { m with pc := m.pc + 1 }

/-- The word at an offset below the top of the stack. -/
def top (offset : Nat) : Microcode Word := inspect fun m => m.datapath.top offset

def adjustHead (delta : Int) : Microcode Unit := datapath (Datapath.adjustHead delta)

def push (w : Word) : Microcode Unit := datapath (Datapath.push w)

/-- Leaves the result of an operation in the accumulator. -/
def latchAlu (op : AluOp) : Microcode Unit := datapath (Datapath.latch op)

def accumulator : Microcode Word := do return (← get).datapath.accumulator

/-- Latches the word at an offset below the top as the memory address. -/
def latchAddress (offset : Nat) : Microcode Unit := do
  let address ← top offset
  memory (Memory.latch address)

def read : Microcode Word := memory Memory.read

def write (w : Word) : Microcode Unit := memory (Memory.write w)

/-! ## Microcode of the opcodes -/

/-- From `.. a` to `.. MEM[a]`. -/
def readDirect : Microcode Unit := do
  latchAddress 0
  adjustHead (-1)
  tick
  let value ← read
  push value
  advance
  tick

/-- From `.. p` to `.. MEM[MEM[p]]`, and then `MEM[p]` goes up by one. -/
def readIndirect : Microcode Unit := do
  -- `.. p` to `.. p q`
  latchAddress 0
  let pointer ← read
  push pointer
  tick
  -- `.. p q` to `.. p q v`
  latchAddress 0
  let value ← read
  push value
  tick
  -- `.. p q v` to `.. v q p`
  let v ← top 0
  let q ← top 1
  let p ← top 2
  adjustHead (-3)
  push v
  push q
  push p
  tick
  latchAddress 0
  tick
  -- the pointer goes up, and `.. v q p` to `.. v`
  latchAlu .increment
  let next ← accumulator
  write next
  adjustHead (-2)
  advance
  tick

/-- From `.. x a` to `..`, with `x` stored at `a`. -/
def writeDirect : Microcode Unit := do
  latchAddress 0
  tick
  let value ← top 1
  write value
  adjustHead (-2)
  advance
  tick

/-- From `.. x p` to `..`, with `x` stored at `MEM[p]`, and then `MEM[p]` goes up
by one. -/
def writeIndirect : Microcode Unit := do
  -- `.. x p` to `.. x p q`
  latchAddress 0
  let pointer ← read
  push pointer
  tick
  latchAddress 0
  tick
  let value ← top 2
  write value
  tick
  latchAddress 1
  tick
  let next ← inspect fun m => m.datapath.topIncremented 0
  write next
  adjustHead (-3)
  advance
  tick

/-- Goes on if the popped word is true, and jumps otherwise. -/
def jumpIfNotTrue (i : Instruction) : Microcode Unit := do
  if ← datapath Datapath.popTruth then
    advance
  else
    let target ← inspect fun _ => i.target
    jumpTo target
  tick

def jump (i : Instruction) : Microcode Unit := do
  let target ← inspect fun _ => i.target
  jumpTo target
  tick

def noOperation : Microcode Unit := do
  advance
  tick

/-- Replaces the operands of an arithmetic operation by its result. -/
def arithmetic (op : AluOp) : Microcode Unit := do
  latchAlu op
  adjustHead (-op.arity)
  tick
  let result ← accumulator
  push result
  advance
  tick

/-- From `.. a b c` to `.. b c a`. -/
def rotate : Microcode Unit := do
  let c ← top 0
  let b ← top 1
  let a ← top 2
  adjustHead (-3)
  push b
  push c
  push a
  advance
  tick

/-- From `.. a` to `.. a a`. -/
def duplicate : Microcode Unit := do
  let value ← top 0
  push value
  advance
  tick

/-- From `.. a b` to `.. a b a`. -/
def duplicateUnder : Microcode Unit := do
  let value ← top 1
  push value
  advance
  tick

/-- From `.. a b` to `.. b a`. -/
def swap : Microcode Unit := do
  let b ← top 0
  let a ← top 1
  adjustHead (-2)
  push b
  push a
  advance
  tick

/-- Pushes the literal of the instruction. -/
def pushLiteral (i : Instruction) : Microcode Unit := do
  let value ← inspect fun _ => i.literal
  push value
  advance
  tick

/-- From `.. a` to `..`. -/
def drop : Microcode Unit := do
  adjustHead (-1)
  advance
  tick

/-- The microcode of an instruction.  `MINUS`, `DIV` and `PRINT` have none. -/
def execute (i : Instruction) : Microcode Unit :=
  match i.opcode with
  | .readDirect => readDirect
  | .readIndirect => readIndirect
  | .writeDirect => writeDirect
  | .writeIndirect => writeIndirect
  | .jnt => jumpIfNotTrue i
  | .jmp => jump i
  | .halt => throw .halt
  | .begin | .nop => noOperation
  | .mod => arithmetic .mod
  | .plus => arithmetic .plus
  | .mult => arithmetic .mult
  | .pow => arithmetic .pow
  | .lt => arithmetic .lt
  | .neg => arithmetic .neg
  | .invert => arithmetic .invert
  | .rot => rotate
  | .dup => duplicate
  | .dupUnder => duplicateUnder
  | .swap => swap
  | .push => pushLiteral i
  | .drop => drop
  | .minus | .div | .print => throw (.fault (.unsupportedOpcode i.opcode))

end Microcode

namespace Machine

/-- The sizes of a machine, and how long it may run. -/
structure Config where
  /-- The words of memory, ports and program text included. -/
  memorySize : Nat := Memory.defaultSize
  stackCapacity : Nat := Datapath.defaultCapacity
  /-- The instructions that may retire before a run is cut off. -/
  instructionLimit : Nat := 3000
deriving DecidableEq

def load (program : Program) (input : List Char) (config : Config) :
    Except ConfigError Machine := do
  let memory ← Memory.create config.memorySize program.instructions program.words input
  let datapath ← Datapath.create config.stackCapacity
  return { memory, datapath }

/-- Fetches the instruction at the program counter and executes it.  The result is
the opcode that retired. -/
def step : Microcode Opcode := do
  modify fun m => { m with current := none }
  let i ← Microcode.inspect fun m => m.memory.fetch m.pc
  modify fun m => { m with current := some i }
  Microcode.execute i
  return i.opcode

end Machine

end Microstack
