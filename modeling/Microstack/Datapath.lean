/-
# `Microstack.Datapath` — operand stack and arithmetic unit

The datapath is an array of slots, a head that counts the occupied ones, and an
accumulator in which the arithmetic unit leaves its result for the next step of
the microcode.  What a program can see of the slots is `Datapath.words`, those
below the head; a slot at or above it keeps whatever was last there.

The head stays strictly below the capacity, so the last slot is never visible:
a push that does not fit has already stored its word there when it fails.

Truth values are words on the stack, `Word.yes` and `Word.no`, and become
booleans only where a branch asks for one.
-/
import Microstack.Fault

namespace Microstack

/-! ## Arithmetic -/

namespace AluOp

/-- The operation that an arithmetic opcode selects, if it has one. -/
def ofOpcode? : Opcode → Option AluOp
  | .mod => some mod
  | .plus => some plus
  | .mult => some mult
  | .pow => some pow
  | .lt => some lt
  | .neg => some neg
  | .invert => some invert
  | _ => none

/-- How many operands are consumed when an opcode with this operation retires. -/
def arity : AluOp → Nat
  | neg | invert | notTrue => 1
  | _ => 2

/-- The word of an exact result, or an overflow of the operation. -/
def checked (op : AluOp) (result : Option Word) : Except Fault Word :=
  match result with
  | some w => .ok w
  | none => .error (.overflow op)

/-- The remainder of `a` by `b`, rounded toward minus infinity: the one that is rounded
toward zero, moved by `b` where its sign is not that of `b`.  The least word by minus one
overflows, though its remainder would fit. -/
def remainder (a b : Word) : Except Fault Word :=
  if b = 0 then .error (.divisionByZero mod)
  else
    match a.remainder? b with
    | none => .error (.overflow mod)
    | some r =>
      if r.toInt ≠ 0 ∧ ¬ (r.toInt < 0 ↔ b.toInt < 0) then .ok (Word.wrap (r.toInt + b.toInt))
      else .ok r

/-- The power of a base, if the exponent is not negative. -/
def power (base exponent : Word) : Except Fault Word :=
  if exponent.toInt < 0 then .error (.negativeExponent exponent)
  else checked pow (base.pow? exponent.toInt.toNat)

/-- Minus the successor of `b`.  The greatest word has no successor, so it
overflows. -/
def complement (b : Word) : Except Fault Word :=
  match Word.ofInt? (b.toInt + 1) with
  | some successor => checked invert (Word.ofInt? (-successor.toInt))
  | none => .error (.overflow invert)

end AluOp

/-! ## The datapath -/

/-- The operand stack and the accumulator. -/
structure Datapath where
  /-- All slots, occupied or not. -/
  slots : Array Word
  /-- The number of occupied slots. -/
  head : Nat
  /-- The last result of the arithmetic unit. -/
  accumulator : Word

namespace Datapath

/-- The capacity a machine has when nothing else is asked for. -/
def defaultCapacity : Nat := 256

/-- The deepest offset below the top that the microcode can see. -/
def deepest : Nat := 3

/-- An empty datapath with the given number of slots. -/
def create (capacity : Nat) : Except ConfigError Datapath :=
  if capacity = 0 then .error .emptyStack
  else .ok { slots := Array.replicate capacity 0, head := 0, accumulator := 0 }

def capacity (d : Datapath) : Nat := d.slots.size

/-- The words on the stack, bottom first. -/
def words (d : Datapath) : List Word := d.slots.toList.take d.head

/-- The word at an offset below the top of the stack. -/
def top (d : Datapath) (offset : Nat) : Except Fault Word :=
  if deepest < offset then .error (.stackOffset offset deepest)
  else if d.head ≤ offset then .error (.stackUnderflow offset d.head)
  else .ok (d.slots.getD (d.head - offset - 1) 0)

/-- The successor of the word at an offset below the top of the stack. -/
def topIncremented (d : Datapath) (offset : Nat) : Except Fault Word :=
  match d.top offset with
  | .error f => .error f
  | .ok w => AluOp.checked .increment (Word.ofInt? (w.toInt + 1))

/-- The result of an operation on the top of the stack.  Operations on two words
read the second one and then the top; a power takes its base from the top and
its exponent from below it, in that order. -/
def result (d : Datapath) : AluOp → Except Fault Word
  | .mod => do
    let a ← d.top 1
    let b ← d.top 0
    AluOp.remainder a b
  | .plus => do
    let a ← d.top 1
    let b ← d.top 0
    AluOp.checked .plus (Word.ofInt? (a.toInt + b.toInt))
  | .mult => do
    let a ← d.top 1
    let b ← d.top 0
    AluOp.checked .mult (Word.ofInt? (a.toInt * b.toInt))
  | .pow => do
    let base ← d.top 0
    let exponent ← d.top 1
    AluOp.power base exponent
  | .lt => do
    let a ← d.top 1
    let b ← d.top 0
    return Word.ofBool (a.toInt < b.toInt)
  | .neg => do
    let b ← d.top 0
    AluOp.checked .neg (Word.ofInt? (-b.toInt))
  | .invert => do
    let b ← d.top 0
    AluOp.complement b
  | .increment => do
    let a ← d.top 1
    AluOp.checked .increment (Word.ofInt? (a.toInt + 1))
  | .notTrue => do
    let b ← d.top 0
    return Word.ofBool (b ≠ Word.yes)

/-! ## Changing the datapath

The operations below keep the state they have reached when they fail. -/

abbrev Action := EStateM Fault Datapath

/-- The steps by which the microcode moves the head. -/
def headSteps : List Int := [1, -1, -2, -3]

/-- Moves the head by one of the microcode's steps. -/
def adjustHead (delta : Int) : Action Unit := fun d =>
  if delta ∉ headSteps then .error (.illegalHeadDelta delta) d
  else if 0 ≤ d.head + delta ∧ d.head + delta < d.capacity then
    .ok () { d with head := (d.head + delta).toNat }
  else .error (.stackBounds d.head delta d.capacity) d

/-- Stores a word in the slot at the head. -/
def store (w : Word) : Action Unit := fun d =>
  .ok () { d with slots := d.slots.setIfInBounds d.head w }

/-- Pushes a word: stores it, then moves the head. -/
def push (w : Word) : Action Unit := do
  store w
  adjustHead 1

/-- Leaves the result of an operation in the accumulator. -/
def latch (op : AluOp) : Action Unit := fun d =>
  match d.result op with
  | .ok w => .ok () { d with accumulator := w }
  | .error f => .error f d

/-- Consumes the top of the stack as a branch condition. -/
def popTruth : Action Bool := do
  latch .notTrue
  adjustHead (-1)
  return (← get).accumulator ≠ Word.yes

end Datapath

end Microstack
