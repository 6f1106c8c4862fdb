/-
# `Microstack.Fault` — what can go wrong in the machine

Three families.  A `ConfigError` says that a machine of the asked size cannot
host the program.  A `Fault` is a violation of the machine's rules by the
program that runs on it.  A `Trap` is anything that keeps an instruction from
retiring: a fault, or one of the two ways in which a program ends normally.

The causes are data; the wording is in one function per family.
-/
import Microstack.Instruction

namespace Microstack

/-! ## The arithmetic unit's operations, which faults name -/

/-- The operations of the arithmetic unit. -/
inductive AluOp
  | mod | plus | mult | pow | lt | neg | invert | increment | notTrue
deriving DecidableEq, Repr

namespace AluOp

def all : List AluOp := [mod, plus, mult, pow, lt, neg, invert, increment, notTrue]

def name : AluOp → String
  | mod => "mod"
  | plus => "plus"
  | mult => "mult"
  | pow => "pow"
  | lt => "lt"
  | neg => "neg"
  | invert => "invert"
  | increment => "increment"
  | notTrue => "not_true"

def ofName? (s : String) : Option AluOp := all.find? fun op => op.name = s

theorem ofName?_name (op : AluOp) : ofName? op.name = some op := by cases op <;> decide

end AluOp

/-! ## Configuration errors -/

/-- Why a machine of the asked size cannot host a program. -/
inductive ConfigError
  | memoryTooSmall (memorySize programLength : Nat)
  | dataTooLarge (dataLength limit : Nat)
  | emptyStack
deriving DecidableEq

def ConfigError.message : ConfigError → String
  | memoryTooSmall size length =>
    "memory size " ++ Numeral.ofNat size ++ " must exceed the program length " ++
      Numeral.ofNat length ++ " plus 128"
  | dataTooLarge length limit =>
    "data segment of " ++ Numeral.ofNat length ++ " words does not fit below address " ++
      Numeral.ofNat limit
  | emptyStack => "operand stack capacity must be nonzero"

/-! ## Faults -/

/-- A violation of the machine's rules. -/
inductive Fault
  | addressOutOfRange (address : Int) (memorySize : Nat)
  | writeToInputPort
  | readFromOutputPort
  | programTextAccess (address : Nat)
  | noInstruction (pc programLength : Nat)
  | stackOffset (offset deepest : Nat)
  | stackUnderflow (offset head : Nat)
  | stackBounds (head : Nat) (delta : Int) (capacity : Nat)
  | illegalHeadDelta (delta : Int)
  | missingArgument (opcode : Opcode)
  | invalidArgument (opcode : Opcode) (argument : Argument)
  | overflow (op : AluOp)
  | divisionByZero (op : AluOp)
  | negativeExponent (exponent : Word)
  | unsupportedOpcode (opcode : Opcode)
deriving DecidableEq

def Fault.message : Fault → String
  | addressOutOfRange address size =>
    "address " ++ Numeral.ofInt address ++ " is outside [0, " ++ Numeral.ofNat size ++ "]"
  | writeToInputPort => "the input port is read-only"
  | readFromOutputPort => "the output port is write-only"
  | programTextAccess address => "address " ++ Numeral.ofNat address ++ " holds program text"
  | noInstruction pc length =>
    "no instruction at pc " ++ Numeral.ofNat pc ++ " (program length " ++
      Numeral.ofNat length ++ ")"
  | stackOffset offset deepest =>
    "stack offset " ++ Numeral.ofNat offset ++ " is deeper than " ++ Numeral.ofNat deepest
  | stackUnderflow offset head =>
    "stack underflow: offset " ++ Numeral.ofNat offset ++ " with " ++ Numeral.ofNat head ++
      " words on the stack"
  | stackBounds head delta capacity =>
    "stack head moved out of [0, " ++ Numeral.ofNat capacity ++ "): " ++ Numeral.ofNat head ++
      " " ++ Numeral.signed delta
  | illegalHeadDelta delta =>
    "head adjustment " ++ Numeral.ofInt delta ++ " is not a microcode step"
  | missingArgument op => op.mnemonic ++ " requires an argument"
  | invalidArgument op arg =>
    op.mnemonic ++ " cannot use `" ++ arg.text ++ "` as an argument"
  | overflow op => "arithmetic overflow in " ++ op.name
  | divisionByZero op => "division by zero in " ++ op.name
  | negativeExponent n => "negative exponent " ++ n.text ++ " in POW"
  | unsupportedOpcode op => op.mnemonic ++ " has no microcode"

/-! ## Traps -/

/-- What keeps an instruction from retiring. -/
inductive Trap
  | halt
  | inputExhausted
  | fault (cause : Fault)
deriving DecidableEq

def Trap.message : Trap → String
  | halt => "halt"
  | inputExhausted => "input exhausted"
  | fault cause => cause.message

/-! ## What an instruction asks of its argument -/

namespace Instruction

/-- The word that a `PUSH` pushes. -/
def literal (i : Instruction) : Except Fault Word :=
  match i.argument with
  | none => .error (.missingArgument i.opcode)
  | some arg => .ok arg.value

/-- The program counter that a jump lands on: its argument must be a number, and
not a negative one. -/
def target (i : Instruction) : Except Fault Nat :=
  match i.argument with
  | none => .error (.missingArgument i.opcode)
  | some (.number n) =>
    if 0 ≤ n.toInt then .ok n.toInt.toNat else .error (.invalidArgument i.opcode (.number n))
  | some (.char c) => .error (.invalidArgument i.opcode (.char c))

/-- The argument of a jump must be a number, and not a negative one. -/
theorem target_eq_ok_iff (i : Instruction) {pc : Nat} :
    i.target = .ok pc ↔
      ∃ n, i.argument = some (.number n) ∧ 0 ≤ n.toInt ∧ pc = n.toInt.toNat := by
  simp only [target]
  cases i.argument with
  | none => simp
  | some arg =>
    cases arg with
    | char c => simp
    | number n =>
      by_cases hn : 0 ≤ n.toInt
      · simp [hn, eq_comm]
      · simp [hn]

end Instruction

end Microstack
