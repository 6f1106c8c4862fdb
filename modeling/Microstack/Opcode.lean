/-
# `Microstack.Opcode` — the instruction set

The closed set of operations, with what is fixed about each of them: its
mnemonic and the short form of three of them, its code, whether it takes an
argument, and how many ticks its microcode takes.  The code of an operation is
its place in the list below, and indexes the statistics of a run.
-/

namespace Microstack

/-- The operations of the machine, in the order of their codes. -/
inductive Opcode
  | writeDirect | writeIndirect | readDirect | readIndirect
  | print
  | begin | nop
  | mod | plus | minus | mult | div | pow | lt | neg | invert
  | dup | dupUnder | rot | swap | push | drop
  | jmp | jnt | halt
deriving DecidableEq, Repr

namespace Opcode

abbrev count : Nat := 25

def code : Opcode → Fin count
  | writeDirect => 0 | writeIndirect => 1 | readDirect => 2 | readIndirect => 3
  | print => 4
  | begin => 5 | nop => 6
  | mod => 7 | plus => 8 | minus => 9 | mult => 10 | div => 11 | pow => 12 | lt => 13
  | neg => 14 | invert => 15
  | dup => 16 | dupUnder => 17 | rot => 18 | swap => 19 | push => 20 | drop => 21
  | jmp => 22 | jnt => 23 | halt => 24

/-- All operations, in the order of their codes. -/
def all : List Opcode :=
  [writeDirect, writeIndirect, readDirect, readIndirect, print, begin, nop,
    mod, plus, minus, mult, div, pow, lt, neg, invert,
    dup, dupUnder, rot, swap, push, drop, jmp, jnt, halt]

def ofCode? (n : Nat) : Option Opcode := all[n]?

theorem ofCode?_code (op : Opcode) : ofCode? op.code = some op := by cases op <;> rfl

def mnemonic : Opcode → String
  | writeDirect => "WRITE_DIR"
  | writeIndirect => "WRITE_NDR"
  | readDirect => "READ_DIR"
  | readIndirect => "READ_NDR"
  | print => "PRINT"
  | begin => "BEGIN"
  | nop => "NOP"
  | mod => "MOD"
  | plus => "PLUS"
  | minus => "MINUS"
  | mult => "MULT"
  | div => "DIV"
  | pow => "POW"
  | lt => "LT"
  | neg => "NEG"
  | invert => "INVERT"
  | dup => "DUP"
  | dupUnder => "OVER"
  | rot => "ROT"
  | swap => "SWAP"
  | push => "PUSH"
  | drop => "DROP"
  | jmp => "JMP"
  | jnt => "JNT"
  | halt => "HALT"

/-- The short forms that are also understood, but never written. -/
def shortForms : List (String × Opcode) :=
  [("WR_DIR", writeDirect), ("WR_NDR", writeIndirect), ("INV", invert)]

/-- The operation a mnemonic or a short form names.  Upper case matters here. -/
def ofMnemonic? (name : String) : Option Opcode :=
  match all.find? (fun op => op.mnemonic = name) with
  | some op => some op
  | none => shortForms.lookup name

theorem ofMnemonic?_mnemonic (op : Opcode) : ofMnemonic? op.mnemonic = some op := by
  cases op <;> decide

def takesArgument : Opcode → Bool
  | push | jmp | jnt => true
  | _ => false

/-- Whether the operation may set the program counter to its argument. -/
def isJump : Opcode → Bool
  | jmp | jnt => true
  | _ => false

/-- The ticks the microcode of the operation takes when it retires. -/
def ticks : Opcode → Nat
  | readIndirect | writeIndirect => 5
  | readDirect | writeDirect => 2
  | mod | plus | minus | mult | div | pow | lt | neg | invert => 2
  | halt => 0
  | _ => 1

end Opcode

end Microstack
