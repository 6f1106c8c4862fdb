/-
# `Microstack.Instruction` — instructions and programs

An instruction is an operation with an optional argument and an optional term,
the note of where in a source text it came from.  A program is a list of
instructions, addressed from zero by the program counter, and perhaps an image
of low memory to start from.

The machine never looks at a term.  An argument is a number or a character, and
a character counts as its code.
-/
import Microstack.Opcode
import Microstack.Text.Glyph
import Microstack.Word

namespace Microstack

/-! ## Arguments -/

inductive Argument
  | number (n : Word)
  | char (c : Char)
deriving DecidableEq

namespace Argument

/-- The word the argument stands for. -/
def value : Argument → Word
  | number n => n
  | char c => Word.ofChar c

/-- The argument as characters: a number in decimal, a character as a literal. -/
def chars : Argument → List Char
  | number n => Numeral.integer n.toInt
  | char c => Glyph.literal c

def text (arg : Argument) : String := String.ofList arg.chars

end Argument

/-! ## Terms -/

/-- Where in a source text an instruction came from. -/
structure Term where
  /-- The line, counted from one. -/
  line : UInt32
  /-- A comment, or whatever else gives context. -/
  context : String
  text : String
deriving DecidableEq

namespace Term

/-- The term on one line: the text in quotes, then where it stands. -/
def display (t : Term) : String :=
  "'" ++ t.text ++ "' @ " ++ Numeral.ofNat t.line.toNat ++ ":" ++ t.context

end Term

/-! ## Instructions -/

/-- One entry of the program text. -/
structure Instruction where
  opcode : Opcode
  argument : Option Argument := none
  term : Option Term := none
deriving DecidableEq

namespace Instruction

/-- The instruction as text, its term left out. -/
def text (i : Instruction) : String :=
  match i.argument with
  | some arg => i.opcode.mnemonic ++ " " ++ arg.text
  | none => i.opcode.mnemonic

end Instruction

/-! ## Programs -/

/-- A program: its instructions, and the initial data words if it has any. -/
structure Program where
  data : Option (List Word) := none
  instructions : List Instruction := []
deriving DecidableEq

namespace Program

/-- The initial data words, none if the program has no data segment. -/
def words (p : Program) : List Word := p.data.getD []

def length (p : Program) : Nat := p.instructions.length

/-- What the machine sees of the program: operations and arguments without terms. -/
def skeleton (p : Program) : List (Opcode × Option Argument) :=
  p.instructions.map fun i => (i.opcode, i.argument)

end Program

end Microstack
