/-
# `Microstack.Assembly` — assembling a program

Assembly is read line by line into a draft: the labels seen, the data segment if
one was given, and the instructions with their label operands still open.  Once
the whole text has been read the labels are resolved, so that a jump forward
needs nothing special.

The first line with anything wrong decides the error.  On one line the order is:
the line does not parse, its label is taken, and then whatever is wrong with its
statement.  An undefined label is reported only if every line is otherwise fine.
-/
import Microstack.Assembly.Line
import Microstack.SymbolTable
import Microstack.Text.Line

namespace Microstack.Assembly

/-- Why a text is not a program.  Lines count from one. -/
inductive Error
  | notAnOperation (line : Nat) (name : String)
  | unparsable (line : Nat) (text : String)
  | duplicateLabel (line : Nat) (label : String)
  | undefinedLabel (line : Nat) (label : String)
  | argumentMissing (line : Nat) (opcode : Opcode)
  | unexpectedArgument (line : Nat) (opcode : Opcode)
  | duplicateData (line : Nat)
deriving DecidableEq

namespace Error

def line : Error → Nat
  | notAnOperation n _ => n
  | unparsable n _ => n
  | duplicateLabel n _ => n
  | undefinedLabel n _ => n
  | argumentMissing n _ => n
  | unexpectedArgument n _ => n
  | duplicateData n => n

def complaint : Error → String
  | notAnOperation _ name => name ++ " is not an operation"
  | unparsable _ text => "could not parse `" ++ text ++ "`"
  | duplicateLabel _ label => "label `" ++ label ++ "` is defined more than once"
  | undefinedLabel _ label => "undefined label `" ++ label ++ "`"
  | argumentMissing _ op => op.mnemonic ++ " requires an argument"
  | unexpectedArgument _ op => op.mnemonic ++ " takes no argument"
  | duplicateData _ => "the data segment may only be given once"

def message (e : Error) : String := "line " ++ Numeral.ofNat e.line ++ ": " ++ e.complaint

end Error

/-! ## Drafts -/

/-- An instruction whose label operand, if it has one, is still open. -/
structure Pending where
  line : Nat
  instruction : Instruction
  label : Option String

/-- What has been read of a program. -/
structure Draft where
  symbols : SymbolTable := SymbolTable.empty
  data : Option (List Word) := none
  pending : Array Pending := #[]

/-- The operation that a mnemonic names, in either case. -/
def operation? (mnemonic : String) : Option Opcode :=
  Opcode.ofMnemonic? (String.ofList (mnemonic.toList.map Char.toUpper))

/-- The term of an instruction: its line, the comment without the white space
around it, and the instruction as written. -/
def termOf (line : Nat) (comment : Option String) (mnemonic : String)
    (operand : Option Operand) : Term where
  line := UInt32.ofNat line
  context := String.ofList (Text.trim (comment.getD "").toList)
  text :=
    match operand with
    | some op => mnemonic ++ " " ++ op.text
    | none => mnemonic

/-- The instruction of a line, with its label still open. -/
def pendingOf (line : Nat) (opcode : Opcode) (operand : Option Operand) (term : Term) :
    Pending :=
  match operand with
  | some (.literal arg) =>
    { line, instruction := { opcode, argument := some arg, term := some term }, label := none }
  | some (.label name) =>
    { line, instruction := { opcode, term := some term }, label := some name }
  | none => { line, instruction := { opcode, term := some term }, label := none }

namespace Draft

/-- The draft with the label of a line. -/
def define (d : Draft) (line : Nat) : Option String → Except Error Draft
  | none => .ok d
  | some label =>
    match d.symbols.insert? label d.pending.size with
    | some symbols => .ok { d with symbols }
    | none => .error (.duplicateLabel line label)

def append (d : Draft) (line : Nat) (comment : Option String) (mnemonic : String)
    (operand : Option Operand) : Except Error Draft :=
  match operation? mnemonic with
  | none => .error (.notAnOperation line mnemonic)
  | some opcode =>
    match operand, opcode.takesArgument with
    | none, true => .error (.argumentMissing line opcode)
    | some _, false => .error (.unexpectedArgument line opcode)
    | _, _ =>
      let term := termOf line comment mnemonic operand
      .ok { d with pending := d.pending.push (pendingOf line opcode operand term) }

def perform (d : Draft) (line : Nat) (comment : Option String) :
    Option Statement → Except Error Draft
  | none => .ok d
  | some (.data words) =>
    match d.data with
    | some _ => .error (.duplicateData line)
    | none => .ok { d with data := some words }
  | some (.instruction mnemonic operand) => d.append line comment mnemonic operand

def readLine (d : Draft) (source : List Char × Nat) : Except Error Draft :=
  let (text, line) := source
  match Line.parse? text with
  | none => .error (.unparsable line (String.ofList (Text.trim text)))
  | some parsed => do
    let d ← d.define line parsed.label
    d.perform line parsed.comment parsed.statement

/-- The draft of a text, all lines read in order. -/
def read (text : List Char) : Except Error Draft :=
  ((Text.lines text).zipIdx 1).foldlM readLine {}

def resolve (symbols : SymbolTable) (p : Pending) : Except Error Instruction :=
  match p.label with
  | none => .ok p.instruction
  | some label =>
    match symbols.address? label with
    | some pc => .ok { p.instruction with argument := some (.number (Word.wrap pc)) }
    | none => .error (.undefinedLabel p.line label)

def program (d : Draft) : Except Error Program := do
  let instructions ← d.pending.toList.mapM (resolve d.symbols)
  return { data := d.data, instructions }

end Draft

def assemble (text : List Char) : Except Error Program := do
  let draft ← Draft.read text
  draft.program

end Microstack.Assembly
