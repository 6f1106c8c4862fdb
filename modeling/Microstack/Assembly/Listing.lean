/-
# `Microstack.Assembly.Listing` — a program written as assembly

Every instruction that some jump lands on gets a label named after its program
counter, and jumps are written with these labels.  The context of a term is kept
as a comment.
-/
import Microstack.Fault
import Microstack.SymbolTable

namespace Microstack.Listing

def label (pc : Nat) : String := "L" ++ Numeral.ofNat pc

/-- The program counter an instruction may jump to. -/
def jumpTarget? (i : Instruction) : Option Nat :=
  if i.opcode.isJump then
    match i.target with
    | .ok pc => some pc
    | .error _ => none
  else none

/-- The labels of all jump targets.  A second jump to a target finds its label
already there. -/
def symbols (p : Program) : SymbolTable :=
  (p.instructions.filterMap jumpTarget?).foldl
    (fun table pc => (table.insert? (label pc) pc).getD table) SymbolTable.empty

/-- The column in which comments start, unless an instruction is too long. -/
def commentColumn : Nat := 16

/-- The text filled up with spaces on the right. -/
def padded (width : Nat) (text : String) : String :=
  text ++ String.ofList (List.replicate (width - text.length) ' ')

/-- An instruction, a jump written with the label of its target. -/
def operation (table : SymbolTable) (i : Instruction) : String :=
  match (jumpTarget? i).bind table.label? with
  | some target => i.opcode.mnemonic ++ " " ++ target
  | none => i.text

/-- The line of an instruction, with the context of its term as a comment. -/
def instructionLine (table : SymbolTable) (i : Instruction) : String :=
  let text := operation table i
  match i.term with
  | some term =>
    if term.context.isEmpty then "    " ++ text
    else "    " ++ padded commentColumn text ++ "# " ++ term.context
  | none => "    " ++ text

/-- The line that defines the label of a program counter, if it has one. -/
def labelLine (table : SymbolTable) (pc : Nat) : List String :=
  match table.label? pc with
  | some target => [target ++ ":"]
  | none => []

def dataLine (p : Program) : List String :=
  match p.data with
  | some words => [words.foldl (fun line w => line ++ " " ++ w.text) ".data"]
  | none => []

/-- The lines of a listing.  A label may mark the end of the program. -/
def lines (p : Program) : List String :=
  let table := symbols p
  dataLine p ++
    p.instructions.zipIdx.flatMap (fun (i, pc) => labelLine table pc ++ [instructionLine table i]) ++
    labelLine table p.length

def text (p : Program) : String := String.join ((lines p).map (· ++ "\n"))

end Microstack.Listing
