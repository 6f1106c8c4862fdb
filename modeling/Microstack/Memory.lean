/-
# `Microstack.Memory` — memory with ports

One array of cells holds everything:

    0                        input port, read only
    1                        output port, write only
    2 .. program start       data words
    program start .. end     program text

The program text sits at the top, and the initial data words are an image of low
memory from address 0.  Memory is reached through an address register: `latch`
sets it, `read` and `write` act on it.  Reading the input port takes the next
character of the input, writing the output port appends a token to the output,
and either leaves its word in the port's own cell.

A failed operation changes nothing.
-/
import Microstack.Fault

namespace Microstack

/-! ## Addresses -/

/-- What a raw address means. -/
inductive Address
  | inputPort
  | outputPort
  | data (index : Nat)
  | program (index : Nat)
deriving DecidableEq

namespace Address

/-- Program text never starts at or below this address, and the initial data
words all lie below it. -/
def programBase : Nat := 128

/-- The meaning of a raw address, given where the program text starts. -/
def classify (raw programStart : Nat) : Address :=
  if raw = 0 then inputPort
  else if raw = 1 then outputPort
  else if programStart ≤ raw then program raw
  else data raw

/-- The raw address. -/
def index : Address → Nat
  | inputPort => 0
  | outputPort => 1
  | data i => i
  | program i => i

theorem index_classify (raw programStart : Nat) : (classify raw programStart).index = raw := by
  unfold classify
  split
  · next h => exact h.symm
  · split
    · next h => exact h.symm
    · split <;> rfl

def isPort : Address → Bool
  | inputPort | outputPort => true
  | _ => false

def text : Address → String
  | inputPort => "IN"
  | outputPort => "OUT"
  | data i => "MEM[" ++ Numeral.ofNat i ++ "]"
  | program i => "PROG[" ++ Numeral.ofNat i ++ "]"

end Address

/-! ## Cells -/

/-- The contents of one address. -/
inductive Cell
  | word (w : Word)
  | instruction (i : Instruction)
deriving DecidableEq

namespace Cell

/-- The word in a cell that holds one. -/
def word? : Cell → Option Word
  | word w => some w
  | instruction _ => none

/-- The cell as text; an instruction stands in angle brackets. -/
def text : Cell → String
  | word w => w.text
  | instruction i => "<" ++ i.text ++ ">"

end Cell

/-! ## Memory -/

/-- The state of memory, with what is left of the input and the output so far. -/
structure Memory where
  cells : Array Cell
  address : Nat
  programStart : Nat
  /-- The characters not read yet. -/
  input : List Char
  /-- The tokens written so far. -/
  output : Array String

namespace Memory

/-- The size a memory has when nothing else is asked for. -/
def defaultSize : Nat := 600

/-- The cells of a memory: the data words, zeros up to the program text, and the
program text. -/
def image (size : Nat) (program : List Instruction) (data : List Word) : List Cell :=
  data.map .word ++ List.replicate (size - program.length - data.length) (.word 0) ++
    program.map .instruction

/-- A memory of the given size that holds a program and its data words. -/
def create (size : Nat) (program : List Instruction) (data : List Word) (input : List Char) :
    Except ConfigError Memory :=
  if size ≤ program.length + Address.programBase then
    .error (.memoryTooSmall size program.length)
  else if Address.programBase < data.length then
    .error (.dataTooLarge data.length Address.programBase)
  else
    .ok {
      cells := (image size program data).toArray
      address := 0
      programStart := size - program.length
      input := input
      output := #[] }

def size (m : Memory) : Nat := m.cells.size

def programLength (m : Memory) : Nat := m.size - m.programStart

/-- The meaning of the latched address. -/
def latched (m : Memory) : Address := Address.classify m.address m.programStart

/-- The word stored at an address, without any effect of a port. -/
def peek? (m : Memory) (address : Nat) : Option Word := m.cells[address]?.bind Cell.word?

def fetch (m : Memory) (pc : Nat) : Except Fault Instruction :=
  match m.cells[m.programStart + pc]? with
  | some (.instruction i) => .ok i
  | _ => .error (.noInstruction pc m.programLength)

/-- The latched address, if it holds a data word or belongs to a port. -/
def dataIndex (m : Memory) : Except Fault Nat :=
  if m.size ≤ m.address then .error (.addressOutOfRange m.address m.size)
  else
    match m.latched with
    | .program i => .error (.programTextAccess i)
    | address => .ok address.index

/-- The token that a word leaves on the output: the character with that code if
it is an ASCII code, the number in decimal otherwise. -/
def token (w : Word) : String :=
  if 0 ≤ w.toInt ∧ w.toInt ≤ 127 then String.singleton (Char.ofNat w.toInt.toNat) else w.text

abbrev Action := EStateM Trap Memory

/-- Sets the address register.  The address one past the end can be latched, but
neither read nor written. -/
def latch (address : Word) : Action Unit := fun m =>
  if 0 ≤ address.toInt ∧ address.toInt ≤ m.size then
    .ok () { m with address := address.toInt.toNat }
  else .error (.fault (.addressOutOfRange address.toInt m.size)) m

def read : Action Word := fun m =>
  match m.latched with
  | .outputPort => .error (.fault .readFromOutputPort) m
  | .inputPort =>
    match m.input with
    | [] => .error .inputExhausted m
    | c :: rest =>
      let w := Word.ofChar c
      .ok w { m with cells := m.cells.setIfInBounds 0 (.word w), input := rest }
  | _ =>
    match m.dataIndex with
    | .ok i => .ok ((m.peek? i).getD 0) m
    | .error f => .error (.fault f) m

def write (w : Word) : Action Unit := fun m =>
  match m.latched with
  | .inputPort => .error (.fault .writeToInputPort) m
  | .outputPort =>
    .ok () { m with
      cells := m.cells.setIfInBounds 1 (.word w)
      output := m.output.push (token w) }
  | _ =>
    match m.dataIndex with
    | .ok i => .ok () { m with cells := m.cells.setIfInBounds i (.word w) }
    | .error f => .error (.fault f) m

end Memory

end Microstack
