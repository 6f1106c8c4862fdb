/-
# `Microstack.Container` — programs as JSON

The container of a program is a JSON object with its `instructions` and perhaps
its `data`; a bare array is a program without data.  An instruction is an object
with an `opcode` and perhaps an `arg` and a `term`, or an array with these in
this order.  A term is the triple of its line, its context and its text.

A character argument is a string of one character, and a string that spells a
number is that number.  A digit as a character therefore comes back as a number;
everything else comes back as it was written.

The whole text is read as JSON before anything else is looked at.  Then the value
is checked depth first, the fields of an object in the order of their names, and
what is missing is noticed last.
-/
import Microstack.Instruction
import Microstack.Json.Reader
import Microstack.Json.Writer
import Microstack.Text.Line
import Microstack.Text.Quoted

namespace Microstack.Container

/-! ## What can be wrong with a container -/

/-- What was wanted where something else stood. -/
inductive Wanted
  | program | instruction | sequence | string | word | line | triple
deriving DecidableEq

def Wanted.text : Wanted → String
  | program => "struct Program"
  | instruction => "struct Instruction"
  | sequence => "a sequence"
  | string => "a string"
  | word => "i32"
  | line => "u32"
  | triple => "a tuple of size 3"

/-- How a value is called where it was not wanted. -/
def describe : Json → String
  | .null => "null"
  | .bool true => "boolean `true`"
  | .bool false => "boolean `false`"
  | .int n => "integer `" ++ Numeral.ofInt n ++ "`"
  | .float x => "floating point `" ++ Shortest.text x ++ "`"
  | .string s => "string " ++ Quoted.text s
  | .array _ => "sequence"
  | .object _ => "map"

/-- Why a JSON value is not a program. -/
inductive ShapeError
  | wrongType (found : Json) (wanted : Wanted)
  | outOfRange (n : Int) (wanted : Wanted)
  | missingField (name : String)
  /-- An instruction written as an array with nothing in it. -/
  | emptyInstruction
  /-- A term with too few items. -/
  | shortTerm (length : Nat)
  /-- An instruction or a term with too many items. -/
  | tooLong (length : Nat)
  | unknownOpcode (name : String)
  /-- An argument that is neither an integer nor a string. -/
  | notAnArgument
  /-- An argument that is a string, but neither a number nor one character. -/
  | notACharacter (text : String)

def ShapeError.message : ShapeError → String
  | wrongType found wanted => "invalid type: " ++ describe found ++ ", expected " ++ wanted.text
  | outOfRange n wanted =>
    "invalid value: integer `" ++ Numeral.ofInt n ++ "`, expected " ++ wanted.text
  | missingField name => "missing field `" ++ name ++ "`"
  | emptyInstruction => "invalid length 0, expected struct Instruction with 3 elements"
  | shortTerm n => "invalid length " ++ Numeral.ofNat n ++ ", expected a tuple of size 3"
  | tooLong n => "invalid length " ++ Numeral.ofNat n ++ ", expected fewer elements in array"
  | unknownOpcode name => "unknown opcode `" ++ name ++ "`"
  | notAnArgument => "data did not match any variant of untagged enum RawArgument"
  | notACharacter text => "`" ++ text ++ "` is neither a number nor a single character"

/-- Why a text is not the container of a program. -/
inductive Error
  | json (cause : Json.ReadError)
  | shape (cause : ShapeError)

namespace Error

def detail : Error → String
  | json .ended => "the text ends too early"
  | json .malformed => "the text is not JSON"
  | shape cause => cause.message

def message (e : Error) : String := "malformed program container: " ++ e.detail

end Error

/-! ## Reading -/

def word : Json → Except ShapeError Word
  | .int n =>
    match Word.ofInt? n with
    | some w => .ok w
    | none => .error (.outOfRange n .word)
  | v => .error (.wrongType v .word)

def line : Json → Except ShapeError UInt32
  | .int n =>
    if 0 ≤ n ∧ n ≤ 4294967295 then .ok (UInt32.ofNat n.toNat)
    else .error (.outOfRange n .line)
  | v => .error (.wrongType v .line)

def string : Json → Except ShapeError String
  | .string s => .ok s
  | v => .error (.wrongType v .string)

/-- An array, with a reader for its items. -/
def sequence {α : Type} (item : Json → Except ShapeError α) : Json → Except ShapeError (List α)
  | .array items => items.mapM item
  | v => .error (.wrongType v .sequence)

/-- A value that may be null, with a reader for what it is otherwise. -/
def nullable {α : Type} (read : Json → Except ShapeError α) :
    Json → Except ShapeError (Option α)
  | .null => .ok none
  | v => (read v).map some

/-- A field that may be missing or null. -/
def optionalField {α : Type} (read : Json → Except ShapeError α)
    (fields : List (String × Json)) (name : String) : Except ShapeError (Option α) :=
  match Json.field? fields name with
  | none => .ok none
  | some v => nullable read v

/-- A field that, if it is there, must be right. -/
def presentField {α : Type} (read : Json → Except ShapeError α)
    (fields : List (String × Json)) (name : String) : Except ShapeError (Option α) :=
  match Json.field? fields name with
  | none => .ok none
  | some v => (read v).map some

/-- What has been read of a field that must be there. -/
def required {α : Type} (name : String) : Option α → Except ShapeError α
  | some a => .ok a
  | none => .error (.missingField name)

/-- An opcode, by its mnemonic or a short form of it. -/
def opcode (v : Json) : Except ShapeError Opcode := do
  let name ← string v
  match Opcode.ofMnemonic? name with
  | some op => return op
  | none => throw (.unknownOpcode name)

/-- The sign that a numeral may start with, minus or not. -/
def numeralSign : List Char → Bool × List Char
  | '+' :: rest => (false, rest)
  | '-' :: rest => (true, rest)
  | cs => (false, cs)

/-- The word that a numeral spells, the white space around it left out. -/
def numeral? (text : List Char) : Option Word :=
  let (negative, digits) := numeralSign (Text.trim text)
  if digits.isEmpty || !digits.all Char.isDigit then none
  else
    let n : Int := Numeral.value digits
    Word.ofInt? (if negative then -n else n)

/-- The argument that a string spells. -/
def argumentOfText (s : String) : Except ShapeError Argument :=
  match numeral? s.toList with
  | some w => .ok (.number w)
  | none =>
    match s.toList with
    | [c] => .ok (.char c)
    | _ => .error (.notACharacter s)

def argument : Json → Except ShapeError Argument
  | .int n =>
    match Word.ofInt? n with
    | some w => .ok (.number w)
    | none => .error .notAnArgument
  | .string s => argumentOfText s
  | _ => .error .notAnArgument

def termOfItems : List Json → Except ShapeError Term
  | [] => .error (.shortTerm 0)
  | first :: rest => do
    let line ← line first
    match rest with
    | [] => throw (.shortTerm 1)
    | second :: rest =>
      let context ← string second
      match rest with
      | [] => throw (.shortTerm 2)
      | third :: rest =>
        let text ← string third
        if rest.isEmpty then return { line, context, text }
        else throw (.tooLong (3 + rest.length))

def term : Json → Except ShapeError Term
  | .array items => termOfItems items
  | v => .error (.wrongType v .triple)

/-- An item that may be missing or null. -/
def optionalItem {α : Type} (read : Json → Except ShapeError α) :
    Option Json → Except ShapeError (Option α)
  | none => .ok none
  | some v => nullable read v

/-- The items of an instruction that is written as an array. -/
def instructionOfItems : List Json → Except ShapeError Instruction
  | [] => .error .emptyInstruction
  | first :: rest => do
    let opcode ← opcode first
    let argument ← optionalItem argument rest[0]?
    let term ← optionalItem term rest[1]?
    if rest.length ≤ 2 then return { opcode, argument, term }
    else throw (.tooLong (1 + rest.length))

/-- The fields of an instruction that is written as an object. -/
def instructionOfFields (fields : List (String × Json)) : Except ShapeError Instruction := do
  let argument ← optionalField argument fields "arg"
  let opcode? ← presentField opcode fields "opcode"
  let term ← optionalField term fields "term"
  let opcode ← required "opcode" opcode?
  return { opcode, argument, term }

def instruction : Json → Except ShapeError Instruction
  | .array items => instructionOfItems items
  | .object fields => instructionOfFields fields
  | v => .error (.wrongType v .instruction)

def program : Json → Except ShapeError Program
  | .array items => do
    let instructions ← items.mapM instruction
    return { instructions }
  | .object fields => do
    let data ← optionalField (sequence word) fields "data"
    let instructions? ← presentField (sequence instruction) fields "instructions"
    let instructions ← required "instructions" instructions?
    return { data, instructions }
  | v => .error (.wrongType v .program)

/-- Reads the container of a program. -/
def decode (text : List Char) : Except Error Program :=
  match Json.parse text with
  | .error e => .error (.json e)
  | .ok v =>
    match program v with
    | .error e => .error (.shape e)
    | .ok p => .ok p

/-! ## Writing -/

def ofArgument : Argument → Json
  | .number n => .int n.toInt
  | .char c => .string (String.singleton c)

def ofTerm (t : Term) : Json :=
  .array [.int t.line.toNat, .string t.context, .string t.text]

/-- A field that is left out if there is nothing to say. -/
def ofOptional {α : Type} (name : String) (write : α → Json) :
    Option α → List (String × Json)
  | some a => [(name, write a)]
  | none => []

def ofInstruction (i : Instruction) : Json :=
  .object (("opcode", .string i.opcode.mnemonic) ::
    (ofOptional "arg" ofArgument i.argument ++ ofOptional "term" ofTerm i.term))

def ofProgram (p : Program) : Json :=
  .object (ofOptional "data" (fun words => .array (words.map fun w => .int w.toInt)) p.data ++
    [("instructions", .array (p.instructions.map ofInstruction))])

/-- Writes the container of a program. -/
def encode (p : Program) : String := (ofProgram p).text

end Microstack.Container
