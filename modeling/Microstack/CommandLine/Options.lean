/-
# `Microstack.CommandLine.Options` — the arguments of the command

    PROGRAM [INPUT] [--memory-size N] [--stack-capacity N] [--limit N]
            [--asm] [--emit PATH] [--stats] [--version | -V]

Options stand anywhere among the one or two paths, and a value follows its option
as the next argument or after an equals sign.  Nothing may be given twice.  A
value that is an argument of its own does not start with a dash, unless it is the
dash alone.  After `--` there are only paths.

Arguments are read from the left, and the version is asked for as soon as that
option is met; it is an error earlier in the line that prevents it.
-/
import Microstack.Machine

namespace Microstack.CommandLine

/-- What a run of the command was asked to do. -/
structure Options where
  program : String
  /-- The path of the text that is fed to the input port. -/
  input : Option String := none
  config : Machine.Config := {}
  /-- Whether the program is assembly, whatever its path says. -/
  assembly : Bool := false
  /-- Where to write the container of the program. -/
  emit : Option String := none
  statistics : Bool := false

/-- What the arguments ask for. -/
inductive Request
  | version
  | run (options : Options)

/-! ## Numbers -/

/-- The greatest number that an option takes. -/
def maxNumber : Nat := 18446744073709551615

/-- The digits of a number, after the plus sign that it may start with. -/
def unsignedDigits : List Char → List Char
  | '+' :: rest => rest
  | cs => cs

def number? (text : String) : Option Nat :=
  let digits := unsignedDigits text.toList
  if digits.isEmpty || !digits.all Char.isDigit then none
  else
    let n := Numeral.value digits
    if n ≤ maxNumber then some n else none

/-! ## Arguments one by one -/

/-- An option that takes a value. -/
inductive Setting
  | memorySize | stackCapacity | limit | emit

/-- An option that takes none. -/
inductive Flag
  | assembly | statistics | version

inductive Kind
  | path
  | endOfOptions
  | setting (which : Setting) (value : Option String)
  | flag (which : Flag)
  | unknown

def settingNamed? : String → Option Setting
  | "--memory-size" => some .memorySize
  | "--stack-capacity" => some .stackCapacity
  | "--limit" => some .limit
  | "--emit" => some .emit
  | _ => none

def flagNamed? : String → Option Flag
  | "--asm" => some .assembly
  | "--stats" => some .statistics
  | "--version" => some .version
  | _ => none

/-- A long option: its name up to the first equals sign, and its value after that. -/
def longOption (argument : List Char) : Kind :=
  let name := String.ofList (argument.takeWhile (· ≠ '='))
  let value :=
    match argument.dropWhile (· ≠ '=') with
    | _ :: value => some (String.ofList value)
    | [] => none
  match settingNamed? name, flagNamed? name, value with
  | some setting, _, value => .setting setting value
  | none, some flag, none => .flag flag
  | _, _, _ => .unknown

/-- What an argument is, wherever options are allowed. -/
def kindOf (argument : String) : Kind :=
  match argument.toList with
  | ['-', '-'] => .endOfOptions
  | '-' :: '-' :: rest => longOption ('-' :: '-' :: rest)
  | '-' :: 'V' :: _ => .flag .version
  | '-' :: _ :: _ => .unknown
  | _ => .path

/-- Whether an argument can be the value of the option before it. -/
def isValue (argument : String) : Bool :=
  match argument.toList with
  | '-' :: _ :: _ => false
  | _ => true

/-! ## All arguments -/

structure Given where
  paths : List String := []
  memorySize : Option Nat := none
  stackCapacity : Option Nat := none
  limit : Option Nat := none
  emit : Option String := none
  assembly : Bool := false
  statistics : Bool := false

namespace Given

/-- One more path; there are at most two, and none is empty. -/
def addPath (g : Given) (path : String) : Option Given :=
  if path.isEmpty ∨ 2 ≤ g.paths.length then none else some { g with paths := g.paths ++ [path] }

/-- The value of an option that was not given before. -/
def set (g : Given) (value : String) : Setting → Option Given
  | .memorySize =>
    if g.memorySize.isSome then none
    else (number? value).map fun n => { g with memorySize := some n }
  | .stackCapacity =>
    if g.stackCapacity.isSome then none
    else (number? value).map fun n => { g with stackCapacity := some n }
  | .limit =>
    if g.limit.isSome then none else (number? value).map fun n => { g with limit := some n }
  | .emit =>
    if g.emit.isSome ∨ value.isEmpty then none else some { g with emit := some value }

/-- What the arguments ask for, once all of them are read. -/
def request (g : Given) : Option Request :=
  let defaults : Machine.Config := {}
  let config : Machine.Config := {
    memorySize := g.memorySize.getD defaults.memorySize
    stackCapacity := g.stackCapacity.getD defaults.stackCapacity
    instructionLimit := g.limit.getD defaults.instructionLimit }
  match g.paths with
  | program :: rest =>
    some (.run {
      program
      input := rest.head?
      config
      assembly := g.assembly
      emit := g.emit
      statistics := g.statistics })
  | [] => none

/-- Reads the arguments that are left.  There is no request if they cannot be
right. -/
def read (g : Given) : List String → Option Request
  | [] => g.request
  | argument :: rest =>
    match kindOf argument with
    | .path => (g.addPath argument).bind fun g => read g rest
    | .endOfOptions => (rest.foldlM addPath g).bind request
    | .setting which (some value) => (g.set value which).bind fun g => read g rest
    | .setting which none =>
      match rest with
      | value :: rest =>
        if isValue value then (g.set value which).bind fun g => read g rest else none
      | [] => none
    | .flag .version => some .version
    | .flag .assembly => if g.assembly then none else read { g with assembly := true } rest
    | .flag .statistics => if g.statistics then none else read { g with statistics := true } rest
    | .unknown => none

end Given

def request? (arguments : List String) : Option Request := Given.read {} arguments

end Microstack.CommandLine
