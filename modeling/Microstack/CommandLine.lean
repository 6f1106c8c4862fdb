/-
# `Microstack.CommandLine` — the command

The command loads a program, writes its container if asked to, reads the input,
runs the program and prints what the run has to say, in this order.  Whatever it
does to files goes through a `FileSystem`, so that the same definitions describe
the real command and the command on a snapshot of files.

The exit status is 0 for a run that the program ended, 2 for one that was cut off
by the limit and for arguments that cannot be right, and 1 for any failure.
-/
import Microstack.Assembly
import Microstack.CommandLine.Options
import Microstack.Container
import Microstack.Display

namespace Microstack.CommandLine

/-! ## Files -/

/-- Why a file could not be read or written. -/
inductive FileError
  | notFound
  | notADirectory
  | isDirectory
  | nameTooLong
  | notText
  | other (text : String)

def FileError.message : FileError → String
  | notFound => "No such file or directory (os error 2)"
  | notADirectory => "Not a directory (os error 20)"
  | isDirectory => "Is a directory (os error 21)"
  | nameTooLong => "File name too long (os error 36)"
  | notText => "stream did not contain valid UTF-8"
  | other text => text

/-- What the command can do with files. -/
structure FileSystem (m : Type → Type) where
  read : String → m (Except FileError String)
  write : String → String → m (Except FileError Unit)

/-! ## Failures -/

/-- Why the command gave up. -/
structure Failure where
  message : String
  cause : Option String := none

namespace Failure

/-- A text with each line after the first indented. -/
def indented (text : String) : String :=
  String.ofList (text.toList.flatMap fun c => if c = '\n' then ['\n', ' ', ' ', ' ', ' '] else [c])

def text (f : Failure) : String :=
  "Error: " ++ f.message ++ "\n" ++
    match f.cause with
    | some cause => "\nCaused by:\n    " ++ indented cause ++ "\n"
    | none => ""

def ofFile (action path : String) (e : FileError) : Failure where
  message := action ++ " " ++ path
  cause := some e.message

def ofAssembly (e : Assembly.Error) : Failure where
  message := e.message

def ofContainer (e : Container.Error) : Failure where
  message := e.message
  cause := some e.detail

def ofConfig (e : ConfigError) : Failure where
  message := e.message

def ofExecution (e : ExecutionError) : Failure where
  message := e.message
  cause := some e.cause.message

end Failure

/-! ## The command -/

/-- What the command leaves behind, files apart. -/
structure Outcome where
  exit : UInt8
  stdout : String := ""
  stderr : String := ""

/-- A part of the command that may fail. -/
abbrev Session (m : Type → Type) := ExceptT Failure m

/-- The last component of a path. -/
def fileName (path : String) : List Char :=
  (path.toList.reverse.takeWhile (· ≠ '/')).reverse

/-- Whether a path has the extension of assembly, in lower case.  A name that
starts with its only dot has no extension. -/
def hasAssemblyName (path : String) : Bool :=
  match (fileName path).reverse with
  | 'm' :: 's' :: 'a' :: '.' :: _ :: _ => true
  | _ => false

section

variable {m : Type → Type} [Monad m]

def readFile (files : FileSystem m) (path : String) : Session m String := do
  match ← files.read path with
  | .ok text => return text
  | .error e => throw (Failure.ofFile "reading" path e)

def writeFile (files : FileSystem m) (path text : String) : Session m Unit := do
  match ← files.write path text with
  | .ok () => return
  | .error e => throw (Failure.ofFile "writing" path e)

def programOf (options : Options) (text : String) : Except Failure Program :=
  if options.assembly ∨ hasAssemblyName options.program then
    (Assembly.assemble text.toList).mapError Failure.ofAssembly
  else (Container.decode text.toList).mapError Failure.ofContainer

def report (options : Options) (ending : Termination) (r : Run) : Outcome :=
  let report := r.report ending
  let stdout :=
    "output: " ++ report.outputText ++ "\n" ++
      "instr_counter: " ++ Numeral.ofNat report.instructions ++
      " ticks: " ++ Numeral.ofNat report.ticks ++ "\n" ++
      if options.statistics then report.statistics.text ++ "\n" else ""
  if ending.isNormal then { exit := 0, stdout }
  else {
    exit := 2
    stdout
    stderr := "Too long execution: stopped after " ++ Numeral.ofNat r.retired ++
      " instructions at pc " ++ Numeral.ofNat r.machine.pc ++ ".\n" }

def runProgram (options : Options) (program : Program) (input : String) :
    Except Failure Outcome := do
  let r ← (Run.start program input.toList options.config).mapError Failure.ofConfig
  let (ending, r) ← r.finish.mapError Failure.ofExecution
  return report options ending r

def perform (files : FileSystem m) (options : Options) : Session m Outcome := do
  let text ← readFile files options.program
  let program ← ExceptT.mk (pure (programOf options text))
  if let some path := options.emit then
    writeFile files path (Container.encode program)
  let input ←
    match options.input with
    | some path => readFile files path
    | none => pure ""
  ExceptT.mk (pure (runProgram options program input))

/-- What the command says about itself. -/
def versionText : String := "stackvm 0.1.0\n"

def command (files : FileSystem m) (arguments : List String) : m Outcome := do
  match request? arguments with
  | none => return { exit := 2, stderr := "usage" }
  | some .version => return { exit := 0, stdout := versionText }
  | some (.run options) =>
    match ← (perform files options).run with
    | .ok outcome => return outcome
    | .error failure => return { exit := 1, stderr := failure.text }

end

end Microstack.CommandLine
