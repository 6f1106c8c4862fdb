/-
# `Microstack.Main` — the command as a program

The real files, the real arguments, and nothing else: everything that is decided
is decided in `Microstack.CommandLine`.
-/
import Microstack.CommandLine

open Microstack.CommandLine

/-- The number of a system error, which may come with a minus sign. -/
def systemNumber (code : UInt32) : Nat := code.toInt32.toInt.natAbs

/-- The reason that an input or output operation failed. -/
def fileError (e : IO.Error) : FileError :=
  match e with
  | .noFileOrDirectory _ _ _ => .notFound
  | .inappropriateType _ code _ =>
    if systemNumber code = 20 then .notADirectory
    else if systemNumber code = 21 then .isDirectory
    else .other (toString e)
  | .invalidArgument _ code _ =>
    if systemNumber code = 36 then .nameTooLong else .other (toString e)
  | e => .other (toString e)

def systemFiles : FileSystem IO where
  read path := do
    try
      let bytes ← IO.FS.readBinFile path
      match String.fromUTF8? bytes with
      | some text => return .ok text
      | none => return .error .notText
    catch e => return .error (fileError e)
  write path text := do
    try
      IO.FS.writeFile path text
      return .ok ()
    catch e => return .error (fileError e)

def main (arguments : List String) : IO UInt32 := do
  let outcome ← command systemFiles arguments
  IO.print outcome.stdout
  IO.eprint outcome.stderr
  return outcome.exit.toUInt32
