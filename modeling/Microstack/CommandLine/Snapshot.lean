/-
# `Microstack.CommandLine.Snapshot` — the command on a snapshot of files

A snapshot is the files under one directory, by their paths from there.  The
command can be run on it without touching any real file, and what it wrote is
found by comparing two snapshots.

A path is followed part by part from that directory, or from the outermost
directory of all if it starts with a slash: a dot stays, two dots go to the
directory around, and every part but the last must be a directory.  The last part
is what is read or written.

Of what lies outside the snapshot, only what every system has is known to be
there: the directories around, those in `standardDirectories`, and the null
device, which is empty to read and forgets what is written to it.
-/
import Microstack.CommandLine

namespace Microstack.CommandLine

/-- The files under a directory. -/
structure Snapshot where
  files : List (List String × ByteArray)

namespace Snapshot

/-! ## Files and directories -/

/-- The parts of a path between its slashes. -/
def parts (path : String) : List String := (path.toList.splitOn '/').map String.ofList

/-- Whether a part of a path stays where one is. -/
def stays (part : String) : Bool := part == "" || part == "."

def pathOf (names : List String) : String := "/".intercalate names

def ofFiles (files : List (String × ByteArray)) : Snapshot :=
  ⟨files.map fun (path, bytes) => ((parts path).filter fun part => !stays part, bytes)⟩

def outermost : List String := ["/"]

/-- The directories that every system has. -/
def standardDirectories : List (List String) := [["/"], ["/", "dev"], ["/", "tmp"]]

def nullDevice : List String := ["/", "dev", "null"]

/-- Whether names start outside the snapshot: in a directory around it, which is
written with two dots for each step out, or in the outermost one. -/
def isOutside (names : List String) : Bool :=
  names.head? == some ".." || names.head? == outermost.head?

def around (names : List String) : List String :=
  if names = outermost then outermost
  else if names.all (· == "..") then ".." :: names
  else names.dropLast

def find? (s : Snapshot) (names : List String) : Option ByteArray :=
  if names = nullDevice then some ByteArray.empty else s.files.lookup names

/-- Whether there is a directory: that of the snapshot, one around it, one that
every system has, or one that has a file below it. -/
def hasDirectory (s : Snapshot) (names : List String) : Bool :=
  names.all (· == "..") || standardDirectories.contains names ||
    s.files.any fun (path, _) => names.isPrefixOf path && names ≠ path

def put (s : Snapshot) (names : List String) (bytes : ByteArray) : Snapshot :=
  ⟨(names, bytes) :: s.files.filter fun (path, _) => path ≠ names⟩

/-! ## Following a path -/

/-- The greatest length of a name, in bytes. -/
def maxName : Nat := 255

/-- The greatest length of a path, in bytes. -/
def maxPath : Nat := 4095

/-- Whether a part of a path is a name, and not a way to a directory. -/
def isName (part : String) : Bool := !stays part && part != ".."

/-- Where the parts of a path lead from a directory, if each of them is one. -/
def enter (s : Snapshot) (here : List String) : List String → Except FileError (List String)
  | [] => .ok here
  | part :: rest =>
    let there := here ++ [part]
    if stays part then s.enter here rest
    else if part = ".." then s.enter (around here) rest
    else if maxName < part.utf8ByteSize then .error .nameTooLong
    else if s.hasDirectory there then s.enter there rest
    else .error (if (s.find? there).isSome then .notADirectory else .notFound)

/-- Where a path is followed from. -/
def origin (path : String) : List String :=
  if path.toList.head? = some '/' then outermost else []

/-- The directory in which a path has its last part, and that part. -/
def locate (s : Snapshot) (path : String) : Except FileError (List String × String) := do
  let all := parts path
  let here ← s.enter (origin path) all.dropLast
  return (here, all.getLastD "")

/-- The path without the slashes at its end. -/
def withoutSlashes (path : String) : String :=
  String.ofList (path.toList.reverse.dropWhile (· = '/')).reverse

/-! ## Reading and writing -/

def textAt (s : Snapshot) (names : List String) : Except FileError String :=
  match s.find? names with
  | none => .error .notFound
  | some bytes =>
    match String.fromUTF8? bytes with
    | some text => .ok text
    | none => .error .notText

/-- The text in the file at a path.  A path that ends in a slash has nothing as its
last part, so that all before it must be a directory. -/
def textOf (s : Snapshot) (path : String) : Except FileError String := do
  if maxPath < path.utf8ByteSize then throw .nameTooLong
  let (here, last) ← s.locate path
  if !isName last then throw .isDirectory
  else if maxName < last.utf8ByteSize then throw .nameTooLong
  else if s.hasDirectory (here ++ [last]) then throw .isDirectory
  else s.textAt (here ++ [last])

/-- The names of the file to write at a path.  A path that ends in a slash asks for
a directory, whether there is one or not. -/
def writable (s : Snapshot) (path : String) : Except FileError (List String) := do
  if maxPath < path.utf8ByteSize then throw .nameTooLong
  let (here, last) ← s.locate (withoutSlashes path)
  if !isName last || withoutSlashes path != path then throw .isDirectory
  else if maxName < last.utf8ByteSize then throw .nameTooLong
  else if s.hasDirectory (here ++ [last]) then throw .isDirectory
  else return here ++ [last]

def read (path : String) : StateM Snapshot (Except FileError String) := do
  return (← get).textOf path

def write (path text : String) : StateM Snapshot (Except FileError Unit) := do
  let s ← get
  match s.writable path with
  | .error e => return .error e
  | .ok names =>
    set (s.put names text.toUTF8)
    return .ok ()

def fileSystem : FileSystem (StateM Snapshot) where
  read := read
  write := write

/-! ## Comparing snapshots -/

/-- Whether a file has exactly these contents. -/
def holds (s : Snapshot) (names : List String) (bytes : ByteArray) : Bool :=
  (s.find? names).any fun found => found.data == bytes.data

/-- The files of the later snapshot that are new or have changed. -/
def changes (earlier later : Snapshot) : List (String × ByteArray) :=
  (later.files.filter fun (names, bytes) =>
      !isOutside names && !earlier.holds names bytes).map
    fun (names, bytes) => (pathOf names, bytes)

end Snapshot

/-- The command on a snapshot: its outcome, and the files it wrote. -/
def commandOn (files : Snapshot) (arguments : List String) :
    Outcome × List (String × ByteArray) :=
  let (outcome, after) := (command Snapshot.fileSystem arguments).run files
  (outcome, Snapshot.changes files after)

end Microstack.CommandLine
