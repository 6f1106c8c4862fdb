/-
# `Microstack.Assembly.Line` — the grammar of one line of assembly

    line       blank* [label blank* ':' blank*] [statement blank*] ['#' comment]
    statement  '.data' (blank+ number)*  |  name [blank+ operand]
    operand    number  |  character  |  name
    number     ['-'] digit+, in the range of a word
    character  a character literal, or a character other than ' and \ in quotes
    name       letter or '_', then letters, digits and '_'

Letters and digits are those of ASCII, and a blank is a space or a tab.  A part
that can be read is read, as far as it goes, and the whole line must be used up.

Each reader below takes the characters still to be read, and gives what it found
and the characters after it.
-/
import Microstack.Instruction

namespace Microstack.Assembly

/-- A reader of some part of a line. -/
abbrev Reader (α : Type) := List Char → Option (α × List Char)

/-! ## What a line holds -/

/-- The operand of an instruction, before labels are resolved. -/
inductive Operand
  | literal (arg : Argument)
  | label (name : String)
deriving DecidableEq

def Operand.text : Operand → String
  | literal arg => arg.text
  | label name => name

/-- What a line does. -/
inductive Statement
  | data (words : List Word)
  | instruction (mnemonic : String) (operand : Option Operand)
deriving DecidableEq

structure Line where
  label : Option String
  statement : Option Statement
  comment : Option String
deriving DecidableEq

/-! ## Blanks and names -/

def isBlank (c : Char) : Bool := c == ' ' || c == '\t'

/-- What follows any blanks. -/
def skipBlanks (cs : List Char) : List Char := cs.dropWhile isBlank

/-- What follows one blank or more. -/
def blanks : List Char → Option (List Char)
  | c :: rest => if isBlank c then some (skipBlanks rest) else none
  | [] => none

def isNameStart (c : Char) : Bool := c.isAlpha || c == '_'

def isNamePart (c : Char) : Bool := c.isAlphanum || c == '_'

def name : Reader String
  | c :: rest =>
    if isNameStart c then
      some (String.ofList (c :: rest.takeWhile isNamePart), rest.dropWhile isNamePart)
    else none
  | [] => none

/-! ## Operands -/

/-- The digits of a number, and its value with the sign given. -/
def magnitude (negative : Bool) (cs : List Char) : Option (Word × List Char) :=
  let digits := cs.takeWhile Char.isDigit
  if digits.isEmpty then none
  else
    let n : Int := Numeral.value digits
    (Word.ofInt? (if negative then -n else n)).map fun w => (w, cs.dropWhile Char.isDigit)

/-- A number in the range of a word. -/
def number : Reader Word
  | '-' :: rest => magnitude true rest
  | cs => magnitude false cs

/-- What follows the backslash of an escape. -/
def escape : Reader Char
  | 'n' :: rest => some ('\n', rest)
  | 't' :: rest => some ('\t', rest)
  | 'r' :: rest => some ('\r', rest)
  | '0' :: rest => some (Char.ofNat 0, rest)
  | '\\' :: rest => some ('\\', rest)
  | '\'' :: rest => some ('\'', rest)
  | '"' :: rest => some ('"', rest)
  | 'u' :: '{' :: rest =>
    let digits := rest.takeWhile Numeral.isHexDigit
    match digits, rest.dropWhile Numeral.isHexDigit with
    | _ :: _, '}' :: rest =>
      (Glyph.ofCode? (Numeral.hexValue digits)).map fun c => (c, rest)
    | _, _ => none
  | _ => none

/-- A character between its quotes, escaped or not. -/
def quotable : Reader Char
  | '\\' :: rest => escape rest
  | '\'' :: _ => none
  | c :: rest => some (c, rest)
  | [] => none

def character : Reader Char
  | '\'' :: rest =>
    match quotable rest with
    | some (c, '\'' :: rest) => some (c, rest)
    | _ => none
  | _ => none

def operand (cs : List Char) : Option (Operand × List Char) :=
  match number cs with
  | some (w, rest) => some (.literal (.number w), rest)
  | none =>
    match character cs with
    | some (c, rest) => some (.literal (.char c), rest)
    | none => (name cs).map fun (label, rest) => (.label label, rest)

/-! ## Statements -/

theorem length_dropWhile_le (p : Char → Bool) (cs : List Char) :
    (cs.dropWhile p).length ≤ cs.length :=
  (List.dropWhile_suffix p).sublist.length_le

theorem magnitude_length {b : Bool} {cs rest : List Char} {w : Word}
    (h : magnitude b cs = some (w, rest)) : rest.length ≤ cs.length := by
  unfold magnitude at h
  simp only at h
  split at h
  · cases h
  · obtain ⟨_, _, heq⟩ := Option.map_eq_some_iff.1 h
    cases heq
    exact length_dropWhile_le _ cs

theorem number_length {cs rest : List Char} {w : Word} (h : number cs = some (w, rest)) :
    rest.length ≤ cs.length := by
  unfold number at h
  split at h
  · have := magnitude_length h
    simp only [List.length_cons]
    omega
  · exact magnitude_length h

theorem blanks_length {cs rest : List Char} (h : blanks cs = some rest) :
    rest.length < cs.length := by
  unfold blanks at h
  split at h
  · next c cs =>
    split at h
    · cases h
      have := length_dropWhile_le isBlank cs
      simp only [skipBlanks, List.length_cons]
      omega
    · cases h
  · cases h

/-- One blank or more, and a number. -/
def spacedNumber (cs : List Char) : Option (Word × List Char) := (blanks cs).bind number

theorem spacedNumber_length {cs rest : List Char} {w : Word}
    (h : spacedNumber cs = some (w, rest)) : rest.length < cs.length := by
  obtain ⟨mid, hblank, hnumber⟩ := Option.bind_eq_some_iff.1 h
  have := blanks_length hblank
  have := number_length hnumber
  omega

/-- As many numbers as there are, each after one blank or more. -/
def numbers (cs : List Char) : List Word × List Char :=
  match h : spacedNumber cs with
  | some (w, rest) =>
    have := spacedNumber_length h
    let (words, rest) := numbers rest
    (w :: words, rest)
  | none => ([], cs)
termination_by cs.length

/-- A mnemonic and its operand, if there is one. -/
def instruction (cs : List Char) : Option (Statement × List Char) :=
  match name cs with
  | none => none
  | some (mnemonic, rest) =>
    match (blanks rest).bind operand with
    | some (op, rest) => some (.instruction mnemonic (some op), rest)
    | none => some (.instruction mnemonic none, rest)

def statement : Reader Statement
  | '.' :: 'd' :: 'a' :: 't' :: 'a' :: rest =>
    let (words, rest) := numbers rest
    some (.data words, rest)
  | cs => instruction cs

/-! ## Lines -/

/-- A name with a colon after it. -/
def labelDefinition (cs : List Char) : Option (String × List Char) :=
  match name cs with
  | none => none
  | some (label, rest) =>
    match skipBlanks rest with
    | ':' :: rest => some (label, rest)
    | _ => none

/-- Something optional, and the blanks after it. -/
def optional {α : Type} (reader : Reader α) (cs : List Char) : Option α × List Char :=
  match reader cs with
  | some (a, rest) => (some a, skipBlanks rest)
  | none => (none, cs)

/-- The parts of a line, if the line follows the grammar. -/
def Line.parse? (cs : List Char) : Option Line :=
  let (label, cs) := optional labelDefinition (skipBlanks cs)
  let (statement, cs) := optional Assembly.statement cs
  match cs with
  | [] => some { label, statement, comment := none }
  | '#' :: comment => some { label, statement, comment := some (String.ofList comment) }
  | _ => none

end Microstack.Assembly
