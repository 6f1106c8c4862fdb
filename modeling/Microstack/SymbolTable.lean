/-
# `Microstack.SymbolTable` — labels and the instructions they mark

A symbol table maps labels to program counters.  The first label of each program
counter is its primary one, and the table can be asked for it; further labels of
the same program counter are aliases, which only resolve forward.

The primary labels are a one-to-one map, and one that overwrites: a new pair
drives out every pair that shares a side with it.  The aliases are a map from
labels that overwrites in the same way.  What keeps old entries is that `insert`
asks first.
-/

namespace Microstack

/-- The labels of a program. -/
structure SymbolTable where
  /-- The first label of each program counter that has one. -/
  primary : List (String × Nat)
  /-- All further labels. -/
  aliases : List (String × Nat)

namespace SymbolTable

def empty : SymbolTable := ⟨[], []⟩

/-- The program counter that a label marks. -/
def address? (t : SymbolTable) (label : String) : Option Nat :=
  (t.primary.lookup label).or (t.aliases.lookup label)

/-- The first label of a program counter. -/
def label? (t : SymbolTable) (pc : Nat) : Option String :=
  (t.primary.find? fun entry => entry.2 = pc).map Prod.fst

def contains (t : SymbolTable) (label : String) : Bool := (t.address? label).isSome

def size (t : SymbolTable) : Nat := t.primary.length + t.aliases.length

/-- A way to put a pair into a one-to-one map. -/
abbrev PairInsert : Type := List (String × Nat) → String → Nat → List (String × Nat)

/-- The one-to-one map with a pair in it, without the pairs that share a side with it. -/
def pair : PairInsert := fun entries label pc =>
  entries.filter (fun entry => entry.1 ≠ label ∧ entry.2 ≠ pc) ++ [(label, pc)]

/-- A map with the value of a label set. -/
def assign (entries : List (String × Nat)) (label : String) (pc : Nat) : List (String × Nat) :=
  entries.filter (fun entry => entry.1 ≠ label) ++ [(label, pc)]

/-- Gives a program counter one more label.  A label that is defined already is
refused, and the table stays as it is.  `add` puts a pair into the primary map. -/
def insertBy (add : PairInsert) (label : String) (pc : Nat) :
    EStateM String SymbolTable Unit := fun t =>
  if t.contains label then .error label t
  else if (t.label? pc).isSome then .ok () { t with aliases := assign t.aliases label pc }
  else .ok () { t with primary := add t.primary label pc }

/-- Gives a program counter one more label. -/
def insert : String → Nat → EStateM String SymbolTable Unit := insertBy pair

/-- The table with one more label, unless the label is defined already. -/
def insert? (t : SymbolTable) (label : String) (pc : Nat) : Option SymbolTable :=
  match insert label pc t with
  | .ok _ grown => some grown
  | .error _ _ => none

end SymbolTable

end Microstack
