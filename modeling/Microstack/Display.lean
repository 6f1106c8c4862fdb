/-
# `Microstack.Display` — the machine and its reports as tables

`Report.statistics` has a row for each opcode that retired or spent ticks, in the
order of their codes, and a last one with the totals.  `Machine.display` shows
the registers of the machine beside the top of its stack.
-/
import Microstack.Run
import Microstack.Table

namespace Microstack

open Table (left right)

/-! ## Statistics -/

namespace Report

/-- The row of an opcode, if there is anything to say about it. -/
def statisticsRow? (r : Report) (op : Opcode) : Option (List Table.Entry) :=
  if r.counts.get op = 0 ∧ r.spent.get op = 0 then none
  else some [left op.mnemonic, right (Numeral.ofNat (r.counts.get op)),
    right (Numeral.ofNat (r.spent.get op))]

def statistics (r : Report) : Table where
  titles := [left "Opcode", right "Retired", right "Ticks"]
  rows := Opcode.all.filterMap r.statisticsRow? ++
    [[left "total", right (Numeral.ofNat r.instructions), right (Numeral.ofNat r.ticks)]]

end Report

/-! ## The machine -/

namespace Machine

/-- How many words of the stack are shown. -/
def shownWords : Nat := 5

/-- The registers, and the instruction being executed. -/
def registerTable (m : Machine) : Table where
  rows := [
    [right "Tick", left (Numeral.ofNat m.ticks)],
    [right "PC", left (Numeral.ofNat m.pc)],
    [right "Head", left (Numeral.ofNat m.datapath.head)],
    [right "ALU", left m.datapath.accumulator.text],
    [right "Address", left m.memory.latched.text],
    [right "Instruction", left ((m.current.map Instruction.text).getD "")],
    [right "Term", left (((m.current.bind Instruction.term).map Term.display).getD "")]]

/-- The label of a word on the stack; an arrow points at the top. -/
def depthLabel (depth : Nat) : String :=
  (if depth = 0 then "* --> " else "") ++ "S[" ++ Numeral.ofNat depth ++ "] ="

def stackTable (m : Machine) : Table where
  titles := [right "Depth", left "Word"]
  rows := (m.datapath.words.reverse.take shownWords).zipIdx.map fun (w, depth) =>
    [right (depthLabel depth), left w.text]

/-- The machine as one table. -/
def display (m : Machine) : Table where
  titles := [left "Control Unit", left "Operand Stack"]
  rows := [[left m.registerTable.text, left m.stackTable.text]]

end Machine

end Microstack
