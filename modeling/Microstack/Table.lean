/-
# `Microstack.Table` — tables drawn with lines

A table is a list of rows under an optional row of titles.  A column is as wide
as the longest line in it.  A line runs under the titles and under the last row,
and nowhere else; a column is divided from the next one by a bar, and every cell
has a space on either side.  A cell may hold several lines, and its row is then
that many lines high.
-/
import Microstack.Text.Line

namespace Microstack

/-- Where a cell's text stands. -/
inductive Align
  | left
  | right
deriving DecidableEq

namespace Table

structure Entry where
  align : Align
  lines : List String

/-- A cell with a text, which may have several lines. -/
def entry (align : Align) (text : String) : Entry where
  align := align
  lines := (Text.lines text.toList).map String.ofList

def left (text : String) : Entry := entry .left text

def right (text : String) : Entry := entry .right text

/-- The length of the longest line. -/
def Entry.width (e : Entry) : Nat := (e.lines.map String.length).foldl max 0

def spaces (n : Nat) : String := String.ofList (List.replicate n ' ')

/-- A text filled up to a width. -/
def filled (align : Align) (width : Nat) (text : String) : String :=
  match align with
  | .left => text ++ spaces (width - text.length)
  | .right => spaces (width - text.length) ++ text

end Table

structure Table where
  /-- The titles of the columns, none if the table has no titles. -/
  titles : List Table.Entry := []
  rows : List (List Table.Entry)

namespace Table

/-- The titles as a row, if there are any, and all other rows. -/
def allRows (t : Table) : List (List Entry) :=
  if t.titles.isEmpty then t.rows else t.titles :: t.rows

def widths (t : Table) : List Nat :=
  let columns := (t.allRows.map List.length).foldl max 0
  (List.range columns).map fun column =>
    (t.allRows.map fun row => (row[column]?.map Entry.width).getD 0).foldl max 0

def rowLines (widths : List Nat) (row : List Entry) : List String :=
  let height := (row.map fun e => e.lines.length).foldl max 0
  (List.range height).map fun i =>
    let cells := (row.zip widths).map fun (e, width) =>
      " " ++ filled e.align width (e.lines[i]?.getD "") ++ " "
    " " ++ "│".intercalate cells ++ " "

/-- A line across the table, with what stands where it meets a bar. -/
def rule (crossing : String) (widths : List Nat) : String :=
  " " ++ crossing.intercalate (widths.map fun n => String.ofList (List.replicate (n + 2) '─')) ++
    " "

def lines (t : Table) : List String :=
  let widths := t.widths
  let heading := if t.titles.isEmpty then [] else rowLines widths t.titles ++ [rule "┼" widths]
  heading ++ t.rows.flatMap (rowLines widths) ++ [rule "┴" widths]

def text (t : Table) : String := String.join (t.lines.map (· ++ "\n"))

end Table

end Microstack
