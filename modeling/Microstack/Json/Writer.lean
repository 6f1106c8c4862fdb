/-
# `Microstack.Json.Writer` — writing JSON

One item to a line, indented by two spaces for each level, a space after the
colon of a field, and nothing at all between the brackets of what is empty.
-/
import Microstack.Json.Text
import Microstack.Text.Shortest

namespace Microstack.Json

def newLine (level : Nat) : List Char := '\n' :: List.replicate (2 * level) ' '

mutual

/-- A value at a level of indentation. -/
def render (level : Nat) : Json → List Char
  | .null => ['n', 'u', 'l', 'l']
  | .bool true => ['t', 'r', 'u', 'e']
  | .bool false => ['f', 'a', 'l', 's', 'e']
  | .int n => Numeral.integer n
  | .float x => (Shortest.text x).toList
  | .string s => quoted s.toList
  | .array [] => ['[', ']']
  | .array (v :: items) =>
    '[' :: (newLine (level + 1) ++ render (level + 1) v ++ renderItems level items)
  | .object [] => ['{', '}']
  | .object ((key, v) :: fields) =>
    '{' :: (newLine (level + 1) ++ quoted key.toList ++ [':', ' '] ++ render (level + 1) v ++
      renderFields level fields)

/-- The further items of an array, and its end. -/
def renderItems (level : Nat) : List Json → List Char
  | [] => newLine level ++ [']']
  | v :: items => ',' :: (newLine (level + 1) ++ render (level + 1) v ++ renderItems level items)

/-- The further fields of an object, and its end. -/
def renderFields (level : Nat) : List (String × Json) → List Char
  | [] => newLine level ++ ['}']
  | (key, v) :: fields =>
    ',' :: (newLine (level + 1) ++ quoted key.toList ++ [':', ' '] ++ render (level + 1) v ++
      renderFields level fields)

end

def text (v : Json) : String := String.ofList (render 0 v)

end Microstack.Json
