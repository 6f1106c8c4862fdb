/-
# `Microstack.Json.Reader` — reading JSON

The reader goes through the text once.  The arrays and objects that are still
open are kept as a stack of frames, and each step uses up at least one character:
it opens or closes a frame, or completes a value.  The first character that
cannot be right decides the error, and it is `ended` where there is none.

At most 127 arrays and objects may be open at a time.
-/
import Microstack.Json.Number
import Microstack.Json.Text

namespace Microstack.Json

/-- An array or object that is still open, what it holds so far in reverse. -/
inductive Frame
  | array (items : List Json)
  /-- An object, with the key whose value is being read. -/
  | object (fields : List (String × Json)) (key : String)

/-- What the reader expects, with the frames around it. -/
inductive State
  | value (frames : List Frame)
  /-- The first item of an array, or the end of the array. -/
  | firstItem (frames : List Frame)
  /-- The first key of an object, or the end of the object. -/
  | firstKey (frames : List Frame)
  /-- A further key of an object. -/
  | key (fields : List (String × Json)) (frames : List Frame)
  /-- Whatever may follow a value that is complete. -/
  | after (v : Json) (frames : List Frame)

/-- How many arrays and objects may be open. -/
def maxDepth : Nat := 127

/-- Where a step leads: a state, and the characters still to be read. -/
abbrev Progress := Except ReadError (State × List Char)

/-- The rest of a literal word, and the value it stands for. -/
def word (v : Json) (frames : List Frame) : List Char → List Char → Progress
  | [], rest => .ok (.after v frames, rest)
  | _ :: _, [] => .error .ended
  | w :: ws, c :: rest => if w = c then word v frames ws rest else .error .malformed

/-- A value, or the start of one. -/
def valueStep (frames : List Frame) : List Char → Progress
  | [] => .error .ended
  | '[' :: rest =>
    if frames.length < maxDepth then .ok (.firstItem frames, rest) else .error .malformed
  | '{' :: rest =>
    if frames.length < maxDepth then .ok (.firstKey frames, rest) else .error .malformed
  | '"' :: rest =>
    match stringBody rest with
    | .error e => .error e
    | .ok (body, rest) => .ok (.after (.string (String.ofList body)) frames, rest)
  | 'n' :: rest => word .null frames ['u', 'l', 'l'] rest
  | 't' :: rest => word (.bool true) frames ['r', 'u', 'e'] rest
  | 'f' :: rest => word (.bool false) frames ['a', 'l', 's', 'e'] rest
  | cs =>
    match number cs with
    | .error e => .error e
    | .ok (v, rest) => .ok (.after v frames, rest)

/-- A key with its colon, after the opening quote. -/
def keyStep (fields : List (String × Json)) (frames : List Frame) (cs : List Char) : Progress :=
  match stringBody cs with
  | .error e => .error e
  | .ok (body, rest) =>
    match skipSpace rest with
    | [] => .error .ended
    | ':' :: rest => .ok (.value (.object fields (String.ofList body) :: frames), rest)
    | _ => .error .malformed

/-- What follows a complete value. -/
def afterStep (v : Json) : List Frame → List Char → Progress
  | _, [] => .error .ended
  | .array items :: frames, ',' :: rest => .ok (.value (.array (v :: items) :: frames), rest)
  | .array items :: frames, ']' :: rest => .ok (.after (.array (v :: items).reverse) frames, rest)
  | .object fields k :: frames, ',' :: rest => .ok (.key ((k, v) :: fields) frames, rest)
  | .object fields k :: frames, '}' :: rest =>
    .ok (.after (.object ((k, v) :: fields).reverse) frames, rest)
  | _, _ => .error .malformed

/-- One step of the reader, on a text without leading white space. -/
def step : State → List Char → Progress
  | .value frames, cs => valueStep frames cs
  | .firstItem frames, ']' :: rest => .ok (.after (.array []) frames, rest)
  | .firstItem frames, cs => valueStep (.array [] :: frames) cs
  | .firstKey frames, '}' :: rest => .ok (.after (.object []) frames, rest)
  | .firstKey frames, '"' :: rest => keyStep [] frames rest
  | .key fields frames, '"' :: rest => keyStep fields frames rest
  | .firstKey _, cs => .error (digitWanted cs)
  | .key _ _, cs => .error (digitWanted cs)
  | .after v frames, cs => afterStep v frames cs

/-! ## Every step uses up a character -/

theorem word_length {v : Json} {frames : List Frame} {ws cs rest : List Char} {s : State}
    (h : word v frames ws cs = .ok (s, rest)) : rest.length ≤ cs.length := by
  fun_induction word v frames ws cs with
  | case1 => cases h; exact Nat.le_refl _
  | case2 => cases h
  | case3 _ _ _ ih =>
    have := ih h
    simp only [List.length_cons]
    omega
  | case4 => cases h

theorem valueStep_length {frames : List Frame} {cs rest : List Char} {s : State}
    (h : valueStep frames cs = .ok (s, rest)) : rest.length < cs.length := by
  unfold valueStep at h
  split at h
  · cases h
  · split at h
    · cases h; simp
    · cases h
  · split at h
    · cases h; simp
    · cases h
  · split at h
    · cases h
    · next hbody =>
      cases h
      have := stringBody_length hbody
      simp only [List.length_cons]
      omega
  · have := word_length h
    simp only [List.length_cons]
    omega
  · have := word_length h
    simp only [List.length_cons]
    omega
  · have := word_length h
    simp only [List.length_cons]
    omega
  · split at h
    · cases h
    · next hnumber =>
      cases h
      exact number_length hnumber

theorem keyStep_length {fields : List (String × Json)} {frames : List Frame}
    {cs rest : List Char} {s : State} (h : keyStep fields frames cs = .ok (s, rest)) :
    rest.length < cs.length := by
  unfold keyStep at h
  split at h
  · cases h
  · next tail hbody =>
    have := stringBody_length hbody
    have hskip := skipSpace_length tail
    split at h
    · cases h
    · next heq =>
      cases h
      rw [heq] at hskip
      simp only [List.length_cons] at hskip
      omega
    · cases h

theorem afterStep_length {v : Json} {frames : List Frame} {cs rest : List Char} {s : State}
    (h : afterStep v frames cs = .ok (s, rest)) : rest.length < cs.length := by
  unfold afterStep at h
  split at h
  · cases h
  · cases h; simp
  · cases h; simp
  · cases h; simp
  · cases h; simp
  · cases h

theorem step_length {state s : State} {cs rest : List Char}
    (h : step state cs = .ok (s, rest)) : rest.length < cs.length := by
  unfold step at h
  split at h
  · exact valueStep_length h
  · cases h; simp
  · exact valueStep_length h
  · cases h; simp
  · have := keyStep_length h
    simp only [List.length_cons]
    omega
  · have := keyStep_length h
    simp only [List.length_cons]
    omega
  · cases h
  · cases h
  · exact afterStep_length h

/-- Reads the rest of a text from a state of the reader. -/
def readFrom (state : State) (cs : List Char) : Except ReadError Json :=
  match state, skipSpace cs with
  | .after v [], [] => .ok v
  | .after _ [], _ :: _ => .error .malformed
  | state, _ =>
    match h : step state (skipSpace cs) with
    | .error e => .error e
    | .ok (next, rest) =>
      have := step_length h
      have := skipSpace_length cs
      readFrom next rest
termination_by cs.length

def parse (text : List Char) : Except ReadError Json := readFrom (.value []) text

end Microstack.Json
