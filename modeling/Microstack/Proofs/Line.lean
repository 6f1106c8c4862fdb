/-
# `Microstack.Proofs.Line` — a line of assembly that was written is read back

Three kinds of lines are written:

    name ':'                                        a label
    '.data' (' ' number)*                           the data words
    '    ' name [' ' operand] [' '* '#' comment]    an instruction

Each is the text of a layout, with a word in its decimal form and a character as it is
escaped, and so it is read as what the layout says (`parse?_chars`).
-/
import Microstack.Proofs.Grammar

namespace Microstack

theorem Numeral.isHexDigit_of_mem_hex {n : Nat} {c : Char} (h : c ∈ hex n) :
    isHexDigit c = true := by
  have hdigit (k : Nat) (hk : k < 16) : isHexDigit k.digitChar = true := by
    rw [isHexDigit, hexDigit?_digitChar k hk]
    rfl
  induction n using Nat.strongRecOn with
  | ind n ih =>
    rw [hex, Nat.toDigits_eq_if (by decide)] at h
    split at h
    · next hlt =>
      rw [List.mem_singleton] at h
      rw [h]
      exact hdigit n hlt
    · next hge =>
      rw [List.mem_append, List.mem_singleton] at h
      rcases h with h | h
      · exact ih (n / 16) (Nat.div_lt_self (by omega) (by decide)) h
      · rw [h]
        exact hdigit (n % 16) (Nat.mod_lt n (by decide))

namespace Assembly

/-! ## Operands -/

theorem exists_numberText (w : Word) :
    ∃ t : NumberText, t.chars = Numeral.integer w.toInt ∧ t.word = w := by
  have hdigits (n : Nat) : ∀ c ∈ Numeral.decimal n, c.isDigit = true :=
    fun _ => Numeral.isDigit_of_mem_decimal
  cases hn : w.toInt with
  | ofNat n =>
    refine ⟨⟨false, Numeral.decimal n, w, Nat.toDigits_ne_nil, hdigits n, ?_⟩, rfl, rfl⟩
    rw [hn, Numeral.value_decimal]
    rfl
  | negSucc n =>
    refine ⟨⟨true, Numeral.decimal (n + 1), w, Nat.toDigits_ne_nil, hdigits (n + 1), ?_⟩, rfl, rfl⟩
    rw [hn, Numeral.value_decimal]
    rfl

theorem exists_quotedText (c : Char) :
    ∃ t : QuotedText, t.chars = Glyph.escaped c ∧ t.value = c := by
  unfold Glyph.escaped
  split
  · next h => exact ⟨.escape 't' c (by rw [h]; decide), rfl, rfl⟩
  split
  · next h => exact ⟨.escape 'r' c (by rw [h]; decide), rfl, rfl⟩
  split
  · next h => exact ⟨.escape 'n' c (by rw [h]; decide), rfl, rfl⟩
  split
  · next h => exact ⟨.escape '\'' c (by rw [h]; decide), rfl, rfl⟩
  split
  · next h => exact ⟨.escape '"' c (by rw [h]; decide), rfl, rfl⟩
  split
  · next h => exact ⟨.escape '\\' c (by rw [h]; decide), rfl, rfl⟩
  split
  · next hquote _ hback _ => exact ⟨.plain c hback hquote, rfl, rfl⟩
  · exact ⟨.code (Numeral.hex c.toNat) c Nat.toDigits_ne_nil
      (fun _ => Numeral.isHexDigit_of_mem_hex) (Numeral.hexValue_hex c.toNat).symm, rfl, rfl⟩

/-- A label is an operand only if it is a name. -/
def Operand.Named : Operand → Prop
  | literal _ => True
  | label l => isName l.toList = true

theorem exists_operandText {o : Operand} (ho : o.Named) :
    ∃ t : OperandText, t.chars = o.text.toList ∧ t.value = o := by
  cases o with
  | literal arg =>
    rw [Operand.text, Argument.text, String.toList_ofList]
    cases arg with
    | number w =>
      obtain ⟨t, hchars, rfl⟩ := exists_numberText w
      exact ⟨.number t, hchars, rfl⟩
    | char c =>
      obtain ⟨t, hchars, rfl⟩ := exists_quotedText c
      refine ⟨.character t, ?_, rfl⟩
      rw [OperandText.chars, hchars]
      rfl
  | label l => exact ⟨.name ⟨l.toList, ho⟩, rfl, congrArg Operand.label String.ofList_toList⟩

/-! ## Blanks -/

/-- A number of spaces. -/
def Blanks.spaces (k : Nat) : Blanks where
  chars := List.replicate k ' '
  blank c hc := by
    obtain rfl := List.eq_of_mem_replicate hc
    rfl

def Gap.space : Gap where
  toBlanks := .spaces 1
  nonempty := List.cons_ne_nil _ _

/-! ## Lines -/

/-- What may stand behind an instruction, and the comment that it is read as. -/
inductive Tail : List Char → Option String → Prop
  | empty : Tail [] none
  | comment (k : Nat) (c : List Char) :
      Tail (List.replicate k ' ' ++ '#' :: c) (some (String.ofList c))

theorem Tail.exists_comment {rest : List Char} {comment : Option String} (h : Tail rest comment) :
    ∃ (b : Blanks) (c : Option (List Char)), b.chars ++ commentChars c = rest ∧
      c.map String.ofList = comment := by
  cases h with
  | empty => exact ⟨.spaces 0, none, rfl, rfl⟩
  | comment k c => exact ⟨.spaces k, some c, rfl, rfl⟩

/-- An operand with the space in front of it, if there is one. -/
def operandText : Option Operand → List Char
  | none => []
  | some o => ' ' :: o.text.toList

theorem exists_operandChars {o : Option Operand} (ho : ∀ x, o = some x → x.Named) :
    ∃ t, operandChars t = operandText o ∧ t.map (fun t => t.2.value) = o := by
  cases o with
  | none => exact ⟨none, rfl, rfl⟩
  | some o =>
    obtain ⟨t, hchars, rfl⟩ := exists_operandText (ho o rfl)
    exact ⟨some (.space, t), congrArg (' ' :: ·) hchars, rfl⟩

theorem parse?_instruction {m : String} {o : Option Operand} {rest : List Char}
    {comment : Option String} (hm : isName m.toList = true) (ho : ∀ x, o = some x → x.Named)
    (hrest : Tail rest comment) (k : Nat) :
    Line.parse? (List.replicate k ' ' ++ (m.toList ++ (operandText o ++ rest))) =
      some { label := none, statement := some (.instruction m o), comment } := by
  obtain ⟨t, hoperand, rfl⟩ := exists_operandChars ho
  obtain ⟨b, c, rfl, rfl⟩ := hrest.exists_comment
  have hread := parse?_chars ⟨.spaces k, none, some (.instruction ⟨m.toList, hm⟩ t, b), c⟩
  simpa [Layout.chars, Layout.line, optionalChars, StatementText.chars, StatementText.value,
    Blanks.spaces, NameText.text, hoperand] using hread

theorem parse?_label {l : String} (hl : isName l.toList = true) :
    Line.parse? (l.toList ++ [':']) =
      some { label := some l, statement := none, comment := none } := by
  have hread := parse?_chars ⟨.spaces 0, some (⟨⟨l.toList, hl⟩, .spaces 0⟩, .spaces 0), none, none⟩
  simpa [Layout.chars, Layout.line, optionalChars, LabelText.chars, commentChars, Blanks.spaces,
    NameText.text] using hread

/-- Data words, each with a space in front of it. -/
def dataText (words : List Word) : List Char :=
  words.flatMap fun w => ' ' :: Numeral.integer w.toInt

theorem exists_dataText (words : List Word) :
    ∃ ts, dataChars ts = dataText words ∧ ts.map (fun t => t.2.word) = words := by
  induction words with
  | nil => exact ⟨[], rfl, rfl⟩
  | cons w words ih =>
    obtain ⟨ts, hchars, rfl⟩ := ih
    obtain ⟨t, ht, rfl⟩ := exists_numberText w
    refine ⟨(.space, t) :: ts, ?_, rfl⟩
    have hword : spacedChars NumberText.chars (.space, t) = ' ' :: Numeral.integer t.word.toInt :=
      congrArg (' ' :: ·) ht
    rw [dataChars, List.flatMap_cons, dataText, List.flatMap_cons, hword]
    exact congrArg (_ ++ ·) hchars

theorem parse?_data (words : List Word) :
    Line.parse? (".data".toList ++ dataText words) =
      some { label := none, statement := some (.data words), comment := none } := by
  obtain ⟨ts, hchars, rfl⟩ := exists_dataText words
  have hread := parse?_chars ⟨.spaces 0, none, some (.data ts, .spaces 0), none⟩
  simpa [Layout.chars, Layout.line, optionalChars, StatementText.chars, StatementText.value,
    commentChars, Blanks.spaces, hchars] using hread

end Assembly

end Microstack
