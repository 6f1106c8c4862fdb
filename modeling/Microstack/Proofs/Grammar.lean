/-
# `Microstack.Proofs.Grammar` — the lines that are read are those of the grammar

What a statement, a label or a line may be followed by is settled at the end of the line:

    statement    blanks, and then a comment or nothing          `AtEnd`
    label        anything that does not look like a label       `Follows`

With that the readers of statements and of labels are `Exact`, and so is the reader of whole
lines: the text of every layout is read as what the layout says (`parse?_chars`), every line
that is read has a layout (`exists_layout`), and no line has two
(`Layout.chars_injective`).
-/
import Microstack.Proofs.Layout

namespace Microstack.Assembly

/-! ### Statements -/

/-- What may follow a statement: blanks, and then a comment or nothing. -/
def AtEnd (rest : List Char) : Prop :=
  skipBlanks rest = [] ∨ ∃ comment, skipBlanks rest = '#' :: comment

theorem AtEnd.stops {rest : List Char} (h : AtEnd rest) {p : Char → Bool}
    (hblank : ∀ c, isBlank c = true → p c = false) (hhash : p '#' = false) : Stops p rest := by
  cases rest with
  | nil => exact stops_nil p
  | cons c rest =>
    rw [stops_cons]
    cases hc : isBlank c with
    | true => exact hblank c hc
    | false =>
      have hskip : skipBlanks (c :: rest) = c :: rest := Stops.dropWhile (stops_cons.2 hc)
      rcases h with h | ⟨comment, h⟩
      · cases hskip.symm.trans h
      · cases hskip.symm.trans h
        exact hhash

theorem skipBlanks_of_blanks {cs rest : List Char} (h : blanks cs = some rest) :
    skipBlanks cs = rest := by
  unfold blanks at h
  split at h
  · next c cs =>
    split at h
    · next hc =>
      cases h
      exact List.dropWhile_cons_of_pos hc
    · cases h
  · cases h

theorem AtEnd.bind_eq_none {α : Type} {rest : List Char} (h : AtEnd rest) {reader : Reader α}
    (hempty : reader [] = none) (hcomment : ∀ comment, reader ('#' :: comment) = none) :
    (blanks rest).bind reader = none := by
  cases hblanks : blanks rest with
  | none => rfl
  | some mid =>
    obtain rfl := skipBlanks_of_blanks hblanks
    rcases h with h | ⟨comment, h⟩
    · rw [h]
      exact hempty
    · rw [h]
      exact hcomment comment

theorem AtEnd.no_operand {rest : List Char} (h : AtEnd rest) :
    (blanks rest).bind operand = none :=
  h.bind_eq_none rfl fun _ => rfl

theorem AtEnd.no_number {rest : List Char} (h : AtEnd rest) : spacedNumber rest = none :=
  h.bind_eq_none rfl fun _ => rfl

/-! The words of a data statement. -/

theorem numbers_of_some {cs rest : List Char} {w : Word} (h : spacedNumber cs = some (w, rest)) :
    numbers cs = (w :: (numbers rest).1, (numbers rest).2) := by
  rw [numbers]
  split
  · next found rest' heq =>
    cases h.symm.trans heq
    rfl
  · next heq => cases h.symm.trans heq

theorem numbers_of_none {cs : List Char} (h : spacedNumber cs = none) : numbers cs = ([], cs) := by
  rw [numbers]
  split
  · next heq => cases h.symm.trans heq
  · rfl

theorem exists_dataChars (cs : List Char) :
    ∃ ts, dataChars ts ++ (numbers cs).2 = cs ∧ ts.map (fun t => t.2.word) = (numbers cs).1 := by
  induction cs using numbers.induct with
  | case1 cs w rest h _ _ _ _ ih =>
    obtain ⟨ts, hts, hwords⟩ := ih
    obtain ⟨t, rfl, rfl⟩ := exact_spacedNumber.sound h
    rw [numbers_of_some h]
    refine ⟨t :: ts, ?_, by rw [List.map_cons, hwords]⟩
    rw [dataChars, List.flatMap_cons, List.append_assoc]
    exact congrArg (_ ++ ·) hts
  | case2 cs h =>
    rw [numbers_of_none h]
    exact ⟨[], rfl, rfl⟩

theorem stops_dataChars (ts : List (Gap × NumberText)) {rest : List Char} (hrest : AtEnd rest) :
    Stops isNamePart (dataChars ts ++ rest) := by
  cases ts with
  | nil => exact hrest.stops not_isNamePart_of_isBlank rfl
  | cons t ts =>
    rw [dataChars, List.flatMap_cons, spacedChars, List.append_assoc, List.append_assoc]
    exact t.1.stops not_isNamePart_of_isBlank _

theorem numbers_append (ts : List (Gap × NumberText)) {rest : List Char} (hrest : AtEnd rest) :
    numbers (dataChars ts ++ rest) = (ts.map fun t => t.2.word, rest) := by
  induction ts with
  | nil => exact numbers_of_none hrest.no_number
  | cons t ts ih =>
    have hnumber := exact_spacedNumber.complete t (stops_dataChars ts hrest).isDigit
    rw [dataChars, List.flatMap_cons, List.append_assoc]
    rw [dataChars] at hnumber ih
    rw [numbers_of_some hnumber, ih]
    rfl

theorem atEnd_nil : AtEnd [] := .inl rfl

theorem dataChars_injective : Function.Injective dataChars := by
  intro ts ts' heq
  induction ts generalizing ts' with
  | nil =>
    cases ts' with
    | nil => rfl
    | cons t' ts' =>
      have hread := numbers_append (t' :: ts') atEnd_nil
      rw [← heq, numbers_append [] atEnd_nil] at hread
      cases hread
  | cons t ts ih =>
    cases ts' with
    | nil =>
      have hread := numbers_append (t :: ts) atEnd_nil
      rw [heq, numbers_append [] atEnd_nil] at hread
      cases hread
    | cons t' ts' =>
      have hstops (us : List (Gap × NumberText)) : Stops Char.isDigit (dataChars us) := by
        have hus := (stops_dataChars us atEnd_nil).isDigit
        rwa [List.append_nil] at hus
      obtain ⟨ht, hts⟩ := exact_spacedNumber.unique (hstops ts) (hstops ts') heq
      rw [ht, ih hts]

/-! Instructions. -/

theorem stops_operandChars (o : Option (Gap × OperandText)) {rest : List Char}
    (hrest : AtEnd rest) : Stops isNamePart (operandChars o ++ rest) := by
  cases o with
  | none => exact hrest.stops not_isNamePart_of_isBlank rfl
  | some t =>
    rw [operandChars, spacedChars, List.append_assoc]
    exact t.1.stops not_isNamePart_of_isBlank _

theorem instruction_append (m : NameText) (o : Option (Gap × OperandText)) {rest : List Char}
    (hrest : AtEnd rest) :
    instruction (m.chars ++ (operandChars o ++ rest)) =
      some (.instruction m.text (o.map fun t => t.2.value), rest) := by
  rw [instruction, exact_name.complete m (stops_operandChars o hrest)]
  cases o with
  | none =>
    simp only [operandChars, List.nil_append]
    rw [hrest.no_operand]
    rfl
  | some t =>
    have hoperand := exact_spacedOperand.complete t (stops_operandChars none hrest)
    simp only [operandChars, List.nil_append] at hoperand ⊢
    rw [hoperand]
    rfl

theorem instruction_eq_some {cs rest : List Char} {found : Statement}
    (h : instruction cs = some (found, rest)) :
    ∃ m o, m.chars ++ (operandChars o ++ rest) = cs ∧
      StatementText.value (.instruction m o) = found := by
  unfold instruction at h
  split at h
  · cases h
  · next mnemonic mid hname =>
    obtain ⟨m, rfl, rfl⟩ := exact_name.sound hname
    split at h
    · next op rest' hoperand =>
      cases h
      obtain ⟨t, rfl, rfl⟩ := exact_spacedOperand.sound hoperand
      exact ⟨m, some t, rfl, rfl⟩
    · cases h
      exact ⟨m, none, rfl, rfl⟩

theorem statement_of_isName {cs : List Char} (h : isName cs = true) (rest : List Char) :
    statement (cs ++ rest) = instruction (cs ++ rest) := by
  cases cs with
  | nil => cases h
  | cons c cs =>
    rw [List.cons_append]
    unfold statement
    split
    · next heq =>
      obtain ⟨rfl, -⟩ := List.cons.inj heq
      exact absurd (isName_cons.1 h).1 (by decide)
    · rfl

theorem statement_append (t : StatementText) {rest : List Char} (hrest : AtEnd rest) :
    statement (t.chars ++ rest) = some (t.value, rest) := by
  cases t with
  | data ts =>
    show some (Statement.data (numbers (dataChars ts ++ rest)).1,
      (numbers (dataChars ts ++ rest)).2) = _
    rw [numbers_append ts hrest]
    rfl
  | instruction m o =>
    rw [StatementText.chars, List.append_assoc, statement_of_isName m.named]
    exact instruction_append m o hrest

theorem StatementText.chars_injective : Function.Injective StatementText.chars := by
  intro t t' heq
  have hvalue := value_eq_of_chars_eq (fun t => statement_append t atEnd_nil) heq
  cases t with
  | data ts =>
    cases t' with
    | data ts' => rw [dataChars_injective (List.append_cancel_left heq)]
    | instruction m' o' => cases hvalue
  | instruction m o =>
    cases t' with
    | data ts' => cases hvalue
    | instruction m' o' =>
      have hstops (x : Option (Gap × OperandText)) : Stops isNamePart (operandChars x) := by
        have hx := stops_operandChars x atEnd_nil
        rwa [List.append_nil] at hx
      obtain ⟨rfl, hoperand⟩ := exact_name.unique (hstops o) (hstops o') heq
      cases o with
      | none =>
        cases o' with
        | none => rfl
        | some x' => cases hvalue
      | some x =>
        cases o' with
        | none => cases hvalue
        | some x' => rw [exact_spacedOperand.injective hoperand]

theorem exact_statement : Exact statement StatementText.chars StatementText.value AtEnd where
  sound := by
    intro cs rest found h
    unfold statement at h
    split at h
    · next cs =>
      cases h
      obtain ⟨ts, hts, hwords⟩ := exists_dataChars cs
      refine ⟨.data ts, ?_, congrArg Statement.data hwords⟩
      exact congrArg (".data".toList ++ ·) hts
    · obtain ⟨m, o, rfl, hvalue⟩ := instruction_eq_some h
      exact ⟨.instruction m o, List.append_assoc _ _ _, hvalue⟩
  complete t _ hrest := statement_append t hrest
  injective := StatementText.chars_injective

/-! ### Labels -/

theorem Blanks.stops_colon (b : Blanks) (rest : List Char) :
    Stops isNamePart (b.chars ++ ':' :: rest) := by
  obtain ⟨cs, hblank⟩ := b
  cases cs with
  | nil => exact stops_cons.2 rfl
  | cons c cs =>
    exact stops_cons.2 (not_isNamePart_of_isBlank c (hblank c List.mem_cons_self))

theorem exact_labelDefinition :
    Exact labelDefinition LabelText.chars (fun t => t.name.text) (fun _ => True) where
  sound := by
    intro cs rest l h
    unfold labelDefinition at h
    split at h
    · cases h
    · next label mid hname =>
      split at h
      · next rest' hcolon =>
        cases h
        obtain ⟨n, rfl, rfl⟩ := exact_name.sound hname
        obtain ⟨b, hb⟩ := exists_blanks mid
        rw [hcolon] at hb
        refine ⟨⟨n, b⟩, ?_, rfl⟩
        rw [LabelText.chars, List.append_assoc, List.append_assoc]
        exact congrArg (n.chars ++ ·) hb
      · cases h
  complete := by
    rintro ⟨n, b⟩ rest -
    have hcolon : skipBlanks (b.chars ++ ':' :: rest) = ':' :: rest := b.skip (stops_cons.2 rfl)
    have htext : LabelText.chars ⟨n, b⟩ ++ rest = n.chars ++ (b.chars ++ ':' :: rest) := by
      simp [LabelText.chars]
    rw [htext, labelDefinition, exact_name.complete n (b.stops_colon rest)]
    simp only [hcolon]
  injective := by
    rintro ⟨n, b⟩ ⟨n', b'⟩ heq
    obtain ⟨rfl, hrest⟩ := exact_name.unique (b.stops_colon []) (b'.stops_colon []) heq
    have hcolon : Stops isBlank [':'] := stops_cons.2 rfl
    rw [(Blanks.unique hcolon hcolon hrest).1]

/-! ### Optional parts -/

theorem optional_eq_some {α : Type} {reader : Reader α} {cs rest : List Char} {a : α}
    (h : reader cs = some (a, rest)) : optional reader cs = (some a, skipBlanks rest) := by
  rw [optional, h]

theorem optional_eq_none {α : Type} {reader : Reader α} {cs : List Char} (h : reader cs = none) :
    optional reader cs = (none, cs) := by
  rw [optional, h]

/-- The text does not look like the blanks after an optional part, like more of the part or like
another one. -/
structure Follows {α : Type} (reader : Reader α) (Ends : List Char → Prop) (rest : List Char) :
    Prop where
  stops : Stops isBlank rest
  ends : ∀ b : Blanks, Ends (b.chars ++ rest)
  none : reader rest = none

namespace Exact

variable {P α : Type} {reader : Reader α} {chars : P → List Char} {value : P → α}
  {Ends : List Char → Prop} {rest rest' : List Char}

theorem optional_append (h : Exact reader chars value Ends) (o : Option (P × Blanks))
    (hrest : Follows reader Ends rest) :
    optional reader (optionalChars chars o ++ rest) = (o.map fun t => value t.1, rest) := by
  cases o with
  | none => exact optional_eq_none hrest.none
  | some t =>
    obtain ⟨p, b⟩ := t
    have hread := h.complete p (hrest.ends b)
    rw [optionalChars, List.append_assoc, optional_eq_some hread, b.skip hrest.stops]
    rfl

theorem optional_unique (h : Exact reader chars value Ends) {o o' : Option (P × Blanks)}
    (hrest : Follows reader Ends rest) (hrest' : Follows reader Ends rest')
    (heq : optionalChars chars o ++ rest = optionalChars chars o' ++ rest') :
    o = o' ∧ rest = rest' := by
  have hread := h.optional_append o hrest
  rw [heq, h.optional_append o' hrest'] at hread
  obtain ⟨hvalue, rfl⟩ := Prod.mk.inj hread
  refine ⟨?_, rfl⟩
  cases o with
  | none =>
    cases o' with
    | none => rfl
    | some t' => cases hvalue
  | some t =>
    cases o' with
    | none => cases hvalue
    | some t' =>
      obtain ⟨p, b⟩ := t
      obtain ⟨p', b'⟩ := t'
      simp only [optionalChars, List.append_assoc] at heq
      obtain ⟨rfl, hblanks⟩ := h.unique (hrest.ends b) (hrest.ends b') heq
      rw [Blanks.ext (List.append_cancel_right hblanks)]

theorem exists_optional (h : Exact reader chars value Ends) (cs : List Char) :
    ∃ o : Option (P × Blanks), optionalChars chars o ++ (optional reader cs).2 = cs ∧
      o.map (fun t => value t.1) = (optional reader cs).1 := by
  cases hread : reader cs with
  | none =>
    rw [optional_eq_none hread]
    exact ⟨none, rfl, rfl⟩
  | some found =>
    obtain ⟨a, rest⟩ := found
    rw [optional_eq_some hread]
    obtain ⟨p, rfl, rfl⟩ := h.sound hread
    obtain ⟨b, hb⟩ := exists_blanks rest
    refine ⟨some (p, b), ?_, rfl⟩
    rw [optionalChars, List.append_assoc]
    exact congrArg (chars p ++ ·) hb

end Exact

/-! ## Lines -/

theorem follows_statement (c : Option (List Char)) : Follows statement AtEnd (commentChars c) := by
  cases c with
  | none =>
    refine ⟨stops_nil _, fun b => .inl ?_, rfl⟩
    exact b.skip (stops_nil _)
  | some comment =>
    refine ⟨stops_cons.2 rfl, fun b => .inr ⟨comment, ?_⟩, rfl⟩
    exact b.skip (stops_cons.2 rfl)

/-- An instruction is not taken for a label: no colon comes next after its mnemonic. -/
theorem labelDefinition_instruction (m : NameText) (o : Option (Gap × OperandText))
    {rest : List Char} (hrest : AtEnd rest) :
    labelDefinition (m.chars ++ (operandChars o ++ rest)) = none := by
  have hcolon (cs : List Char) : skipBlanks (operandChars o ++ rest) ≠ ':' :: cs := by
    intro heq
    cases o with
    | none =>
      change skipBlanks rest = ':' :: cs at heq
      rcases hrest with h | ⟨comment, h⟩
      · cases h.symm.trans heq
      · cases h.symm.trans heq
    | some t =>
      have hskip := t.1.skip (t.2.stops not_isBlank_of_isOperandStart rest)
      rw [operandChars, spacedChars, List.append_assoc, hskip] at heq
      obtain ⟨c, ds, hds, hc⟩ := t.2.chars_eq_cons
      rw [hds] at heq
      obtain ⟨rfl, -⟩ := List.cons.inj heq
      exact absurd hc (by decide)
  rw [labelDefinition, exact_name.complete m (stops_operandChars o hrest)]
  split
  · next heq => cases heq
  · next heq =>
    cases heq
    split
    · next cs hcs => exact absurd hcs (hcolon cs)
    · rfl

theorem follows_label (t : Option (StatementText × Blanks)) (c : Option (List Char)) :
    Follows labelDefinition (fun _ => True)
      (optionalChars StatementText.chars t ++ commentChars c) := by
  have hcomment := follows_statement c
  cases t with
  | none =>
    refine ⟨hcomment.stops, fun _ => trivial, ?_⟩
    cases c with
    | none => rfl
    | some comment => rfl
  | some t =>
    obtain ⟨t, b⟩ := t
    rw [optionalChars, List.append_assoc]
    cases t with
    | data ts => exact ⟨stops_cons.2 rfl, fun _ => trivial, rfl⟩
    | instruction m o =>
      rw [StatementText.chars, List.append_assoc]
      refine ⟨?_, fun _ => trivial, labelDefinition_instruction m o (hcomment.ends b)⟩
      exact (OperandText.name m).stops not_isBlank_of_isOperandStart _

theorem stops_label (l : Option (LabelText × Blanks)) (t : Option (StatementText × Blanks))
    (c : Option (List Char)) :
    Stops isBlank (optionalChars LabelText.chars l ++
      (optionalChars StatementText.chars t ++ commentChars c)) := by
  cases l with
  | none => exact (follows_label t c).stops
  | some l =>
    rw [optionalChars, LabelText.chars, List.append_assoc, List.append_assoc]
    exact (OperandText.name l.1.name).stops not_isBlank_of_isOperandStart _

/-- A line that is put together is read as what it says. -/
theorem parse?_chars (d : Layout) : Line.parse? d.chars = some d.line := by
  have hlead := d.lead.skip (stops_label d.label d.statement d.comment)
  have hlabel := exact_labelDefinition.optional_append d.label (follows_label d.statement d.comment)
  have hstatement := exact_statement.optional_append d.statement (follows_statement d.comment)
  simp only [Line.parse?, Layout.chars, hlead, hlabel, hstatement]
  rw [Layout.line]
  cases d.comment with
  | none => rfl
  | some comment => rfl

/-- A line that is read is put together from what it says. -/
theorem exists_layout {cs : List Char} {line : Line} (h : Line.parse? cs = some line) :
    ∃ d : Layout, d.chars = cs ∧ d.line = line := by
  obtain ⟨lead, hlead⟩ := exists_blanks cs
  obtain ⟨l, hlabel, hl⟩ := exact_labelDefinition.exists_optional (skipBlanks cs)
  obtain ⟨t, hstatement, ht⟩ :=
    exact_statement.exists_optional (optional labelDefinition (skipBlanks cs)).2
  -- The layout with a comment, if the text that is left is the comment.
  have hchars (c : Option (List Char)) (hc : commentChars c =
      (optional statement (optional labelDefinition (skipBlanks cs)).2).2) :
      Layout.chars ⟨lead, l, t, c⟩ = cs := by
    rw [Layout.chars, hc, hstatement, hlabel, hlead]
  simp only [Line.parse?] at h
  split at h
  · next hrest =>
    cases h
    refine ⟨⟨lead, l, t, none⟩, hchars none hrest.symm, ?_⟩
    rw [← hl, ← ht]
    rfl
  · next comment hrest =>
    cases h
    refine ⟨⟨lead, l, t, some comment⟩, hchars (some comment) hrest.symm, ?_⟩
    rw [← hl, ← ht]
    rfl
  · cases h

theorem commentChars_injective : Function.Injective commentChars := by
  intro c c' heq
  cases c with
  | none =>
    cases c' with
    | none => rfl
    | some comment' => cases heq
  | some comment =>
    cases c' with
    | none => cases heq
    | some comment' =>
      cases heq
      rfl

/-- No line is put together in two ways. -/
theorem Layout.chars_injective : Function.Injective Layout.chars := by
  intro d d' heq
  obtain ⟨hlead, hrest⟩ := Blanks.unique (stops_label d.label d.statement d.comment)
    (stops_label d'.label d'.statement d'.comment) heq
  obtain ⟨hlabel, hrest⟩ := exact_labelDefinition.optional_unique
    (follows_label d.statement d.comment) (follows_label d'.statement d'.comment) hrest
  obtain ⟨hstatement, hrest⟩ := exact_statement.optional_unique
    (follows_statement d.comment) (follows_statement d'.comment) hrest
  exact Layout.ext hlead hlabel hstatement (commentChars_injective hrest)

theorem suffix_of_parse? {cs : List Char} {line : Line} (h : Line.parse? cs = some line)
    {comment : String} (hcomment : line.comment = some comment) : comment.toList <:+ cs := by
  obtain ⟨d, rfl, rfl⟩ := exists_layout h
  obtain ⟨c, hc, rfl⟩ := Option.map_eq_some_iff.1 hcomment
  have hhash : c <:+ commentChars d.comment := by
    rw [hc]
    exact List.suffix_cons '#' c
  rw [String.toList_ofList, Layout.chars]
  exact ((hhash.trans (List.suffix_append _ _)).trans (List.suffix_append _ _)).trans
    (List.suffix_append _ _)

/-- Exactly the lines of the grammar are read, as what they say, and a line is put together in
one way only. -/
theorem parse?_eq_some_iff_layout (cs : List Char) :
    (∀ line, Line.parse? cs = some line ↔ ∃ d : Layout, d.chars = cs ∧ d.line = line) ∧
      ∀ d d' : Layout, d.chars = cs → d'.chars = cs → d = d' := by
  constructor
  · intro line
    constructor
    · intro h
      exact exists_layout h
    · rintro ⟨d, rfl, rfl⟩
      exact parse?_chars d
  · intro d d' hd hd'
    exact Layout.chars_injective (hd.trans hd'.symm)

/-! A mnemonic may be a label, a quoted `#` starts no comment, and a number that is no word is
not read as something shorter. -/

example : Line.parse? "PUSH: PUSH '#' # '#'".toList =
    some ⟨"PUSH", some (.instruction "PUSH" (some (.literal (.char '#')))), " '#'"⟩ := rfl

example : Line.parse? "PUSH 2147483648".toList = none := rfl

end Microstack.Assembly
